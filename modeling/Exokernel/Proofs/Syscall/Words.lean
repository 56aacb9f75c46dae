import Exokernel.Proofs.Env.Id
import Exokernel.Syscall.Call

/-!
# Words of calls

A kernel reads what a program has packed as the same call, with the same ids, addresses, values and permissions, unless
one of its words stands for nothing: an id that has more than 31 bits, a page that is not aligned or not below `utop`, a
permission with unknown bits. The first such word decides what the program is told. What was read is checked next, and
only then performed.
-/

set_option autoImplicit false

namespace Exokernel

open Env (Id Message Status)

theorem Env.Id.ofWord_toWord (id : Id) : ofWord id.toWord = id := by
  simp [ofWord, toWord]

theorem Env.Status.ofWord?_toWord (s : Status) : ofWord? s.toWord = some s := by
  cases s <;> rfl

inductive Operand where
  | env (id : Id)
  | page (va : Word)
  | perm (perm : PageFlags)

namespace Operand

def flaw? : Operand → Option CallError
  | env id => if id.raw.toNat < 0x80000000 then none else some (.env .badEnvironment)
  | page va => if isUserPage va.toNat then none else some .invalidArgument
  | perm flags => if PageFlags.requestable.contains flags then none else some .invalidArgument

variable {α : Type}

def screen (operands : List Operand) (x : Except CallError α) : Except CallError α :=
  match operands.findSome? flaw? with
  | some cause => .error cause
  | none => x

theorem screen_cons (o p : Operand) (rest : List Operand) (x : Except CallError α) :
    screen (o :: p :: rest) x = screen [o] (screen (p :: rest) x) := by
  simp only [screen, List.findSome?_cons, List.findSome?_nil]
  cases o.flaw? <;> rfl

end Operand

namespace Call

open Operand

variable {α : Type}

theorem envArgument_bind (id : Id) (f : Id → Except CallError α) :
    (envArgument id.toWord >>= f) = screen [.env id] (f id) := by
  have hn : id.toWord.toNat = id.raw.toNat := UInt32.toNat_toUInt64 _
  by_cases h : id.raw.toNat < 0x80000000
  · simp [envArgument, Env.Id.ofWord?, hn, h, screen, flaw?, Env.Id.ofWord_toWord, bind, Except.bind]
  · simp [envArgument, Env.Id.ofWord?, hn, h, screen, flaw?, bind, Except.bind]

theorem pageArgument_bind (va : Word) (f : Word → Except CallError α) :
    (pageArgument va >>= f) = screen [.page va] (f va) := by
  by_cases h : isUserPage va.toNat = true
  · simp [pageArgument, h, screen, flaw?, bind, Except.bind]
  · simp [pageArgument, h, screen, flaw?, bind, Except.bind]

theorem flagsArgument_bind (perm : PageFlags) (f : PageFlags → Except CallError α) :
    (flagsArgument perm.bits >>= f) = screen [.perm perm] (f perm) := by
  have hmask : pageFlagTable.mask = PageFlags.requestable.bits := by decide
  have hof : (Flags.ofBits? perm.bits : Option PageFlags) =
      if PageFlags.requestable.contains perm then some perm else none := by
    rw [Flags.ofBits?, Flags.contains, hmask, UInt64.and_comm]
  rw [flagsArgument, hof]
  by_cases h : PageFlags.requestable.contains perm = true
  · simp [h, screen, flaw?, bind, Except.bind]
  · simp [h, screen, flaw?, bind, Except.bind]

def operands : Call → List Operand
  | destroy id | setStatus id _ | unmapPage id _ | setUpcall id _ => [.env id]
  | allocPage id va flags => [.env id, .page va, .perm flags]
  | mapPage src srcva dst dstva flags => [.env src, .page srcva, .env dst, .page dstva, .perm flags]
  | trySend target m | sendQueued target m => [.env target, .perm m.perm]
  | puts .. | getc | self | yield | fork | scan | receive _ | receiveQueued _ => []

def verdict (c : Call) : Except CallError Call := screen c.operands (.ok c)

def read (number : Word) (a : Arguments) : Except CallError Call :=
  match number.toNat with
  | 6 => do
    let env ← envArgument (a.word 0)
    match Env.Status.ofWord? (a.word 1) with
    | some status => return setStatus env status
    | none => throw .invalidArgument
  | 7 => do
    let env ← envArgument (a.word 0)
    let va ← pageArgument (a.word 1)
    return allocPage env va (← flagsArgument (a.word 2))
  | 8 => do
    let src ← envArgument (a.word 0)
    let srcva ← pageArgument (a.word 1)
    let dst ← envArgument (a.word 2)
    let dstva ← pageArgument (a.word 3)
    return mapPage src srcva dst dstva (← flagsArgument (a.word 4))
  | _ => CallTable.standard.decode number a

def objection? : Call → Option CallError
  | setStatus _ status => if status = .running then some .invalidArgument else none
  | allocPage _ _ flags | mapPage _ _ _ _ flags =>
    if flags.contains (PageFlags.present ||| PageFlags.user) then none else some .invalidArgument
  | _ => none

def check (c : Call) : Except CallError Call :=
  match c.objection? with
  | some cause => .error cause
  | none => .ok c

theorem check_setStatus (id : Id) (w : Word) : (do return setStatus id (← statusArgument w)) =
    ((match Env.Status.ofWord? w with
      | some status => return setStatus id status
      | none => throw .invalidArgument) >>= check : Except CallError Call) := by
  unfold statusArgument
  cases Env.Status.ofWord? w with
  | none => rfl
  | some status => cases status <;> rfl

theorem check_perm {f : PageFlags → Call} (w : Word)
    (h : ∀ flags, (f flags).objection? =
      if flags.contains (PageFlags.present ||| PageFlags.user) then none else some .invalidArgument) :
    (do return f (← permArgument w)) = ((do return f (← flagsArgument w)) >>= check : Except CallError Call) := by
  unfold permArgument
  cases flagsArgument w with
  | error cause => rfl
  | ok flags =>
    show ((if _ then _ else _ : Except CallError PageFlags) >>= _) = check (f flags)
    rw [check, h flags]
    split <;> rfl

theorem check_none {x : Except CallError α} {f : α → Call} (h : ∀ a, (f a).objection? = none) :
    (do return f (← x)) = ((do return f (← x)) >>= check : Except CallError Call) := by
  cases x with
  | error cause => rfl
  | ok a =>
    show _ = check (f a)
    rw [check, h a]
    rfl

/-- Decoding is reading and then checking, whatever the words. -/
theorem decode_eq (number : Word) (a : Arguments) :
    CallTable.standard.decode number a = read number a >>= check := by
  unfold read CallTable.decode
  generalize number.toNat = n
  match n with
  | 0 | 1 | 2 | 4 | 5 | 11 | 13 | 15 | n + 16 => rfl
  | 3 => exact check_none (f := destroy) fun _ => rfl
  | 9 => exact check_none (f := fun id => unmapPage id (a.word 1)) fun _ => rfl
  | 10 => exact check_none (f := fun id => setUpcall id (a.word 1)) fun _ => rfl
  | 12 => exact check_none (f := fun r : Id × Message => trySend r.1 r.2) fun _ => rfl
  | 14 => exact check_none (f := fun r : Id × Message => sendQueued r.1 r.2) fun _ => rfl
  | 6 =>
    show decodeSetStatus a = _
    simp only [decodeSetStatus, check_setStatus, bind_assoc]
  | 7 =>
    show decodeAllocPage a = _
    simp only [decodeAllocPage, check_perm (f := allocPage _ _) _ fun _ => rfl, bind_assoc]
  | 8 =>
    show decodeMapPage a = _
    simp only [decodeMapPage, check_perm (f := mapPage _ _ _ _) _ fun _ => rfl, bind_assoc]

theorem sendArguments_bind (target : Id) (m : Message) (f : Id × Message → Except CallError α) :
    (sendArguments #v[target.toWord, m.value, m.srcva, m.perm.bits, 0] >>= f) =
      screen [.env target] (screen [.perm m.perm] (f (target, m))) := by
  rw [sendArguments, bind_assoc]
  refine (envArgument_bind target _).trans (congrArg _ ?_)
  rw [bind_assoc]
  exact flagsArgument_bind m.perm _

/-- What was packed is read as itself, or for its first flaw it is refused. -/
theorem read_packed (c : Call) : read c.number c.arguments = c.verdict := by
  cases c with
  | puts | getc | self | yield | fork | scan | receive | receiveQueued => rfl
  | destroy id => exact envArgument_bind id _
  | unmapPage id va => exact envArgument_bind id _
  | setUpcall id entry => exact envArgument_bind id _
  | setStatus id status =>
    refine (envArgument_bind id _).trans (congrArg _ ?_)
    show (match Env.Status.ofWord? status.toWord with | some s => _ | none => _) = _
    rw [Env.Status.ofWord?_toWord]
    rfl
  | allocPage id va perm =>
    rw [verdict, operands, screen_cons, screen_cons]
    refine (envArgument_bind id _).trans (congrArg _ ?_)
    refine (pageArgument_bind va _).trans (congrArg _ ?_)
    exact flagsArgument_bind perm _
  | mapPage src srcva dst dstva perm =>
    rw [verdict, operands, screen_cons, screen_cons, screen_cons, screen_cons]
    refine (envArgument_bind src _).trans (congrArg _ ?_)
    refine (pageArgument_bind srcva _).trans (congrArg _ ?_)
    refine (envArgument_bind dst _).trans (congrArg _ ?_)
    refine (pageArgument_bind dstva _).trans (congrArg _ ?_)
    exact flagsArgument_bind perm _
  | trySend target m =>
    rw [verdict, operands, screen_cons]
    exact sendArguments_bind target m _
  | sendQueued target m =>
    rw [verdict, operands, screen_cons]
    exact sendArguments_bind target m _

def rejection? (c : Call) : Option CallError := (c.operands.findSome? flaw?).or c.objection?

theorem decode_packed (c : Call) : CallTable.standard.decode c.number c.arguments =
    match c.rejection? with
    | some cause => .error cause
    | none => .ok c := by
  rw [decode_eq, read_packed, verdict, screen, rejection?]
  cases c.operands.findSome? flaw? with
  | some cause => rfl
  | none =>
    show check c = _
    rw [check]
    cases c.objection? <;> rfl

end Call

end Exokernel
