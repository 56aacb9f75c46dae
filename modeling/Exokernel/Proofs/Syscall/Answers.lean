import Exokernel.Proofs.Post.Passage
import Exokernel.Proofs.System.Demands
import Exokernel.Proofs.System.Lapse

/-!
# Answers to calls

A call that is refused leaves no trace. Whatever it had done before it was refused is undone: a frame that was taken
for a page is put back at the head of the free list, and a page of a message is mapped last. The trap handler puts
the error into the caller's answer register and goes back to the caller.

A value and the code of an error share one signed word. The values of calls are bytes, ids, numbers of pages, or
nothing: all of them are far below the words that are read as negative, so that a program tells the one from the other.
-/

set_option autoImplicit false

/-! ## Refused calls -/

namespace Exokernel

open Env (Id Kind Status)
open Env.Table

namespace Kernel

variable {k k' : Kernel} {caller : Env.Id} {e : Env}

def rebuked (k : Kernel) (caller : Env.Id) (number : Word) (cause : CallError) : Kernel :=
  { k with
    envs := k.envs.update caller fun e => { e with context := e.context.setAnswer cause.code.toWord }
    journal := k.journal.record (.refused caller number cause) }

theorem callTrap_refused {ε : Type} {c : Cpu} {cause : CallError}
    (h : callSystem .standard c e.id e.context.callNumber e.context.callArguments k = .refused cause k') :
    (callTrap c e : Action Kernel ε Bool) k = .done false (k'.rebuked e.id e.context.callNumber cause) := by
  have hx : ((callSystem .standard c e.id e.context.callNumber e.context.callArguments).attempt :
      Action Kernel ε _) k = .done (.error cause) k' := by
    rw [Action.attempt, h]
  rw [callTrap, Action.bind_done hx]
  rfl

/-- Whatever call a live environment makes of a kernel in any state, with any number and arguments: if it is refused,
then nothing has changed but a failure on demand that has happened and the cycle counter that was read. The caller
gets its answer, and no scheduling pass is asked for. -/
theorem refused_call_untouched (hk : k.Reachable) (hc : k.envs.find? caller = some e) :
    (∀ table cpu number a cause k', callSystem table cpu caller number a k = .refused cause k' → Untouched k k') ∧
      ∀ c live cause k', callSystem .standard c caller live.callNumber live.callArguments k = .refused cause k' →
        (callTrap c { e with context := live } k : Outcome Kernel Empty Bool) =
          .done false (k'.rebuked caller live.callNumber cause) := by
  obtain ⟨n, hp⟩ := hk.proper
  constructor
  · intro table cpu number a cause k' h
    exact (callSystem_effect table number a hp hc).of_refused h
  · intro c live cause k' h
    obtain rfl := id_of_find? hc
    exact callTrap_refused (e := { e with context := live }) h

def denied : Kernel := Demand.denyAlloc.next ((Demand.step (.create .user)).next System.twoCpusBooted)

theorem reachable_denied : denied.Reachable := by
  have hboot : boot System.twoCpus {} {} = .ok System.twoCpusBooted := by decide +kernel
  exact ((Reachable.boot hboot).next (r := .step (.create .user)) trivial (by decide +kernel)).next trivial
    (by decide +kernel)

def deniedFork : Outcome Kernel CallError Reply :=
  callSystem .standard ⟨0⟩ ⟨0x402⟩ 5 (Vector.replicate 5 0) denied

theorem refused_call_untouched_fork : ∃ e k', denied.envs.find? ⟨0x402⟩ = some e ∧
    deniedFork = .refused (.env .outOfMemory) k' ∧ denied.memory.frames.denyNext = true ∧
    k'.memory.frames.denyNext = false ∧ Untouched denied k' := by
  obtain ⟨e, hc⟩ := Option.isSome_iff_exists.mp (show (denied.envs.find? ⟨0x402⟩).isSome = true by decide +kernel)
  obtain ⟨⟨cause, k'⟩, hr⟩ := Option.isSome_iff_exists.mp (show deniedFork.refusal?.isSome = true by decide +kernel)
  have hcause : deniedFork.refusal?.map Prod.fst = some (.env .outOfMemory) := by decide +kernel
  have hspent : deniedFork.refusal?.map (fun r => r.2.memory.frames.denyNext) = some false := by decide +kernel
  rw [hr] at hcause hspent
  obtain rfl := Option.some.inj hcause
  have hd := Outcome.refusal?_eq_some hr
  exact ⟨e, k', hc, hd, by decide +kernel, Option.some.inj hspent,
    (refused_call_untouched reachable_denied hc).1 _ _ _ _ _ _ hd⟩

end Kernel

/-! ## Values and errors -/

theorem ofInt_toInt (w : Word) : UInt64.ofInt w.toInt64.toInt = w := by
  have hint : w.toInt64.toInt = (w.toNat : Int).bmod (2 ^ 64) := BitVec.toInt_eq_toNat_bmod w.toBitVec
  have hmod : (w.toNat : Int).bmod (2 ^ 64) % 2 ^ 64 = w.toNat :=
    Int.bmod_emod.trans (Int.emod_eq_of_lt (Int.natCast_nonneg _) (Int.ofNat_lt.mpr w.toNat_lt))
  rw [UInt64.ofInt, hint, hmod, Int.toNat_natCast, UInt64.ofNat_toNat]

namespace ErrorCode

def valueLimit : Nat := 0x8000000000000000

theorem check_word {w : Word} (h : w.toNat < valueLimit) : check w.toInt64.toInt = .ok w := by
  have hint : w.toInt64.toInt = w.toNat := by
    rw [← Int64.toInt_toBitVec]
    show w.toBitVec.toInt = _
    rw [BitVec.toInt_eq_toNat_of_lt (by rw [UInt64.toNat_toBitVec]; simp only [valueLimit] at h; omega),
      UInt64.toNat_toBitVec]
  rw [check, if_pos (hint ▸ Int.natCast_nonneg _), ofInt_toInt]

theorem check_toReturn (code : ErrorCode) : check code.toReturn = .error code := by
  cases code <;> rfl

theorem toWord_lt_valueLimit (id : Id) : id.toWord.toNat < valueLimit := by
  have hlt := id.raw.toNat_lt
  rw [Id.toWord, UInt32.toNat_toUInt64, valueLimit]
  omega

theorem check_encode {r : Except CallError Word} (h : ∀ w, r = .ok w → w.toNat < valueLimit) :
    check (CallError.encode r).toInt64.toInt = r.mapError CallError.code := by
  cases r with
  | ok w => exact check_word (h w rfl)
  | error cause =>
    show check cause.code.toWord.toInt64.toInt = _
    rw [toInt_toWord, check_toReturn]
    rfl

end ErrorCode

namespace Context

variable (ctx : Context) (number : Word) (a : Arguments)

theorem callNumber_setCall : (ctx.setCall number a).callNumber = number := rfl

theorem callArguments_setCall : (ctx.setCall number a).callArguments = a := by
  refine Vector.ext fun i hi => ?_
  match i, hi with
  | 0, _ | 1, _ | 2, _ | 3, _ | 4, _ => simp [callArguments, setCall, Arguments.word]

end Context

def Outcome.Answers (o : Outcome Kernel CallError Reply) (V : Word → Prop) : Prop :=
  o.Meets (fun r _ => V r.value) (fun _ _ => True) fun _ => True

def Call.asks : Call → Bool
  | getc | self | fork | scan => true
  | _ => false

namespace Kernel

def replied (k : Kernel) (id : Env.Id) (w : Word) : Kernel :=
  { k with envs := k.envs.update id fun e => { e with context := e.context.setAnswer w } }

variable {ε α : Type} {n : Nat} {k k₁ : Kernel} {id caller : Env.Id} {e : Env} {cpu : Cpu} {w : Word} {c : Call}
  {V : Word → Prop}

theorem rebuked_eq (number : Word) (cause : CallError) : k.rebuked id number cause =
    ({ k with journal := k.journal.record (.refused id number cause) } : Kernel).replied id cause.code.toWord := rfl

theorem contextOf_replied : (k.replied id w).contextOf id = (k.contextOf id).map fun c => c.setAnswer w := by
  rw [contextOf, contextOf]
  show ((k.envs.update id _).find? id).map _ = _
  rw [Env.Table.find?_update Env.title_context, if_pos rfl, Option.map_map, Option.map_map]
  rfl

theorem callSystem_setCall {table : CallTable} {number : Word} {a : Arguments} (ctx : Context) :
    callSystem table cpu id (ctx.setCall number a).callNumber (ctx.setCall number a).callArguments =
      callSystem table cpu id number a := by
  rw [Context.callArguments_setCall, Context.callNumber_setCall]

section trap

theorem callTrap_done {r : Reply}
    (h : callSystem .standard cpu e.id e.context.callNumber e.context.callArguments k = .done r k₁) :
    (callTrap cpu e : Action Kernel ε Bool) k = .done r.reschedule (k₁.replied e.id r.value) := by
  have hsys : ((callSystem .standard cpu e.id e.context.callNumber e.context.callArguments).attempt :
      Action Kernel ε _) k = .done (.ok r) k₁ := by
    rw [Action.attempt, h]
  rw [callTrap, Action.bind_done hsys]
  rfl

theorem callTrap_halted {p : Panic}
    (h : callSystem .standard cpu e.id e.context.callNumber e.context.callArguments k = .halted p) :
    (callTrap cpu e : Action Kernel ε Bool) k = .halted p := by
  have hsys : ((callSystem .standard cpu e.id e.context.callNumber e.context.callArguments).attempt :
      Action Kernel ε _) k = .halted p := by
    rw [Action.attempt, h]
  rw [callTrap, Action.bind_apply, hsys]

end trap

section value

theorem answers_bind {x : Action Kernel CallError α} {f : α → Action Kernel CallError Reply}
    (h : ∀ a k, (f a k).Answers V) : ((x >>= f) k).Answers V := by
  rw [Action.bind_apply]
  cases x k with
  | done a k => exact h a k
  | refused cause k => exact trivial
  | halted p => exact trivial

theorem destroyFor_valueless : (destroyFor cpu caller id k).Answers (· = 0) :=
  answers_bind fun _ _ => answers_bind fun _ _ => rfl

theorem puts_valueless {va count : Nat} : (puts cpu caller va count k).Answers (· = 0) := by
  refine answers_bind fun space _ => answers_bind fun checked _ => ?_
  cases checked with
  | error fault => exact answers_bind fun _ _ => destroyFor_valueless
  | ok u => exact answers_bind fun _ _ => rfl

theorem changeStatus_valueless {status : Env.Status} : (changeStatus cpu caller id status k).Answers (· = 0) := by
  refine answers_bind fun target _ => ?_
  split
  · exact destroyFor_valueless
  · refine answers_bind fun e _ => ?_
    split
    · exact trivial
    · exact answers_bind fun _ _ => rfl

theorem mapPage_valueless {src dst : Env.Id} {srcva dstva : Nat} {perm : PageFlags} :
    (mapPage caller src srcva dst dstva perm k).Answers (· = 0) := by
  refine answers_bind fun _ _ => answers_bind fun _ _ => answers_bind fun _ _ => answers_bind fun _ _ =>
    answers_bind fun _ _ => answers_bind fun found _ => ?_
  cases found with
  | none => exact trivial
  | some entry =>
    simp only
    split
    · exact trivial
    · split
      · exact trivial
      · exact answers_bind fun _ _ => rfl

theorem receiveFor_valueless {dstva : Word} : (receiveFor caller dstva k).Answers (· = 0) := by
  refine answers_bind fun _ _ => answers_bind fun _ _ => answers_bind fun r _ => ?_
  cases r with
  | received sender => exact answers_bind fun _ _ => rfl
  | blocked => exact rfl

/-- Most calls answer with nothing. -/
theorem perform_valueless (hc : c.asks = false) : (perform cpu caller c k).Answers (· = 0) := by
  cases c with
  | puts va count => exact puts_valueless
  | destroy id => exact answers_bind fun _ _ => destroyFor_valueless
  | yield => exact answers_bind fun _ _ => rfl
  | setStatus id status => exact changeStatus_valueless
  | allocPage id va perm => exact answers_bind fun _ _ => answers_bind fun _ _ => answers_bind fun _ _ => rfl
  | mapPage src srcva dst dstva perm => exact mapPage_valueless
  | unmapPage id va =>
    exact answers_bind fun _ _ => answers_bind fun _ _ => answers_bind fun _ _ => answers_bind fun _ _ => rfl
  | setUpcall id entry => exact answers_bind fun _ _ => answers_bind fun _ _ => rfl
  | trySend target m => exact answers_bind fun _ _ => rfl
  | receive dstva => exact answers_bind fun _ _ => rfl
  | sendQueued target m => exact answers_bind fun _ _ => rfl
  | receiveQueued dstva => exact receiveFor_valueless
  | getc | self | fork | scan => cases hc

theorem getc_answers : (getc k : Outcome Kernel CallError Reply).Answers fun w => w.toNat < 256 := by
  show ((k.console.readByte.1.map UInt8.toUInt64).getD 0).toNat < 256
  cases k.console.readByte.1 with
  | none => decide
  | some b => simpa using b.toNat_lt

theorem fork_answers : (forkEnv caller k).Answers fun w => ∃ child : Env.Id, w = child.toWord :=
  answers_bind fun _ _ => answers_bind fun child _ => answers_bind fun _ _ => answers_bind fun _ _ => ⟨child, rfl⟩

/-- A space has no more pages than fit below `utop`. -/
theorem scan_answers (hp : Proper n k.envs k.memory) :
    (scan caller k).Answers fun w => w.toNat ≤ utop / pageSize := by
  refine Action.meets_bind (P := fun _ k' => k' = k) ?_ fun space k' hk => ?_
  · rw [spaceFor, Action.state_bind]
    cases k.spaceOf caller with
    | error cause => exact trivial
    | ok space => exact rfl
  · subst hk
    rw [Action.state_bind, Memory.mappings, Memory.space]
    cases hs : k'.memory.space? space with
    | none => exact trivial
    | some s =>
      have hle := (hp.intact.memory.tables space s hs).entries_length_le
      simp only [Except.map, Except.mapError, Action.ofExcept_ok_bind]
      refine answers_bind (V := fun w => w.toNat ≤ utop / pageSize) fun _ _ => answers_bind fun _ _ => ?_
      show (UInt64.ofNat s.table.entries.length).toNat ≤ _
      rw [UInt64.toNat_ofNat']
      exact (Nat.mod_le _ _).trans hle

/-- No value is taken for an error. -/
theorem perform_answers (hp : Proper n k.envs k.memory) :
    (perform cpu caller c k).Answers fun w => w.toNat < ErrorCode.valueLimit := by
  have hzero : ∀ w : Word, w = 0 → w.toNat < ErrorCode.valueLimit := by
    rintro _ rfl
    decide
  by_cases hc : c.asks = true
  · cases c with
    | getc => exact getc_answers.mono (fun r _ h => h.trans (by decide)) (fun _ _ h => h) fun _ h => h
    | self => exact ErrorCode.toWord_lt_valueLimit caller
    | fork =>
      refine fork_answers.mono (fun r _ h => ?_) (fun _ _ h => h) fun _ h => h
      obtain ⟨child, hr⟩ := h
      rw [hr]
      exact ErrorCode.toWord_lt_valueLimit child
    | scan => exact (scan_answers hp).mono (fun r _ h => h.trans_lt (by decide)) (fun _ _ h => h) fun _ h => h
    | _ => cases hc
  · exact (perform_valueless (by simpa using hc)).mono (fun r _ h => hzero _ h) (fun _ _ h => h) fun _ h => h

theorem callSystem_answers (hp : Proper n k.envs k.memory) {table : CallTable} {number : Word} {a : Arguments} :
    (callSystem table cpu caller number a k).Answers fun w => w.toNat < ErrorCode.valueLimit := by
  rw [callSystem]
  cases table.decode number a with
  | error cause => exact trivial
  | ok c => exact perform_answers hp

end value

end Kernel

end Exokernel
