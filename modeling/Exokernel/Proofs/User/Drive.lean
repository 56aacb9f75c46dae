import Exokernel.Proofs.Trap.Meddling
import Exokernel.Simulation.Machine

/-!
# Programs that run undisturbed

A program of one environment runs from trap to trap while nobody else acts: the kernel handles each trap and the
environment goes on at once, with the answer of its call or, after a fault, in the trampoline and then with the access
that faulted. Traps are paid from a budget.

`Costs` says exactly what a part of a program does in front of any other part: how many traps it takes, what it comes to
and the machine that it leaves. `Yields` bounds what a part can come to when nothing is known about the traps that it
takes. Both are put together along the program.
-/

set_option autoImplicit false

namespace Exokernel.Simulation

def Resumption.program (m : Machine) : Resumption → Option (Program Answer)
  | .answered next => some (next m.live.answer)
  | .faulted _ _ _ next =>
    if m.live.ip.toNat = upcallEntry then some (Program.trampoline.andThen fun _ => next) else none
  | _ => none

namespace Machine

def take (cpu : Cpu) (id : Env.Id) (m : Machine) : Option Machine :=
  match m.kernel.envs.find? id with
  | none => none
  | some e =>
    match (Kernel.handle cpu { e with context := m.live } : Action Kernel Empty Bool) (m.kernel.saved id m.live) with
    | .done false kernel => (kernel.contextOf id).map fun live => { m with kernel, live }
    | _ => none

def drive (cpu : Cpu) (id : Env.Id) (budget : Nat) (p : Program Answer) (m : Machine) : Option (Answer × Machine) :=
  match advance id p m with
  | (m, .completed a) => some (a, m)
  | (m, .trapped r) =>
    match budget with
    | 0 => none
    | budget + 1 => do
      let m ← m.take cpu id
      drive cpu id budget (← r.program m) m
  | (_, .failed _) => none

variable {α β ε : Type} {cpu : Cpu} {id : Env.Id} {m m' m'' : Machine} {p q : Program Answer} {budget k l : Nat}

theorem drive_congr (h : advance id p m = advance id q m') : drive cpu id budget p m = drive cpu id budget q m' := by
  unfold drive
  rw [h]

theorem drive_done (a : Answer) : drive cpu id budget (.done a) m = some (a, m) := by
  cases budget <;> rfl

theorem drive_trapped {r : Resumption} (h : advance id p m = (m', .trapped r)) : drive cpu id (budget + 1) p m =
    (m'.take cpu id).bind fun m => (r.program m).bind fun p => drive cpu id budget p m := by
  rw [drive, h]
  rfl

theorem drive_trapped_zero {r : Resumption} (h : advance id p m = (m', .trapped r)) : drive cpu id 0 p m = none := by
  rw [drive, h]

def Costs (cpu : Cpu) (id : Env.Id) (p : Program α) (m : Machine) (k : Nat) (a : α) (m' : Machine) : Prop :=
  ∀ (f : α → Program Answer) (budget : Nat), drive cpu id budget (p.andThen f) m =
    if k ≤ budget then drive cpu id (budget - k) (f a) m' else none

def Yields (cpu : Cpu) (id : Env.Id) (p : Program α) (m : Machine) (Q : α → Machine → Prop) : Prop :=
  ∀ (f : α → Program Answer) (budget : Nat) (x : Answer) (m'' : Machine),
    drive cpu id budget (p.andThen f) m = some (x, m'') →
      ∃ a m' rest, Q a m' ∧ drive cpu id rest (f a) m' = some (x, m'')

def calling (m : Machine) (c : Call) : Machine := { m with live := m.live.setCall c.number c.arguments }

def faulting (m : Machine) (f : AccessFault) : Machine := m.raise Trap.pageFault (UInt64.ofNat f.va) f.code.bits

end Machine

end Exokernel.Simulation

namespace Exokernel.Program

variable {α β γ : Type}

theorem andThen_assoc (p : Program α) (f : α → Program β) (g : β → Program γ) :
    (p.andThen f).andThen g = p.andThen fun a => (f a).andThen g := by
  induction p with
  | done a => rfl
  | call number arguments next ih => exact congrArg (call number arguments) (funext ih)
  | load va count next ih => exact congrArg (load va count) (funext ih)
  | store va data next ih => exact congrArg (store va data) ih
  | pageEntry va next ih => exact congrArg (pageEntry va) (funext ih)
  | spanPresent va next ih => exact congrArg (spanPresent va) (funext ih)
  | envInfo e next ih => exact congrArg (envInfo e) (funext ih)
  | getHandler next ih => exact congrArg getHandler (funext ih)
  | setHandler handler next ih => exact congrArg (setHandler handler) ih
  | stackPointer next ih => exact congrArg stackPointer (funext ih)
  | resume record next ih => exact congrArg (resume record) ih
  | abort cause => rfl

end Exokernel.Program

namespace Exokernel.Simulation.Machine

variable {α β ε ε' : Type} {cpu : Cpu} {id : Env.Id} {m m' m'' : Machine} {k l budget : Nat} {a : α} {b : β}

section exact

theorem costs_done : Costs cpu id (Program.done a) m 0 a m := by
  intro f budget
  rw [if_pos (Nat.zero_le _)]
  rfl

theorem Costs.bind {p : Program α} {f : α → Program β} (hp : Costs cpu id p m k a m')
    (hf : Costs cpu id (f a) m' l b m'') : Costs cpu id (p >>= f) m (k + l) b m'' := by
  intro g budget
  show drive cpu id budget ((p.andThen f).andThen g) m = _
  rw [Program.andThen_assoc, hp, hf]
  by_cases hk : k ≤ budget
  · by_cases hl : l ≤ budget - k
    · rw [if_pos hk, if_pos hl, if_pos (by omega), Nat.sub_sub]
    · rw [if_pos hk, if_neg hl, if_neg (by omega)]
  · rw [if_neg hk, if_neg (by omega)]

theorem Costs.bind_ok {x : Program.Part ε α} {f : α → Program.Part ε β} {r : Except ε β}
    (hx : Costs cpu id x.run m k (.ok a) m') (hf : Costs cpu id (f a).run m' l r m'') :
    Costs cpu id (x >>= f).run m (k + l) r m'' := by
  have h := Costs.bind (f := ExceptT.bindCont f) hx hf
  exact h

theorem Costs.map {p : Program α} (g : α → β) (hp : Costs cpu id p m k a m') :
    Costs cpu id (g <$> p) m k (g a) m' := hp.bind (f := fun a => .done (g a)) costs_done

theorem Costs.adapt {x : Program.Part ε α} {r : Except ε α} (g : ε → ε') (hx : Costs cpu id x.run m k r m') :
    Costs cpu id (x.adapt g).run m k (r.mapError g) m' := hx.map _

theorem Costs.lift {p : Program α} (hp : Costs cpu id p m k a m') :
    Costs cpu id (liftM p : Program.Part ε α).run m k (.ok a) m' := hp.map _

theorem costs_entryAt (va : Word) :
    Costs cpu id (Program.entryAt va) m 0 (m.kernel.pageEntry id va.toNat) m := fun f budget => by
  rw [if_pos (Nat.zero_le _)]
  exact drive_congr rfl

theorem costs_spanAt (va : Word) : Costs cpu id (Program.spanAt va) m 0 (m.kernel.spanPresent id va.toNat) m :=
  fun f budget => by
    rw [if_pos (Nat.zero_le _)]
    exact drive_congr rfl

theorem costs_getHandler : Costs cpu id (Program.getHandler .done) m 0 (m.handlers.lookup id) m := fun f budget => by
  rw [if_pos (Nat.zero_le _)]
  exact drive_congr rfl

theorem costs_stackPointer : Costs cpu id (Program.stackPointer .done) m 0 m.live.sp m := fun f budget => by
  rw [if_pos (Nat.zero_le _)]
  exact drive_congr rfl

theorem costs_resume (r : FaultRecord) :
    Costs cpu id (Program.resume r (.done ())) m 0 () { m with live := m.live.restore r } := fun f budget => by
  rw [if_pos (Nat.zero_le _)]
  exact drive_congr rfl

theorem costs_read {va : Word} {count : Nat} {bytes : Bytes} {kernel : Kernel}
    (h : Kernel.userRead id va.toNat count m.kernel = .done bytes kernel) :
    Costs cpu id (Program.read va count) m 0 bytes { m with kernel } := fun f budget => by
  rw [if_pos (Nat.zero_le _)]
  refine drive_congr ?_
  show advance id (.load va count fun b => f b) m = _
  rw [advance, h]

theorem costs_write {va : Word} {data : Bytes} {kernel : Kernel}
    (h : Kernel.userWrite id va.toNat data m.kernel = .done () kernel) :
    Costs cpu id (Program.write va data) m 0 () { m with kernel } := fun f budget => by
  rw [if_pos (Nat.zero_le _)]
  refine drive_congr ?_
  show advance id (.store va data (f ())) m = _
  rw [advance, h]

theorem costs_issue {c : Call} (h : (m.calling c).take cpu id = some m') :
    Costs cpu id (Program.issue c).run m 1 (ErrorCode.check m'.live.answer) m' := fun f budget => by
  have ha : ∀ next, advance id (.call c.number c.arguments next) m = (m.calling c, .trapped (.answered next)) :=
    fun _ => rfl
  cases budget with
  | zero => exact drive_trapped_zero (ha _)
  | succ budget =>
    rw [if_pos (Nat.succ_le_succ (Nat.zero_le _)), Nat.add_sub_cancel]
    refine (drive_trapped (ha _)).trans ?_
    rw [h]
    rfl

theorem costs_perform {c : Call} {value : Word} (h : (m.calling c).take cpu id = some m')
    (hv : ErrorCode.check m'.live.answer = .ok value) : Costs cpu id (Program.perform c).run m 1 (.ok ()) m' := by
  have hi := costs_issue h
  rw [hv] at hi
  exact hi.bind_ok (f := fun _ => pure ()) costs_done

/-- A store that faults is tried again when the trampoline has come back. -/
theorem costs_write_fault {va : Word} {data : Bytes} {f : AccessFault} {kernel : Kernel} {m₁ m₂ : Machine}
    (h : Kernel.userWrite id va.toNat data m.kernel = .refused f kernel)
    (ht : ({ m with kernel }.faulting f).take cpu id = some m₁) (hip : m₁.live.ip.toNat = upcallEntry)
    (hrepair : Costs cpu id Program.trampoline m₁ k () m₂) (hagain : Costs cpu id (Program.write va data) m₂ l () m') :
    Costs cpu id (Program.write va data) m (1 + (k + l)) () m' := fun g budget => by
  have ha : advance id (.store va data (g ())) m = ({ m with kernel }.faulting f,
      .trapped (.faulted Trap.pageFault (UInt64.ofNat f.va) f.code.bits (.store va data (g ())))) := by
    rw [advance, h]
    rfl
  cases budget with
  | zero =>
    rw [if_neg (by omega)]
    exact drive_trapped_zero ha
  | succ budget =>
    refine (drive_trapped ha).trans ?_
    have hboth := (hrepair.bind (f := fun _ => Program.write va data) hagain) g budget
    rw [ht, Option.bind_some, Resumption.program, if_pos hip, Option.bind_some]
    refine Eq.trans ?_ (hboth.trans ?_)
    · show drive cpu id budget _ m₁ = drive cpu id budget ((Program.trampoline.andThen _).andThen g) m₁
      rw [Program.andThen_assoc]
      rfl
    · by_cases hb : k + l ≤ budget
      · rw [if_pos hb, if_pos (by omega), show budget + 1 - (1 + (k + l)) = budget - (k + l) by omega]
      · rw [if_neg hb, if_neg (by omega)]

end exact

section bounds

variable {p : Program α} {x : Program.Part ε α} {P Q : α → Machine → Prop} {E : ε → Machine → Prop}

def either (Q : α → Machine → Prop) (E : ε → Machine → Prop) : Except ε α → Machine → Prop
  | .ok a => Q a
  | .error e => E e

theorem yields_done (h : Q a m) : Yields cpu id (Program.done a) m Q := fun _ budget _ _ hd => ⟨a, m, budget, h, hd⟩

theorem Yields.mono (h : Yields cpu id p m P) (hPQ : ∀ a m', P a m' → Q a m') : Yields cpu id p m Q :=
  fun f budget y m'' hd => by
    obtain ⟨a, m', rest, hp, hd'⟩ := h f budget y m'' hd
    exact ⟨a, m', rest, hPQ a m' hp, hd'⟩

theorem Costs.yields (h : Costs cpu id p m k a m') (hq : Q a m') : Yields cpu id p m Q := fun f budget y m'' hd => by
  rw [h] at hd
  by_cases hk : k ≤ budget
  · rw [if_pos hk] at hd
    exact ⟨a, m', budget - k, hq, hd⟩
  · rw [if_neg hk] at hd
    cases hd

theorem Yields.of_drive {f : α → Answer} {x : Answer} (h : Yields cpu id p m Q)
    (hd : drive cpu id budget (p.andThen fun a => .done (f a)) m = some (x, m')) : ∃ a, x = f a ∧ Q a m' := by
  obtain ⟨a, m₁, rest, hq, hrest⟩ := h _ _ _ _ hd
  rw [drive_done] at hrest
  cases hrest
  exact ⟨a, rfl, hq⟩

theorem Yields.bind {f : α → Program β} {R : β → Machine → Prop} (hp : Yields cpu id p m P)
    (hf : ∀ a m', P a m' → Yields cpu id (f a) m' R) : Yields cpu id (p >>= f) m R := by
  intro g budget y m'' hd
  have hd' : drive cpu id budget ((p.andThen f).andThen g) m = some (y, m'') := hd
  rw [Program.andThen_assoc] at hd'
  obtain ⟨a, m', rest, ha, hrest⟩ := hp _ _ _ _ hd'
  exact hf a m' ha g rest y m'' hrest

theorem Yields.mono_ok {Q' : α → Machine → Prop} (hx : Yields cpu id x.run m (either Q E))
    (h : ∀ a m', Q a m' → Q' a m') : Yields cpu id x.run m (either Q' E) := hx.mono fun r m' hr => by
  cases r with
  | ok a => exact h a m' hr
  | error e => exact hr

theorem Yields.mono_error {E' : ε → Machine → Prop} (hx : Yields cpu id x.run m (either Q E))
    (h : ∀ e m', E e m' → E' e m') : Yields cpu id x.run m (either Q E') := hx.mono fun r m' hr => by
  cases r with
  | ok a => exact hr
  | error e => exact h e m' hr

theorem Yields.bind_part {f : α → Program.Part ε β} {R : β → Machine → Prop}
    (hx : Yields cpu id x.run m (either Q E)) (hf : ∀ a m', Q a m' → Yields cpu id (f a).run m' (either R E)) :
    Yields cpu id (x >>= f).run m (either R E) := by
  have h : Yields cpu id (x.run >>= ExceptT.bindCont f) m (either R E) := by
    refine hx.bind fun r m' hr => ?_
    cases r with
    | ok a => exact hf a m' hr
    | error e => exact yields_done hr
  exact h

theorem Yields.adapt {g : ε → ε'} {E' : ε' → Machine → Prop} (hx : Yields cpu id x.run m (either Q fun e => E' (g e))) :
    Yields cpu id (x.adapt g).run m (either Q E') := by
  have h : Yields cpu id (x.run >>= fun r => .done (r.mapError g)) m (either Q E') := by
    refine hx.bind fun r m' hr => yields_done ?_
    cases r with
    | ok a => exact hr
    | error e => exact hr
  exact h

theorem Yields.lift (hp : Yields cpu id p m Q) :
    Yields cpu id (liftM p : Program.Part ε α).run m (either Q E) := by
  have h : Yields cpu id (p >>= fun a => .done (.ok a)) m (either Q E) :=
    hp.bind fun a m' ha => yields_done ha
  exact h

theorem yields_pure (h : Q a m) : Yields cpu id (pure a : Program.Part ε α).run m (either Q E) := yields_done h

/-- A call comes back only if the kernel lets its program go on. -/
theorem yields_issue {c : Call} {Q : Word → Machine → Prop} {E : ErrorCode → Machine → Prop}
    (h : ∀ m', (m.calling c).take cpu id = some m' → either Q E (ErrorCode.check m'.live.answer) m') :
    Yields cpu id (Program.issue c).run m (either Q E) := fun f budget y m'' hd => by
  cases ht : (m.calling c).take cpu id with
  | none =>
    have ha : advance id ((Program.issue c).run.andThen f) m = (m.calling c, .trapped (.answered _)) := rfl
    cases budget with
    | zero =>
      rw [drive_trapped_zero ha] at hd
      cases hd
    | succ budget =>
      rw [drive_trapped ha, ht] at hd
      cases hd
  | some m' => exact (costs_issue ht).yields (h m' ht) f budget y m'' hd

theorem yields_perform {c : Call} {Q : Unit → Machine → Prop} {E : ErrorCode → Machine → Prop}
    (h : ∀ m', (m.calling c).take cpu id = some m' →
      either (fun _ => Q ()) E (ErrorCode.check m'.live.answer) m') :
    Yields cpu id (Program.perform c).run m (either Q E) :=
  (yields_issue h).bind_part fun _ _ hq => yields_done hq

theorem yields_setHandler {handler : Handler} {Q : Unit → Machine → Prop}
    (h : Q () { m with handlers := set id handler m.handlers }) :
    Yields cpu id (Program.setHandler handler (.done ())) m Q := fun f budget y m'' hd => by
  have ha : advance id ((Program.setHandler handler (.done ())).andThen f) m =
      advance id (f ()) { m with handlers := set id handler m.handlers } := rfl
  rw [drive_congr ha] at hd
  exact ⟨(), _, budget, h, hd⟩

/-- A loop over a list: what holds of the elements done so far, and what when one of them fails. -/
theorem yields_forM {list : List β} {g : β → Program.Part ε Unit} {I : List β → Machine → Prop}
    (hstep : ∀ past b rest m', list = past ++ b :: rest → I past m' →
      Yields cpu id (g b).run m' (either (fun _ => I (past ++ [b])) E))
    (h : I [] m) : Yields cpu id (list.forM g).run m (either (fun _ => I list) E) := by
  -- Induction on the elements that are left.
  suffices hrest : ∀ rest past m', list = past ++ rest → I past m' →
      Yields cpu id (rest.forM g).run m' (either (fun _ => I list) E) from hrest list [] m rfl h
  intro rest
  induction rest with
  | nil =>
    intro past m' hl hp
    rw [List.append_nil] at hl
    exact yields_done (hl ▸ hp)
  | cons b rest ih =>
    intro past m' hl hp
    refine (hstep past b rest m' hl hp).bind_part fun _ m₁ h₁ => ?_
    exact ih (past ++ [b]) m₁ (by rw [hl, List.append_assoc]; rfl) h₁

end bounds

end Exokernel.Simulation.Machine
