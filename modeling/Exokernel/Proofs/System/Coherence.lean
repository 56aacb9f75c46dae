import Exokernel.Proofs.Syscall.Coherence
import Exokernel.Proofs.System.Demands
import Exokernel.Proofs.Trap.Provoking

/-!
# Blocked environments in whole runs

From boot on, whoever is blocked in a message operation cannot run, as long as no program makes a blocked child
runnable. Each step that does breaks this at once. While nothing breaks it, a message operation that blocks ends by
a delivery, by a fetch, with the death of its target, or with its own environment.
-/

set_option autoImplicit false

namespace Exokernel

open Env (Id Kind Status Message Parcel)
open Env.Table

variable {n : Nat} {c : Cpu} {id j : Id} {live : Context} {exit : Exit} {k k' : Kernel} {l : Step} {e e' : Env}
  {t t' : Env.Table} {m m' : Memory}

/-- The step makes a blocked child of its caller runnable. -/
def Step.Rouses (k : Kernel) (l : Step) : Prop :=
  ∃ caller call, (Demand.step l).Calls k caller call ∧ Exokernel.Rouses k.envs caller call

theorem Passed.coherent (ht : k.envs.Sound) (h : Passed c k exit k') (hcoh : k.envs.Coherent) : k'.envs.Coherent := by
  intro j e' hj
  obtain ⟨e, he, -⟩ := h.touched.find?_inv hj
  obtain ⟨status, runs, cpu, hf, hs⟩ := h.find? ht he
  cases hj.symm.trans hf
  have hcoh := hcoh j e he
  rcases hs with rfl | ⟨hs, -⟩
  · exact hcoh.congr rfl rfl rfl
  · refine coherent_of_idle (e := { e with status, runs, cpu }) (hcoh.idle ?_)
    rcases hs with hs | hs
    · rw [hs]
      decide
    · rw [hs]
      decide

theorem Kernel.Leaves.coherent (ht : k.envs.Sound) (h : k.Leaves k') (hcoh : k.envs.Coherent) : k'.envs.Coherent := by
  obtain ⟨k₁, ⟨he, -⟩, h⟩ := h
  rw [← he] at ht hcoh
  rcases h with rfl | ⟨c, exit, h⟩
  · exact hcoh
  · exact h.coherent ht hcoh

theorem Served.coherent (hp : Proper n t m) (h : Served c e t m t' m') (hcoh : t.Coherent) (hf : t.find? e.id = some e)
    (hs : e.status = .running) (hr : ∀ call, e.context.call? = some call → ¬Rouses t e.id call) : t'.Coherent := by
  cases h with
  | ticked => exact hcoh
  | answered => exact coherent_context hcoh
  | upcalled => exact coherent_context hcoh
  | killed => exact coherent_released hcoh hf
  | called g hcall he =>
    have hdecode := (Kernel.handle_call (ε := Empty) (c := c) (e := e) hcall).2.1
    have hidle : ¬Blocked e := (hcoh _ e hf).idle (by rw [hs]; decide)
    exact coherent_context (he.coherent hp hcoh hf hidle (hr _ hcall) (decode_ne hdecode))

theorem Handled.coherent (hp : Proper n k.envs k.memory) (h : Handled c live k t' m') (hcoh : k.envs.Coherent)
    (hr : ¬(Step.trap c live).Rouses k) : t'.Coherent := by
  cases h with
  | vacant => exact hcoh
  | reclaimed hrun => exact coherent_released hcoh (Kernel.runningOn_spec hrun).1
  | @served e _ _ hrun hstatus hs =>
    refine hs.coherent (hp.touched touched_context) (coherent_context hcoh)
      (Kernel.find?_saved (Kernel.runningOn_spec hrun).1) hstatus fun call hcall hrouse => hr ?_
    exact ⟨e.id, call, .trapped hrun hstatus hcall, (Kernel.rouses_saved call).mp hrouse⟩

theorem Step.coherent (hp : Proper n k.envs k.memory) (hcoh : k.envs.Coherent) (hr : ¬l.Rouses k)
    (hrun : l.run k = .ok k') : k'.envs.Coherent := by
  obtain ⟨k₁, hd, hl⟩ := l.does hp hrun
  refine hl.coherent (hd.proper hp).intact.table ?_
  generalize k₁.envs = t, k₁.memory = m at hd
  cases hd with
  | still => exact hcoh
  | armed => exact hcoh
  | trapped hd => exact hd.coherent hp hcoh hr
  | created hfree _ => exact coherent_occupy hcoh hp.intact.table hfree
  | loaded => exact hcoh
  | entered => exact coherent_context hcoh

namespace Kernel

theorem trap_kernel {ε : Type} (hmode : live.mode = .kernel) :
    ∃ p, (trap c live : Action Kernel ε (Exit × Context)) k = .halted p := by
  rw [trap, noteProgress_bind, Action.modify_bind]
  simp only [if_pos hmode]
  exact ⟨_, rfl⟩

/-- The trap of a program that rouses a child ends with the child runnable, and blocked as before. -/
theorem trap_rouse {ε : Type} {y : Env} (hmode : live.mode = .user) (hr : k.runningOn c = some y)
    (hs : y.status = .running) (hcall : live.call? = some (.setStatus id .runnable))
    (hl : k.envs.lookup id (some y.id) true = .ok e) (he : e.status = .notRunnable) :
    ∃ ctx k', (trap c live : Action Kernel ε (Exit × Context)) k = .done (.resume y.id, ctx) k' ∧
      k'.envs.find? e.id = some { e with status := .runnable, cpu := none } := by
  obtain ⟨hf, -, -, hcpu⟩ := runningOn_spec hr
  have hne : e.id ≠ y.id := by
    intro hid
    have hfe := (lookup_spec hl).1
    rw [hid] at hfe
    cases hf.symm.trans hfe
    cases hs.symm.trans he
  have hlsaved : (k.saved y.id live).envs.lookup id (some y.id) true = .ok e := lookup_saved hl hne
  have hset := title_reset (.inr rfl : Status.runnable = .notRunnable ∨ Status.runnable = .runnable)
  have hdone : perform c y.id (.setStatus id .runnable) (k.saved y.id live) = .done {} { k.saved y.id live with
      envs := (k.saved y.id live).envs.update e.id fun e => { e with status := .runnable, cpu := none } } :=
    changeStatus_done hlsaved (.inr rfl) (by rw [he]; decide) hne
  have htrap := trap_of_perform (ε := ε) hmode hr hs hcall hdone
  have hfsaved : (k.saved y.id live).envs.find? y.id = some { y with context := live } := find?_saved hf
  have hy := (find?_update_of_ne hset (Ne.symm hne)).trans hfsaved
  have hanswered : (answered { k.saved y.id live with envs := (k.saved y.id live).envs.update e.id fun e =>
      { e with status := .runnable, cpu := none } } y.id).envs.find? y.id =
      some { y with context := live.setAnswer 0 } := by
    rw [find?_answered, if_pos rfl]
    exact congrArg (Option.map _) hy
  refine ⟨_, _, htrap.trans (leave_running live hanswered hs hcpu), ?_⟩
  rw [find?_answered, if_neg hne]
  exact find?_update_self hset (lookup_spec hlsaved).1

end Kernel

/-- A step that rouses somebody breaks the coherence. -/
theorem Step.Rouses.breaks (h : l.Rouses k) (hcoh : k.envs.Coherent) (hrun : l.run k = .ok k') :
    ¬k'.envs.Coherent := by
  obtain ⟨caller, call, hcalls, hm⟩ := h
  cases hcalls with
  | @trapped c live y _ hr hs hcall =>
    cases call with
    | setStatus id status =>
      obtain ⟨rfl, e, hl, hb⟩ := hm
      cases hmode : live.mode with
      | kernel =>
        obtain ⟨p, hp⟩ := Kernel.trap_kernel (ε := Empty) (c := c) (k := k) hmode
        rw [Step.run, hp] at hrun
        cases hrun
      | user =>
        have he := (hcoh _ e (lookup_spec hl).1).status hb
        obtain ⟨ctx, k₁, hd, hf⟩ := Kernel.trap_rouse (ε := Empty) hmode hr hs hcall hl he
        rw [Step.run, hd] at hrun
        cases hrun
        intro hcoh'
        have hb' : Blocked { e with status := .runnable, cpu := none } := hb
        cases (hcoh' _ _ hf).status hb'
    | _ => exact hm.elim

theorem coherent_ofCapacity (slots : Nat) : (Env.Table.ofCapacity slots).Coherent := by
  intro id e hf
  cases (find?_ofCapacity slots id).symm.trans hf

theorem Kernel.boot_coherent {config : Config} {cycles : CycleCounter} {monitor : Monitor}
    (h : boot config cycles monitor = .ok k) : k.envs.Coherent :=
  (boot_establishes (fun _ _ _ ht hfree hcoh => coherent_occupy hcoh ht hfree) h (coherent_ofCapacity _)).2

inductive Kernel.Runs (k₀ : Kernel) : List (Kernel × Step) → Kernel → Prop
  | start : Runs k₀ [] k₀
  | step {trace : List (Kernel × Step)} {k k' : Kernel} {l : Step} : Runs k₀ trace k → l.run k = .ok k' →
      Runs k₀ ((k, l) :: trace) k'

section runs

variable {k₀ : Kernel} {trace : List (Kernel × Step)}

theorem Kernel.Runs.proper (hp : Proper n k₀.envs k₀.memory) (h : Runs k₀ trace k) : Proper n k.envs k.memory := by
  induction h with
  | start => exact hp
  | step _ hrun ih =>
    obtain ⟨k₁, hd, hl⟩ := Step.does ih hrun
    exact hl.proper (hd.proper ih)

/-- A run stays coherent exactly if no step rouses anybody. -/
theorem Kernel.Runs.coherent_iff (hp : Proper n k₀.envs k₀.memory) (h₀ : k₀.envs.Coherent) (h : Runs k₀ trace k) :
    (k.envs.Coherent ∧ ∀ p ∈ trace, p.1.envs.Coherent) ↔ ∀ p ∈ trace, ¬p.2.Rouses p.1 := by
  induction h with
  | start => exact iff_of_true ⟨h₀, fun p hp => by cases hp⟩ fun p hp => by cases hp
  | @step trace k k' l hold hrun ih =>
    have hp' := hold.proper hp
    constructor
    · intro ⟨hnow, hall⟩
      obtain ⟨hbefore, hrest⟩ := List.forall_mem_cons.mp hall
      exact List.forall_mem_cons.mpr ⟨fun hr => hr.breaks hbefore hrun hnow, ih.mp ⟨hbefore, hrest⟩⟩
    · intro hall
      obtain ⟨hr, hrest⟩ := List.forall_mem_cons.mp hall
      obtain ⟨hbefore, hbefores⟩ := ih.mpr hrest
      exact ⟨Step.coherent hp' hbefore hr hrun, List.forall_mem_cons.mpr ⟨hbefore, hbefores⟩⟩

theorem Kernel.Runs.follow {steps : List Step} (h : Runs k₀ trace k) (hs : steps.foldlM Step.run k = .ok k') :
    ∃ trace', Runs k₀ trace' k' ∧ ∀ p ∈ trace', p ∈ trace ∨ p.2 ∈ steps := by
  induction steps generalizing k trace with
  | nil =>
    cases hs
    exact ⟨trace, h, fun p hp => .inl hp⟩
  | cons l steps ih =>
    rw [List.foldlM_cons] at hs
    cases hrun : l.run k with
    | error p =>
      rw [hrun] at hs
      cases hs
    | ok k₁ =>
      rw [hrun] at hs
      obtain ⟨trace', hruns, hmem⟩ := ih (h.step hrun) hs
      refine ⟨trace', hruns, fun p hp => ?_⟩
      rcases hmem p hp with hp | hp
      · rcases List.mem_cons.mp hp with rfl | hp
        · exact .inr List.mem_cons_self
        · exact .inl hp
      · exact .inr (List.mem_cons_of_mem _ hp)

end runs

/-- What becomes of the message operation that `e` is blocked in, when `calls` are made. A fetch ends a send also when
it fails. -/
inductive Fate (t : Env.Table) (calls : Id → Call → Prop) (id : Id) (e : Env) (t' : Env.Table) : Prop
  | waits {e' : Env} : t'.find? id = some e' → e'.status = .notRunnable → e'.mailbox = e.mailbox →
      e'.outbox = e.outbox → Fate t calls id e t'
  | delivered {e' : Env} {caller target : Id} {call : Call} {msg : Message} : calls caller call →
      call.message? = some (target, msg) → t.lookup target (some caller) false = .ok e →
      e.mailbox.receiving = true → t'.find? id = some e' → e'.mailbox.receiving = false →
      e'.mailbox.sender = caller → e'.mailbox.value = msg.value → Fate t calls id e t'
  | fetched {e' : Env} {p : Parcel} {dstva : Word} : e.outbox = some p → calls p.target (.receiveQueued dstva) →
      t'.find? id = some e' → e'.outbox = none → Fate t calls id e t'
  | orphaned {e' x : Env} {p : Parcel} : e.outbox = some p → t.find? p.target = some x →
      t'.find? p.target = none → t'.find? id = some e' → e'.outbox = none → Fate t calls id e t'
  | destroyed : t'.find? id = none → Fate t calls id e t'

section fate

variable {calls : Id → Call → Prop} {act : Option (Id × Call)} {caller : Id} {t'' : Env.Table}

theorem Bystander.fate (h : Bystander act t t' e e') (hf : t'.find? id = some e') (hs : e.status = .notRunnable)
    (hact : ∀ caller call, act = some (caller, call) → calls caller call) : Fate t calls id e t' := by
  cases h with
  | left => exact .waits hf hs rfl rfl
  | delivered perm hcall hmsg hl hr => exact .delivered (hact _ _ hcall) hmsg hl hr hf rfl rfl rfl
  | woken answer ho ha =>
    rcases ha with ⟨dstva, hcall⟩ | ⟨⟨x, hx⟩, hgone⟩
    · exact .fetched ho (hact _ _ hcall) hf rfl
    · exact .orphaned ho hx hgone hf rfl

/-- What comes after an operation and does not touch the messages of `id` leaves its fate as it is. -/
theorem Fate.after (h : Fate t calls id e t') (ht : Touched t' t'')
    (hkeep : ∀ e', t'.find? id = some e' → ∃ e'', t''.find? id = some e'' ∧ e''.mailbox = e'.mailbox ∧
      e''.outbox = e'.outbox ∧ (e'.status = .notRunnable → e''.status = .notRunnable)) :
    Fate t calls id e t'' := by
  have hgone : ∀ j, t'.find? j = none → t''.find? j = none := by
    intro j hj
    cases hf : t''.find? j with
    | none => rfl
    | some y =>
      obtain ⟨x, hx, -⟩ := ht.find?_inv hf
      cases hj.symm.trans hx
  cases h with
  | waits hf hs hm ho =>
    obtain ⟨y, hy, hym, hyo, hys⟩ := hkeep _ hf
    exact .waits hy (hys hs) (hym.trans hm) (hyo.trans ho)
  | delivered hcall hmsg hl hr hf hm hsender hvalue =>
    obtain ⟨y, hy, hym, -⟩ := hkeep _ hf
    rw [← hym] at hm hsender hvalue
    exact .delivered hcall hmsg hl hr hy hm hsender hvalue
  | fetched ho hcall hf hout =>
    obtain ⟨y, hy, -, hyo, -⟩ := hkeep _ hf
    exact .fetched ho hcall hy (hyo.trans hout)
  | orphaned ho hx hnone hf hout =>
    obtain ⟨y, hy, -, hyo, -⟩ := hkeep _ hf
    exact .orphaned ho hx (hgone _ hnone) hy (hyo.trans hout)
  | destroyed hnone => exact .destroyed (hgone _ hnone)

theorem Fate.context {g : Env → Context} (h : Fate t calls id e t') :
    Fate t calls id e (t'.update caller fun y => { y with context := g y }) := by
  refine h.after touched_context fun e' he' => ?_
  by_cases hid : id = caller
  · subst hid
    exact ⟨_, find?_update_self Env.title_context he', rfl, rfl, fun h => h⟩
  · exact ⟨e', (find?_update_of_ne Env.title_context hid).trans he', rfl, rfl, fun h => h⟩

theorem Fate.passed (ht : k.envs.Sound) (hp : Passed c k exit k') (h : Fate t calls id e k.envs) :
    Fate t calls id e k'.envs := by
  refine h.after hp.touched fun e' he' => ?_
  obtain ⟨status, runs, cpu, hf, hs⟩ := hp.find? ht he'
  refine ⟨_, hf, rfl, rfl, fun hstatus => ?_⟩
  rcases hs with hs | ⟨hs, -⟩
  · exact hs.trans hstatus
  · rw [hstatus] at hs
    rcases hs with hs | hs
    · cases hs
    · cases hs

theorem Fate.of_saved (hid : e.id ≠ caller) (h : Fate (k.saved caller live).envs calls id e t') :
    Fate k.envs calls id e t' := by
  cases h with
  | waits hf hs hm ho => exact .waits hf hs hm ho
  | delivered hcall hmsg hl hr hf hm hsender hvalue =>
    obtain ⟨hname, hfe⟩ := lookup_unchecked.mp hl
    have hlook := lookup_unchecked.mpr ⟨hname, (Kernel.find?_saved_of_ne hid).symm.trans hfe⟩
    exact .delivered hcall hmsg hlook hr hf hm hsender hvalue
  | fetched ho hcall hf hout => exact .fetched ho hcall hf hout
  | orphaned ho hx hnone hf hout =>
    obtain ⟨y, hy, -⟩ := (touched_context (g := fun _ => live)).find?_inv hx
    exact .orphaned ho hy hnone hf hout
  | destroyed hnone => exact .destroyed hnone

theorem fate_released {d : Env} (hd : t.find? d.id = some d) (he : t.find? id = some e) (hne : id ≠ d.id)
    (hs : e.status = .notRunnable) : Fate t calls id e (t.released d.id d) := by
  obtain ⟨e', he', hb⟩ : ∃ e', (t.released d.id d).find? id = some e' ∧ Bystander none t (t.released d.id d) e e' :=
    bystander_released hd he hne
  exact hb.fate he' hs fun _ _ h => nomatch h

theorem Effect.fate {cpu : Cpu} {call : Call} {d : Env} (hp : Proper n t m) (h : Effect cpu caller t m call t' m')
    (hd : t.find? caller = some d) (he : t.find? id = some e) (hne : id ≠ caller) (hs : e.status = .notRunnable)
    (hb : Blocked e) (hr : ¬Rouses t caller call) (hnot : ∀ id, call ≠ .setStatus id .running)
    (hcall : calls caller call) : Fate t calls id e t' := by
  rcases h.bystander hp hd he hne with ⟨e', he', hby⟩ | ⟨-, hruled⟩
  · refine hby.fate he' hs fun _ _ hact => ?_
    cases hact
    exact hcall
  · generalize ho : t'.find? id = o at hruled
    cases hruled with
    | gone => exact .destroyed ho
    | marked _ helse => cases hs.symm.trans helse.1
    | @reset target status hset hl hlive _ =>
      subst hset
      cases status with
      | free => exact absurd (.inl rfl) hlive
      | dying => exact absurd (.inr rfl) hlive
      | running => exact absurd rfl (hnot target)
      | notRunnable => exact .waits ho rfl rfl rfl
      | runnable => exact absurd ⟨rfl, e, hl, hb⟩ hr
    | entered => exact .waits ho hs rfl rfl

theorem Handled.fate (hp : Proper n k.envs k.memory) (h : Handled c live k t' m')
    (hr : ¬(Step.trap c live).Rouses k) (he : k.envs.find? id = some e) (hs : e.status = .notRunnable)
    (hb : Blocked e) : Fate k.envs ((Demand.step (.trap c live)).Calls k) id e t' := by
  have hwaits : Fate k.envs ((Demand.step (.trap c live)).Calls k) id e k.envs := .waits he hs rfl rfl
  have hother : ∀ y, k.runningOn c = some y → y.status ≠ .notRunnable → id ≠ y.id := by
    rintro y hy hys rfl
    cases (Kernel.runningOn_spec hy).1.symm.trans he
    exact hys hs
  cases h with
  | vacant => exact hwaits
  | reclaimed hrun hdying =>
    exact fate_released (Kernel.runningOn_spec hrun).1 he (hother _ hrun (by rw [hdying]; decide)) hs
  | @served y _ _ hrun hrunning hserved =>
    have hne := hother y hrun (by rw [hrunning]; decide)
    have hf := (Kernel.runningOn_spec hrun).1
    have hsaved : (k.saved y.id live).envs.find? id = some e := (Kernel.find?_saved_of_ne hne).trans he
    have hys : (k.saved y.id live).envs.find? y.id = some { y with context := live } := Kernel.find?_saved hf
    have hid : e.id ≠ y.id := fun h => hne ((id_of_find? he).symm.trans h)
    have hstill : Fate (k.saved y.id live).envs ((Demand.step (.trap c live)).Calls k) id e (k.saved y.id live).envs :=
      .waits hsaved hs rfl rfl
    suffices hfate : Fate (k.saved y.id live).envs ((Demand.step (.trap c live)).Calls k) id e t' from
      hfate.of_saved hid
    cases hserved with
    | ticked => exact hstill
    | answered => exact hstill.context
    | upcalled => exact hstill.context
    | killed => exact fate_released (d := { y with context := live }) hys hsaved hne hs
    | called g hcall heff =>
      have hdecode := (Kernel.handle_call (ε := Empty) (c := c) (e := y) hcall).2.1
      have hcalls := Demand.Calls.trapped hrun hrunning hcall
      refine (heff.fate (hp.touched touched_context) hys hsaved hne hs hb (fun hrouse => hr ?_) (decode_ne hdecode)
        hcalls).context
      exact ⟨y.id, _, hcalls, (Kernel.rouses_saved _).mp hrouse⟩

/-- In a step that rouses nobody a blocked message operation goes on, or ends in one of the listed ways. -/
theorem Step.fate (hp : Proper n k.envs k.memory) (hcoh : k.envs.Coherent) (hr : ¬l.Rouses k)
    (hrun : l.run k = .ok k') (he : k.envs.find? id = some e) (hb : Blocked e) :
    Fate k.envs ((Demand.step l).Calls k) id e k'.envs := by
  have hs := (hcoh id e he).status hb
  obtain ⟨k₁, hd, k₂, ⟨hsame, -⟩, hl⟩ := l.does hp hrun
  have hfate : Fate k.envs ((Demand.step l).Calls k) id e k₁.envs := by
    have hwaits : Fate k.envs ((Demand.step l).Calls k) id e k.envs := .waits he hs rfl rfl
    generalize k₁.envs = t, k₁.memory = m at hd
    cases hd with
    | still => exact hwaits
    | armed => exact hwaits
    | trapped hd => exact hd.fate hp hr he hs hb
    | created hfree _ =>
      refine .waits (show Env.Table.find? _ id = some e from ?_) hs rfl rfl
      rw [find?_occupy hp.intact.table hfree, if_neg, he]
      rintro rfl
      rw [find?_occupy_fresh hp.intact.table hfree] at he
      cases he
    | loaded => exact hwaits
    | entered => exact hwaits.context
  have ht := (hd.proper hp).intact.table
  rw [← hsame] at hfate ht
  rcases hl with rfl | ⟨c, exit, hpass⟩
  · exact hfate
  · exact hfate.passed ht hpass

end fate

/-- In a run from boot every blocked environment is kept from running, and blocked in one operation only, exactly if
no step makes a blocked child runnable. Until then, a blocked operation ends by a delivery, by a fetch, with the death
of its target, or with its own environment. -/
theorem Kernel.coherent_throughout {config : Config} {cycles : CycleCounter} {monitor : Monitor} {k₀ : Kernel}
    {trace : List (Kernel × Step)} (hk : boot config cycles monitor = .ok k₀) (h : Runs k₀ trace k) :
    ((k.envs.Coherent ∧ ∀ p ∈ trace, p.1.envs.Coherent) ↔ ∀ p ∈ trace, ¬p.2.Rouses p.1) ∧
      ((∀ p ∈ trace, ¬p.2.Rouses p.1) → ∀ (l : Step) k' id e, l.run k = .ok k' → ¬l.Rouses k →
        k.envs.find? id = some e → Blocked e → Fate k.envs ((Demand.step l).Calls k) id e k'.envs) := by
  have hp₀ := boot_proper hk
  have hiff := h.coherent_iff hp₀ (boot_coherent hk)
  exact ⟨hiff, fun hall l k' id e hrun hr he hb => Step.fate (h.proper hp₀) (hiff.mpr hall).1 hr hrun he hb⟩

theorem Step.not_rouses_of_call {call : Call} (hcall : live.call? = some call)
    (h : ∀ id, call ≠ .setStatus id .runnable) : ¬(Step.trap c live).Rouses k := by
  rintro ⟨caller, call', hcalls, hm⟩
  cases hcalls with
  | trapped _ _ hcall' =>
    cases hcall.symm.trans hcall'
    cases call with
    | setStatus id status => exact h id (congrArg (Call.setStatus id) hm.1)
    | _ => exact hm

namespace Kernel

def followed (steps : List Step) (k : Kernel) : Kernel := (steps.foldlM Step.run k).toOption.getD k

theorem foldlM_followed {steps : List Step} (h : (steps.foldlM Step.run k).isOk = true) :
    steps.foldlM Step.run k = .ok (k.followed steps) := by
  unfold followed
  cases hr : steps.foldlM Step.run k with
  | ok k => rfl
  | error p =>
    rw [hr] at h
    cases h

def childReceives : List Step :=
  [.create .user, .start ⟨0⟩ {}, .trap ⟨0⟩ (.making .fork), .trap ⟨0⟩ (.making (.setStatus ⟨0x402⟩ .runnable)),
    .trap ⟨0⟩ (.making .yield), .trap ⟨0⟩ (.making .receiveAny)]

def rousing : Step := .trap ⟨0⟩ (.making (.setStatus ⟨0x402⟩ .runnable))

theorem rouses_rousing : rousing.Rouses (pairBooted.followed childReceives) := by
  have hcall : (Context.making (.setStatus ⟨0x402⟩ .runnable)).call? = some (.setStatus ⟨0x402⟩ .runnable) := by decide
  have hrun : ((pairBooted.followed childReceives).runningOn ⟨0⟩).map (fun e => (e.id, e.status)) =
      some (⟨0x401⟩, .running) := by decide +kernel
  have hlook : ((pairBooted.followed childReceives).envs.lookup ⟨0x402⟩ (some ⟨0x401⟩) true).toOption.map
      (fun e => e.mailbox.receiving) = some true := by decide +kernel
  obtain ⟨y, hy, hid⟩ := Option.map_eq_some_iff.mp hrun
  obtain ⟨hyid, hys⟩ := Prod.mk.inj hid
  cases hl : (pairBooted.followed childReceives).envs.lookup ⟨0x402⟩ (some ⟨0x401⟩) true with
  | error cause =>
    rw [hl] at hlook
    cases hlook
  | ok e =>
    rw [hl] at hlook
    exact ⟨y.id, _, .trapped hy hys hcall, rfl, e, hyid.symm ▸ hl, .inl (Option.some.inj hlook)⟩

def firstReceives : List Step := [.create .user, .create .user, .start ⟨0⟩ {}, .trap ⟨0⟩ (.making .receiveAny)]

def sending : Step := .trap ⟨0⟩ (.making (.trySend ⟨0x401⟩ ⟨7, UInt64.ofNat utop, .empty⟩))

theorem not_rouses_firstReceives (hl : l ∈ firstReceives) : ¬l.Rouses k := by
  rcases List.mem_cons.mp hl with rfl | hl
  · rintro ⟨_, _, hcalls, -⟩
    cases hcalls
  rcases List.mem_cons.mp hl with rfl | hl
  · rintro ⟨_, _, hcalls, -⟩
    cases hcalls
  rcases List.mem_cons.mp hl with rfl | hl
  · rintro ⟨_, _, hcalls, -⟩
    cases hcalls
  cases List.mem_singleton.mp hl
  exact Step.not_rouses_of_call call?_receiveAny fun _ h => nomatch h

/-- A run that a rousing call breaks, and one in which a receiver waits until it gets a message. -/
theorem coherent_throughout_rousing : boot pairConfig {} {} = .ok pairBooted ∧
    (∃ k' trace, Runs pairBooted ((pairBooted.followed childReceives, rousing) :: trace) k' ∧
      ¬(k'.envs.Coherent ∧ ∀ p ∈ (pairBooted.followed childReceives, rousing) :: trace, p.1.envs.Coherent) ∧
      ∃ e, k'.envs.find? ⟨0x402⟩ = some e ∧ e.status = .runnable ∧ e.mailbox.receiving = true) ∧
    ∃ k k' e, (∃ trace, Runs pairBooted trace k) ∧ k.envs.Coherent ∧ sending.run k = .ok k' ∧
      k.envs.find? ⟨0x401⟩ = some e ∧ Blocked e ∧
      Fate k.envs ((Demand.step sending).Calls k) ⟨0x401⟩ e k'.envs := by
  have hboot : boot pairConfig {} {} = .ok pairBooted := by decide +kernel
  refine ⟨hboot, ?_, ?_⟩
  · have hreach : childReceives.foldlM Step.run pairBooted = .ok (pairBooted.followed childReceives) :=
      foldlM_followed (by decide +kernel)
    obtain ⟨trace, hruns, -⟩ := Runs.start.follow hreach
    have hnext : rousing.run (pairBooted.followed childReceives) =
        .ok ((Demand.step rousing).next (pairBooted.followed childReceives)) :=
      Demand.run_next (r := .step rousing) (by decide +kernel)
    have hall := hruns.step hnext
    have hafter : (((Demand.step rousing).next (pairBooted.followed childReceives)).envs.find? ⟨0x402⟩).map
        (fun e => (e.status, e.mailbox.receiving)) = some (.runnable, true) := by decide +kernel
    obtain ⟨e, he, hstate⟩ := Option.map_eq_some_iff.mp hafter
    obtain ⟨hstatus, hrecv⟩ := Prod.mk.inj hstate
    refine ⟨_, trace, hall, fun hcoh => ?_, e, he, hstatus, hrecv⟩
    exact (coherent_throughout hboot hall).1.mp hcoh _ List.mem_cons_self rouses_rousing
  · have hreach : firstReceives.foldlM Step.run pairBooted = .ok (pairBooted.followed firstReceives) :=
      foldlM_followed (by decide +kernel)
    obtain ⟨trace, hruns, hmem⟩ := Runs.start.follow hreach
    have hcalm : ∀ p ∈ trace, ¬p.2.Rouses p.1 := fun p hp =>
      not_rouses_firstReceives ((hmem p hp).resolve_left List.not_mem_nil)
    have hnext : sending.run (pairBooted.followed firstReceives) =
        .ok ((Demand.step sending).next (pairBooted.followed firstReceives)) :=
      Demand.run_next (r := .step sending) (by decide +kernel)
    have hbefore : ((pairBooted.followed firstReceives).envs.find? ⟨0x401⟩).map (fun e => e.mailbox.receiving) =
        some true := by decide +kernel
    obtain ⟨e, he, hrecv⟩ := Option.map_eq_some_iff.mp hbefore
    have hcall : (Context.making (.trySend ⟨0x401⟩ ⟨7, UInt64.ofNat utop, .empty⟩)).call? =
        some (.trySend ⟨0x401⟩ ⟨7, UInt64.ofNat utop, .empty⟩) := by decide
    have hsending : ¬sending.Rouses (pairBooted.followed firstReceives) :=
      Step.not_rouses_of_call hcall fun _ h => nomatch h
    have hthroughout := coherent_throughout hboot hruns
    exact ⟨_, _, e, ⟨trace, hruns⟩, (hthroughout.1.mpr hcalm).1, hnext, he, .inl hrecv,
      hthroughout.2 hcalm sending _ _ e hnext hsending he (.inl hrecv)⟩

end Kernel

end Exokernel
