import Exokernel.Proofs.System.Coherence
import Exokernel.Proofs.System.Moves

/-!
# Preemption is transparent

Saved contexts are written for those who trap, who call and whom the loader sets up; for the others nothing is written
but the answer to a send whose message is taken. An environment that loses its CPU in a timer trap, with no message
waiting, therefore finds its registers as they were when some CPU resumes it.
-/

set_option autoImplicit false

namespace Exokernel

open Env (Id Kind Status Parcel)
open Env.Table

def Step.exit? (k : Kernel) : Step → Option (Exit × Context)
  | .start c live => ((Kernel.startCpu c live k : Outcome Kernel Empty (Exit × Context)).result?).map Prod.fst
  | .trap c live => ((Kernel.trap c live k : Outcome Kernel Empty (Exit × Context)).result?).map Prod.fst
  | _ => none

namespace Demand

/-- Some CPU goes into `id` by the demand, with these registers. -/
def Resumes (k : Kernel) (r : Demand) (id : Id) (loaded : Context) : Prop :=
  ∃ l, r = .step l ∧ l.exit? k = some (.resume id, loaded)

def ActsFor (id : Id) : Demand → Prop
  | .step (.entry j _ _) => j = id
  | .call _ _ caller _ _ => caller = id
  | _ => False

inductive Writes (k : Kernel) : Demand → Id → Prop
  | trap {c : Cpu} {live : Context} {e : Env} : k.runningOn c = some e → Writes k (.step (.trap c live)) e.id
  | acts {r : Demand} {id : Id} : r.ActsFor id → Writes k r id

end Demand

inductive LeftAlone (e e' : Env) : Prop
  | kept : e'.context = e.context → e'.outbox = e.outbox → e'.cpu = e.cpu ∨ e'.cpu = none → LeftAlone e e'
  | answered {p : Parcel} {answer : Word} : e.outbox = some p → e'.outbox = none →
      e'.context = e.context.setAnswer answer → LeftAlone e e'

variable {n : Nat} {act : Option (Id × Call)} {c cpu : Cpu} {caller id j : Id} {call : Call} {live loaded F : Context}
  {exit : Exit} {k k' k₀ k₁ : Kernel} {r : Demand} {l : Step} {e e' y : Env} {t t' : Env.Table} {m m' : Memory}

theorem LeftAlone.refl (e : Env) : LeftAlone e e := .kept rfl rfl (.inl rfl)

theorem Bystander.leftAlone (h : Bystander act t t' e e') : LeftAlone e e' := by
  cases h with
  | left => exact .kept rfl rfl (.inl rfl)
  | delivered => exact .kept rfl rfl (.inl rfl)
  | woken answer ho => exact .answered ho rfl rfl

theorem leftAlone_reset (status : Status) (e : Env) :
    LeftAlone e { e with status, cpu := if status = .running then e.cpu else none } := by
  refine .kept rfl rfl ?_
  by_cases hs : status = .running
  · exact .inl (if_pos hs)
  · exact .inr (if_neg hs)

theorem Ruled.leftAlone (h : Ruled cpu caller call t e (some e')) : LeftAlone e e' := by
  cases h with
  | marked => exact .kept rfl rfl (.inl rfl)
  | reset => exact leftAlone_reset _ e
  | entered => exact .kept rfl rfl (.inl rfl)

section demand

theorem leftAlone_released (hy : t.find? j = some y) (he : t.find? id = some e)
    (he' : (t.released j y).find? id = some e') : LeftAlone e e' := by
  obtain ⟨x, hx, hb⟩ : ∃ x, t.find? id = some x ∧ Bystander none t (t.released j y) x e' :=
    bystander_of_released hy he'
  obtain rfl := find?_unique hx he
  exact hb.leftAlone

theorem Effect.leftAlone (hp : Proper n t m) (hy : t.find? caller = some y) (h : Effect cpu caller t m call t' m')
    (he : t.find? id = some e) (hne : id ≠ caller) (he' : t'.find? id = some e') : LeftAlone e e' := by
  rcases h.bystander hp hy he hne with ⟨x, hx, hb⟩ | ⟨-, hruled⟩
  · obtain rfl := find?_unique hx he'
    exact hb.leftAlone
  · rw [he'] at hruled
    exact hruled.leftAlone

theorem Served.leftAlone (hp : Proper n t m) (hy : t.find? y.id = some y) (h : Served c y t m t' m')
    (he : t.find? id = some e) (hne : id ≠ y.id) (he' : t'.find? id = some e') : LeftAlone e e' := by
  have hsame : t.find? id = some e' → LeftAlone e e' := fun h => find?_unique he h ▸ .refl e
  cases h with
  | ticked => exact hsame he'
  | answered => exact hsame ((find?_update_of_ne Env.title_context hne).symm.trans he')
  | upcalled => exact hsame ((find?_update_of_ne Env.title_context hne).symm.trans he')
  | killed => exact leftAlone_released hy he he'
  | called g _ heff => exact heff.leftAlone hp hy he hne ((find?_update_of_ne Env.title_context hne).symm.trans he')

theorem Handled.leftAlone (hp : Proper n k.envs k.memory) (h : Handled c live k t' m') (he : k.envs.find? id = some e)
    (hne : ∀ y, k.runningOn c = some y → id ≠ y.id) (he' : t'.find? id = some e') : LeftAlone e e' := by
  cases h with
  | vacant => exact find?_unique he he' ▸ .refl e
  | reclaimed hr => exact leftAlone_released (Kernel.runningOn_spec hr).1 he he'
  | @served y _ _ hr _ hserved =>
    have hp' : Proper n (k.saved y.id live).envs k.memory := hp.touched touched_context
    have hy : (k.saved y.id live).envs.find? y.id = some { y with context := live } :=
      Kernel.find?_saved (Kernel.runningOn_spec hr).1
    exact hserved.leftAlone hp' hy ((Kernel.find?_saved_of_ne (hne y hr)).trans he) (hne y hr) he'

theorem Upshot.leftAlone (hp : Proper n k.envs k.memory) (ha : r.Allowed k) (h : Upshot k r t' m')
    (he : k.envs.find? id = some e) (hne : ¬r.Writes k id) (he' : t'.find? id = some e') : LeftAlone e e' := by
  have hsame : k.envs.find? id = some e' → LeftAlone e e' := fun h => find?_unique he h ▸ .refl e
  cases h with
  | still => exact hsame he'
  | armed => exact hsame he'
  | trapped hd =>
    refine hd.leftAlone hp he (fun y hy hid => ?_) he'
    subst hid
    exact hne (.trap hy)
  | @created kind index space _ hfree _ =>
    rw [find?_occupy hp.intact.table hfree, if_neg] at he'
    · exact hsame he'
    · rintro rfl
      rw [find?_occupy_fresh hp.intact.table hfree] at he
      cases he
  | loaded => exact hsame he'
  | @entered j _ _ =>
    have hj : id ≠ j := by
      rintro rfl
      exact hne (.acts rfl)
    exact hsame ((find?_update_of_ne Env.title_context hj).symm.trans he')
  | freed hf => exact leftAlone_released hf he he'
  | @reset j status hs =>
    have htitle : ∀ y : Env, y.isFree = false →
        ({ y with status, cpu := if status = .running then y.cpu else none } : Env).title = y.title :=
      fun _ hf => Env.title_of_live rfl rfl rfl hs hf
    rw [find?_update htitle] at he'
    split at he'
    · next hj =>
      rw [← hj, he] at he'
      cases he'
      exact leftAlone_reset status e
    · exact hsame he'
  | stored => exact hsame he'
  | @called table cpu caller number a _ _ _ _ heff =>
    obtain ⟨y, hy⟩ := ha
    have hj : id ≠ caller := by
      rintro rfl
      exact hne (.acts rfl)
    exact heff.leftAlone hp hy he hj he'

theorem Kernel.Leaves.context (ht : k.envs.Sound) (h : k.Leaves k') (he : k.envs.find? id = some e)
    (he' : k'.envs.find? id = some e') : e'.context = e.context ∧ e'.outbox = e.outbox := by
  obtain ⟨k₁, ⟨hsame, -⟩, h⟩ := h
  rw [← hsame] at ht he
  rcases h with rfl | ⟨c, exit, h⟩
  · obtain rfl := find?_unique he he'
    exact ⟨rfl, rfl⟩
  · obtain ⟨status, runs, cpu, hf, -⟩ := h.find? ht he
    obtain rfl := find?_unique hf he'
    exact ⟨rfl, rfl⟩

theorem Demand.context_kept (hp : Proper n k.envs k.memory) (ha : r.Allowed k) (hr : r.run k = .ok k')
    (he : k.envs.find? id = some e) (hne : ¬r.Writes k id) (he' : k'.envs.find? id = some e') :
    e'.context = e.context ∨
      ∃ p answer, e.outbox = some p ∧ e'.outbox = none ∧ e'.context = e.context.setAnswer answer := by
  obtain ⟨k₁, hd, hl⟩ := r.does hp ha hr
  obtain ⟨x, hx, -⟩ := hl.touched.find?_inv he'
  obtain ⟨hctx, hout⟩ := hl.context (hd.proper hp).intact.table hx he'
  rw [hctx, hout]
  cases hd.leftAlone hp ha he hne hx with
  | kept hc _ _ => exact .inl hc
  | answered ho hnone hc => exact .inr ⟨_, _, ho, hnone, hc⟩

end demand

section exits

namespace Kernel

theorem contextOf_of_find? (h : k.envs.find? id = some e) : k.contextOf id = some e.context := by
  rw [contextOf, h]
  rfl

inductive Lands (live : Context) : Exit × Context → Kernel → Prop
  | resumed {id : Env.Id} {e : Env} {k : Kernel} : k.envs.find? id = some e → Lands live (.resume id, e.context) k
  | parked {k : Kernel} : Lands live (.monitor, live) k

def Loads (r : Exit × Context) (k : Kernel) : Prop := ∀ id, r.1 = .resume id → k.contextOf id = some r.2

theorem Lands.loads {r : Exit × Context} (h : Lands live r k) : Loads r k := by
  cases h with
  | resumed he =>
    intro j hj
    cases hj
    exact contextOf_of_find? he
  | parked => exact fun id h => by cases h

theorem lands_after {α : Type} {x : Action Kernel Empty α} {f : α → Action Kernel Empty (Exit × Context)}
    (hf : ∀ a k, (f a k).Meets (Lands live) (fun _ _ => False) fun _ => True) (k : Kernel) :
    ((x >>= f) k).Meets (Lands live) (fun _ _ => False) fun _ => True :=
  Action.meets_bind ((x k).meets_self.mono (fun _ _ _ => trivial) (fun cause => cause.elim) fun _ _ => trivial)
    fun a k _ => hf a k

theorem reschedule_lands (live : Context) (k : Kernel) : (reschedule c live k :
    Outcome Kernel Empty (Exit × Context)).Meets (Lands live) (fun _ _ => False) fun _ => True := by
  refine lands_after (fun d k => ?_) k
  cases d with
  | monitor => exact .parked
  | run id =>
    simp only [Action.state_bind]
    cases he : k.envs.find? id with
    | none => exact trivial
    | some e => exact .resumed he

theorem resumeSame_lands (live : Context) (k : Kernel) : (resumeSame c id live k :
    Outcome Kernel Empty (Exit × Context)).Meets (Lands live) (fun _ _ => False) fun _ => True := by
  rw [resumeSame, Action.state_bind]
  cases he : k.envs.find? id with
  | none => exact reschedule_lands live k
  | some e =>
    simp only
    split
    · exact .resumed he
    · split
      · exact trivial
      · exact trivial

theorem leave_lands (again : Bool) (live : Context) (k : Kernel) : (leave c id live again k :
    Outcome Kernel Empty (Exit × Context)).Meets (Lands live) (fun _ _ => False) fun _ => True := by
  have hgo : ∀ k, ((if again then reschedule c live else resumeSame c id live : Action Kernel Empty _) k).Meets
      (Lands live) (fun _ _ => False) fun _ => True := by
    intro k
    split
    · exact reschedule_lands live k
    · exact resumeSame_lands live k
  rw [leave, Action.state_bind]
  by_cases hgone : (k.envs.find? id).isNone = true
  · simp only [if_pos hgone]
    exact lands_after (fun _ k => hgo k) k
  · simp only [if_neg hgone]
    exact hgo k

theorem trap_lands (c : Cpu) (live : Context) (k : Kernel) : (trap c live k :
    Outcome Kernel Empty (Exit × Context)).Meets (Lands live) (fun _ _ => False) fun _ => True := by
  cases hmode : live.mode with
  | kernel =>
    obtain ⟨p, hp⟩ := trap_kernel (ε := Empty) (c := c) (k := k) hmode
    rw [hp]
    exact trivial
  | user =>
    cases hr : k.runningOn c with
    | none =>
      by_cases ht : live.number = Trap.timer
      · rw [trap_timer hmode hr ht]
        exact reschedule_lands live _
      · rw [trap_stray hmode hr ht]
        exact trivial
    | some e =>
      by_cases hs : e.status = .dying
      · rw [trap_dying hmode hr hs]
        exact lands_after (fun _ k => reschedule_lands live k) _
      · rw [trap_running hmode hr hs]
        exact lands_after (fun again k => leave_lands again live k) _

theorem startCpu_lands (c : Cpu) (live : Context) (k : Kernel) : (startCpu c live k :
    Outcome Kernel Empty (Exit × Context)).Meets (Lands live) (fun _ _ => False) fun _ => True := by
  rw [startCpu, Action.state_bind]
  by_cases hc : k.cpuCount ≤ c.index
  · simp only [if_pos hc]
    exact trivial
  · simp only [if_neg hc]
    cases k.online.mark c with
    | none => exact trivial
    | some marked =>
      simp only [Action.modify_bind]
      split
      · simp only [record_bind]
        exact reschedule_lands live _
      · simp only [record_bind]
        exact reschedule_lands live _

theorem trap_loads (c : Cpu) (live : Context) (k : Kernel) :
    (trap c live k : Outcome Kernel Empty (Exit × Context)).Meets Loads (fun _ _ => False) fun _ => True :=
  (trap_lands c live k).mono (fun _ _ h => h.loads) (fun _ _ h => h) fun _ h => h

theorem startCpu_loads (c : Cpu) (live : Context) (k : Kernel) :
    (startCpu c live k : Outcome Kernel Empty (Exit × Context)).Meets Loads (fun _ _ => False) fun _ => True :=
  (startCpu_lands c live k).mono (fun _ _ h => h.loads) (fun _ _ h => h) fun _ h => h

end Kernel

def Step.Exits (k : Kernel) (l : Step) (k' : Kernel) : Prop :=
  ∃ o, l.Moves k o k' ∧ (l.exit? k).map Prod.fst = o.map Prod.snd ∧
    ∀ id loaded, l.exit? k = some (.resume id, loaded) → k'.contextOf id = some loaded

theorem Step.exits_of_entered {o : Outcome Kernel Empty (Exit × Context)} {R : Empty → Kernel → Prop}
    {H : Panic → Prop} (hm : o.Meets (fun r k' => l.Moves k (some (c, r.1)) k' ∧ Kernel.Loads r k') R H)
    (ho : o.after = .ok k') (hx : l.exit? k = o.result?.map Prod.fst) : l.Exits k k' := by
  cases o with
  | done r k₁ =>
    cases ho
    refine ⟨_, hm.1, by rw [hx]; rfl, fun id loaded h => ?_⟩
    rw [hx] at h
    cases h
    exact hm.2 id rfl
  | refused cause _ => exact cause.elim
  | halted p => cases ho

theorem Step.exits_of_loader (hp : Proper n k.envs k.memory) (hr : l.run k = .ok k') (hl : l.cpu? = none)
    (hx : l.exit? k = none) : l.Exits k k' := by
  obtain ⟨o, hm⟩ := Step.moves hp hr
  have ho := hm.cpu?
  rw [hl] at ho
  obtain rfl := Option.map_eq_none_iff.mp ho.symm
  refine ⟨_, hm, by rw [hx]; rfl, fun id loaded h => ?_⟩
  rw [hx] at h
  cases h

theorem Step.exits (hp : Proper n k.envs k.memory) (hr : l.run k = .ok k') : l.Exits k k' := by
  cases l with
  | start c live =>
    exact exits_of_entered ((Kernel.startCpu_moves c live k).and (Kernel.startCpu_loads c live k)) hr rfl
  | trap c live => exact exits_of_entered ((Kernel.trap_moves c live hp).and (Kernel.trap_loads c live k)) hr rfl
  | create kind => exact exits_of_loader hp hr rfl rfl
  | load id va flags => exact exits_of_loader hp hr rfl rfl
  | entry id ip sp => exact exits_of_loader hp hr rfl rfl

end exits

structure Env.Preempted (F : Context) (e : Env) : Prop where
  context : e.context = F
  outbox : e.outbox = none
  cpu : e.cpu = none

section preempted

theorem Env.Preempted.leftAlone (h : e.Preempted F) (ha : LeftAlone e e') : e'.Preempted F := by
  cases ha with
  | kept hc ho hcpu =>
    exact ⟨hc.trans h.context, ho.trans h.outbox, hcpu.elim (fun hcpu => hcpu.trans h.cpu) fun hcpu => hcpu⟩
  | answered ho _ _ => cases ho.symm.trans h.outbox

theorem Env.Preempted.demoted (h : e.Preempted F) : (Kernel.demoted e).Preempted F := by
  unfold Kernel.demoted
  split
  · exact ⟨h.context, h.outbox, rfl⟩
  · exact h

/-- A timer trap saves the registers and passes the CPU on. -/
theorem Kernel.passed_of_timer (hr : k.runningOn c = some e) (hs : e.status = .running) (ht : F.number = Trap.timer)
    (hd : (trap c F k : Outcome Kernel Empty (Exit × Context)) = .done (exit, loaded) k') :
    Passed c (k.saved e.id F) exit k' := by
  cases hmode : F.mode with
  | kernel =>
    obtain ⟨p, hp⟩ := trap_kernel (ε := Empty) (c := c) (k := k) hmode
    cases hp.symm.trans hd
  | user =>
    have hthere : ¬((k.saved e.id F).envs.find? e.id).isNone = true := by simp [find?_saved (runningOn_spec hr).1]
    rw [trap_running hmode hr (by rw [hs]; decide), Action.bind_done (handle_timer ht), leave, Action.state_bind] at hd
    simp only [if_neg hthere, if_true] at hd
    obtain ⟨d, hx, hpass⟩ := (reschedule_effect F).of_done hd
    have hexit : exit = d.exit := hx
    rw [hexit]
    exact passed_of_schedule hpass

theorem Passed.preempted (hp : Proper n k.envs k.memory) (hr : k.runningOn c = some e) (hs : e.status = .running)
    (ho : e.outbox = none) (h : Passed c (k.saved e.id F) exit k') (hexit : exit ≠ .resume e.id) :
    ∃ e', k'.envs.find? e.id = some e' ∧ e'.Preempted F := by
  obtain ⟨hf, hlast, -, -⟩ := Kernel.runningOn_spec hr
  have hcur : (k.saved e.id F).currentOf c = some e.id := hlast
  refine ⟨Kernel.demoted { e with context := F }, ?_, ?_⟩
  · rw [h.find?_other (hp.touched touched_context).intact.table hexit, Kernel.find?_saved hf, Option.map_some,
      if_pos hcur]
  · rw [Kernel.demoted, if_pos hs]
    exact ⟨rfl, ho, rfl⟩

/-- A step leaves a preempted environment alone until some CPU goes into it, with its registers. -/
theorem Step.preempted (hp : Proper n k.envs k.memory) (hr : l.run k = .ok k') (he : k.envs.find? id = some e)
    (h : e.Preempted F) (hne : ¬(Demand.step l).Writes k id) (he' : k'.envs.find? id = some e') :
    e'.context = F ∧ ((∀ loaded, l.exit? k ≠ some (.resume id, loaded)) → e'.Preempted F) := by
  obtain ⟨o, hm, hexit, -⟩ := Step.exits hp hr
  have hallowed : (Demand.step l).Allowed k := trivial
  have halone : ∀ {t m x}, Upshot k (.step l) t m → t.find? id = some x → x.Preempted F := fun hu hx =>
    h.leftAlone (hu.leftAlone hp hallowed he hne hx)
  cases hm with
  | worked _ hu _ =>
    have hx := halone hu he'
    exact ⟨hx.context, fun _ => hx⟩
  | stayed hy hs hd _ _ _ =>
    have hx := halone (Kernel.upshot_of_handle hp hy hs hd) he'
    exact ⟨hx.context, fun _ => hx⟩
  | @passed c _ d k₁ _ ha hd =>
    have hu := ha.upshot hp
    have hpass := Kernel.passed_of_schedule hd
    have ht := (hu.proper hp).intact.table
    obtain ⟨x, hx, -⟩ := hpass.touched.find?_inv he'
    have hpre := halone hu hx
    obtain ⟨status, runs, cpu, hf, -⟩ := hpass.find? ht hx
    obtain rfl := find?_unique hf he'
    refine ⟨hpre.context, fun hno => ?_⟩
    have hid : d.exit ≠ .resume id := by
      intro hid
      obtain ⟨⟨exit, loaded⟩, hx, rfl⟩ := Option.map_eq_some_iff.mp hexit
      exact hno loaded (hid ▸ hx)
    have hother := hpass.find?_other ht hid
    rw [hf, hx, Option.map_some] at hother
    rw [Option.some.inj hother]
    split
    · exact hpre.demoted
    · exact hpre

theorem Env.Preempted.not_writes (h : e.Preempted F) (he : k.envs.find? id = some e) (hr : ¬r.ActsFor id) :
    ¬r.Writes k id := by
  intro hw
  cases hw with
  | trap hrun =>
    obtain ⟨hf, -, -, hcpu⟩ := Kernel.runningOn_spec hrun
    obtain rfl := find?_unique hf he
    cases hcpu.symm.trans h.cpu
  | acts ha => exact hr ha

theorem Demand.preempted (hp : Proper n k.envs k.memory) (ha : r.Allowed k) (hr : r.run k = .ok k')
    (he : k.envs.find? id = some e) (h : e.Preempted F) (hacts : ¬r.ActsFor id)
    (hno : ∀ loaded, ¬r.Resumes k id loaded) (he' : k'.envs.find? id = some e') : e'.Preempted F := by
  have hne := h.not_writes he hacts
  by_cases hstep : ∃ l, r = .step l
  · obtain ⟨l, rfl⟩ := hstep
    exact (Step.preempted hp hr he h hne he').2 fun loaded hx => hno loaded ⟨l, rfl, hx⟩
  · have hu := Demand.upshot hp ha hr fun l hl => hstep ⟨l, hl⟩
    exact h.leftAlone (hu.leftAlone hp ha he hne he')

def Waits (id : Id) (past : List (Kernel × Demand)) : Prop :=
  ∀ x ∈ past, (∃ e, x.1.envs.find? id = some e) ∧ ¬x.2.ActsFor id

/-- Until it is resumed a preempted environment stays preempted. -/
theorem Kernel.History.preempted {past : List (Kernel × Demand)} (hp : Proper n k₀.envs k₀.memory)
    (h : History k₀ past k) (he : k₀.envs.find? id = some e) (hpre : e.Preempted F) (hw : Waits id past)
    (hno : ∀ x ∈ past, ∀ loaded, ¬x.2.Resumes x.1 id loaded) (he' : k.envs.find? id = some e') : e'.Preempted F := by
  induction h generalizing e' with
  | start =>
    obtain rfl := find?_unique he he'
    exact hpre
  | demand hpast ha hr ih =>
    obtain ⟨⟨⟨x, hx⟩, hacts⟩, hw'⟩ := List.forall_mem_cons.mp hw
    obtain ⟨hnow, hno'⟩ := List.forall_mem_cons.mp hno
    exact Demand.preempted (hpast.proper hp) ha hr hx (ih hw' hno' hx) hacts hnow he'

end preempted

/-- A trap writes the saved context of nobody but the last environment of its CPU, except that it answers the senders
whose messages it takes. An environment that is interrupted by a timer trap, with no message waiting, goes on with the
same registers, in that trap or whenever some CPU goes into it first, whatever the others did in between. -/
theorem preemption_transparent (hk : k.Reachable) :
    (∀ c live x k', (Kernel.trap c live k : Outcome Kernel Empty (Exit × Context)) = .done x k' →
      ∀ id e e', k.envs.find? id = some e → k'.envs.find? id = some e' → k.currentOf c ≠ some id →
        e'.context = e.context ∨
          ∃ p answer, e.outbox = some p ∧ e'.outbox = none ∧ e'.context = e.context.setAnswer answer) ∧
    ∀ c e F exit loaded k₁, k.runningOn c = some e → e.status = .running → e.outbox = none → F.number = Trap.timer →
      (Kernel.trap c F k : Outcome Kernel Empty (Exit × Context)) = .done (exit, loaded) k₁ →
        (exit = .resume e.id → loaded = F) ∧
        (exit ≠ .resume e.id → ∀ past k₂ r k₃ loaded', k₁.History ((k₂, r) :: past) k₃ →
          Waits e.id ((k₂, r) :: past) → (∀ x ∈ past, ∀ loaded, ¬x.2.Resumes x.1 e.id loaded) →
          r.Resumes k₂ e.id loaded' → loaded' = F) := by
  obtain ⟨n, hp⟩ := hk.proper
  refine ⟨fun c live x k' hd id e e' he he' hid => ?_, fun c e F exit loaded k₁ hr hs ho ht hd => ?_⟩
  · have hallowed : (Demand.step (.trap c live)).Allowed k := trivial
    have hrun : (Demand.step (.trap c live)).run k = .ok k' := by
      rw [Demand.run, Step.run, hd]
      rfl
    refine Demand.context_kept hp hallowed hrun he (fun hw => ?_) he'
    cases hw with
    | trap hr => exact hid (Kernel.runningOn_spec hr).2.1
    | acts ha => exact ha
  · have hpass := Kernel.passed_of_timer hr hs ht hd
    have hp' : Proper n (k.saved e.id F).envs (k.saved e.id F).memory := hp.touched touched_context
    have hp₁ : Proper n k₁.envs k₁.memory := hpass.proper hp'
    constructor
    · rintro rfl
      obtain ⟨status, runs, cpu, hf, -⟩ :=
        hpass.find? hp'.intact.table (Kernel.find?_saved (Kernel.runningOn_spec hr).1)
      have hloaded := (Kernel.trap_loads c F k).of_done hd e.id rfl
      exact Option.some.inj (hloaded.symm.trans (Kernel.contextOf_of_find? hf))
    · intro hexit past k₂ r k₃ loaded' hhist hw hno hresumes
      obtain ⟨e₁, he₁, hpre₁⟩ := hpass.preempted hp hr hs ho hexit
      obtain ⟨⟨⟨e₂, he₂⟩, hacts⟩, hw'⟩ := List.forall_mem_cons.mp hw
      cases hhist with
      | demand hhist ha hrun =>
        have hpre₂ := hhist.preempted hp₁ he₁ hpre₁ hw' hno he₂
        obtain ⟨l, rfl, hx⟩ := hresumes
        obtain ⟨-, -, -, hloads⟩ := Step.exits (hhist.proper hp₁) hrun
        obtain ⟨e₃, he₃, hctx⟩ := Option.map_eq_some_iff.mp (hloads _ _ hx)
        rw [← hctx]
        exact (Step.preempted (hhist.proper hp₁) hrun he₂ hpre₂ (hpre₂.not_writes he₂ hacts) he₃).1

namespace Kernel

def underway : Kernel := (Demand.step (.start ⟨0⟩ {})).next pair

def outOfTime : Context :=
  { regs := #v[7, 1, 2, 3, 4, 5, 6, 8], ip := 0x1234, sp := 0x8000, flags := 0x200, number := Trap.timer }

def interruption : Step := .trap ⟨0⟩ outOfTime

def mapping : Step := .trap ⟨0⟩ (.making (.allocPage .self 0x300000 (PageFlags.present ||| PageFlags.user)))

def parking : Step := .trap ⟨0⟩ (.making (.sendQueued ⟨0x401⟩ ⟨9, UInt64.ofNat utop, .empty⟩))

end Kernel

/-- The first program is interrupted; the second one maps a page and then waits for the first one, which goes on with
its registers. -/
theorem preemption_transparent_parked : ∃ e k₁ k₂ k₃ live loaded, Kernel.underway.Reachable ∧
    Kernel.underway.runningOn ⟨0⟩ = some e ∧ e.status = .running ∧ e.outbox = none ∧
    (Kernel.trap ⟨0⟩ Kernel.outOfTime Kernel.underway : Outcome Kernel Empty (Exit × Context)) =
      .done (.resume ⟨0x402⟩, live) k₁ ∧
    k₁.History [(k₂, .step Kernel.parking), (k₁, .step Kernel.mapping)] k₃ ∧
    Waits e.id [(k₂, .step Kernel.parking), (k₁, .step Kernel.mapping)] ∧
    (∀ loaded, ¬(Demand.step Kernel.mapping).Resumes k₁ e.id loaded) ∧
    (Demand.step Kernel.parking).Resumes k₂ e.id loaded ∧ loaded = Kernel.outOfTime := by
  let k₁ := (Demand.step Kernel.interruption).next Kernel.underway
  let k₂ := (Demand.step Kernel.mapping).next k₁
  have hk : Kernel.underway.Reachable := Kernel.reachable_pair.next trivial (by decide +kernel)
  have hrun : (Kernel.underway.runningOn ⟨0⟩).map (fun e => (e.id, e.status, e.outbox)) =
      some (⟨0x401⟩, .running, none) := by decide +kernel
  obtain ⟨e, he, hstate⟩ := Option.map_eq_some_iff.mp hrun
  obtain ⟨hid, hs, ho⟩ : e.id = ⟨0x401⟩ ∧ e.status = .running ∧ e.outbox = none := by simpa using hstate
  have hexit : (Kernel.interruption.exit? Kernel.underway).map Prod.fst = some (.resume ⟨0x402⟩) := by decide +kernel
  obtain ⟨⟨_, live⟩, hx, rfl⟩ := Option.map_eq_some_iff.mp hexit
  obtain ⟨⟨_, k⟩, hd, rfl⟩ := Option.map_eq_some_iff.mp hx
  have htrap := Outcome.result?_eq_some hd
  have hnext : k = k₁ := by
    show k = (Demand.run Kernel.underway (.step (.trap ⟨0⟩ Kernel.outOfTime))).toOption.getD Kernel.underway
    rw [Demand.run, Step.run, htrap]
    rfl
  subst hnext
  have hquiet : (Kernel.mapping.exit? k₁).map Prod.fst = some (.resume ⟨0x402⟩) := by decide +kernel
  have hback : (Kernel.parking.exit? k₂).map Prod.fst = some (.resume ⟨0x401⟩) := by decide +kernel
  obtain ⟨⟨_, loaded⟩, hloaded, rfl⟩ := Option.map_eq_some_iff.mp hback
  have hstart : k₁.History [] k₁ := .start
  have hhist := (hstart.next (r := .step Kernel.mapping) trivial (by decide +kernel)).next
    (r := .step Kernel.parking) trivial (by decide +kernel)
  have hwaits : Waits e.id [(k₂, .step Kernel.parking), (k₁, .step Kernel.mapping)] := by
    rw [hid]
    exact List.forall_mem_cons.mpr ⟨⟨Option.isSome_iff_exists.mp (by decide +kernel), fun h => h⟩,
      List.forall_mem_singleton.mpr ⟨Option.isSome_iff_exists.mp (by decide +kernel), fun h => h⟩⟩
  have hno : ∀ loaded, ¬(Demand.step Kernel.mapping).Resumes k₁ e.id loaded := by
    rintro loaded ⟨_, hl, hx⟩
    cases hl
    rw [hx, hid] at hquiet
    have hne : Exit.resume ⟨0x401⟩ ≠ .resume ⟨0x402⟩ := by decide
    exact hne (Option.some.inj hquiet)
  have hresumes : (Demand.step Kernel.parking).Resumes k₂ e.id loaded := ⟨_, rfl, by rw [hid]; exact hloaded⟩
  refine ⟨e, k₁, k₂, _, live, loaded, hk, he, hs, ho, htrap, hhist, hwaits, hno, hresumes, ?_⟩
  refine ((preemption_transparent hk).2 ⟨0⟩ e Kernel.outOfTime _ live k₁ he hs ho rfl htrap).2 ?_ _ _ _ _ loaded hhist
    hwaits (List.forall_mem_singleton.mpr hno) hresumes
  rw [hid]
  decide

end Exokernel
