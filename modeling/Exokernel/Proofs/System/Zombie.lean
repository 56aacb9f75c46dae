import Exokernel.Proofs.System.Anchored
import Exokernel.Proofs.System.Crash

/-!
# Environments that were destroyed while they ran elsewhere

An environment that a program destroys while another CPU runs it is marked as dying, and keeps its record and its
space for that CPU. Its parent can take the mark away too early: whoever destroys it again frees it, and whoever sets
its status overwrites the mark. So does who ends a message operation that it was roused in. Nobody else touches it,
and the next trap of its CPU frees it.
-/

set_option autoImplicit false

namespace Exokernel

open Env (Id Kind Status)
open Env.Table

variable {n : Nat} {c d : Cpu} {caller id : Id} {call : Call} {live : Context} {exit : Exit} {o : Option (Cpu × Exit)}
  {k k' k₁ : Kernel} {l : Step} {e e' : Env} {t : Env.Table} {m : Memory}

section overruled

namespace Kernel

/-- A parent that decides about a dying child takes its mark. -/
theorem perform_overrules (hp : Proper n k.envs k.memory) (hf : k.envs.find? id = some e) (hd : e.status = .dying)
    (hparent : e.parent = caller) (hne : id ≠ caller) (hover : call.Overrules id)
    (hs : ∀ id, call ≠ .setStatus id .running) :
    ∃ k', perform c caller call k = .done {} k' ∧ ∀ e', k'.envs.find? id = some e' → e'.status ≠ .dying := by
  have hid := id_of_find? hf
  have hl : k.envs.lookup id (some caller) true = .ok e := lookup_of_kin hp.intact.table hf (.inr hparent)
  have hdestroy : ∃ k', destroyFor c caller e.id k = .done {} k' ∧
      ∀ e', k'.envs.find? id = some e' → e'.status ≠ .dying := by
    obtain ⟨m, j, hdone⟩ := destroyFor_dying hp.intact (hid ▸ hf) hd (hid ▸ hne)
    refine ⟨_, hdone, fun e' he' => ?_⟩
    rw [hid] at he'
    cases (find?_released_self hf).symm.trans he'
  cases call with
  | destroy j =>
    obtain rfl : j = id := hover
    rw [perform, Action.bind_done (authorize_of_lookup hl)]
    exact hdestroy
  | setStatus j status =>
    obtain rfl : j = id := hover
    by_cases hfree : status = .free ∨ status = .dying
    · rw [perform, changeStatus, Action.bind_done (authorize_of_lookup hl)]
      simp only [if_pos hfree]
      exact hdestroy
    · have hset : status = .notRunnable ∨ status = .runnable := by
        cases status with
        | free => exact absurd (.inl rfl) hfree
        | dying => exact absurd (.inr rfl) hfree
        | running => exact absurd rfl (hs j)
        | notRunnable => exact .inl rfl
        | runnable => exact .inr rfl
      have hr : e.status ≠ .running := by rw [hd]; decide
      refine ⟨_, changeStatus_done hl hset hr (hid ▸ hne), fun e' he' => ?_⟩
      rw [hid] at he'
      cases (find?_update_self (title_reset hset) hf).symm.trans he'
      exact fun h => hfree (.inr h)
  | _ => exact hover.elim

theorem handle_overrules {again : Bool} {y : Env} (hp : Proper n k.envs k.memory) (hr : k.runningOn c = some y)
    (hs : y.status = .running) (hcall : live.call? = some call) (hf : k.envs.find? id = some e)
    (hd : e.status = .dying) (hparent : e.parent = y.id) (hover : call.Overrules id)
    (hh : (handle c { y with context := live } (k.saved y.id live) : Outcome Kernel Empty Bool) = .done again k₁)
    (hf₁ : k₁.envs.find? id = some e') : e'.status ≠ .dying := by
  have hne : id ≠ y.id := by
    rintro rfl
    obtain rfl := find?_unique hf (runningOn_spec hr).1
    cases hs.symm.trans hd
  have hp' : Proper n (k.saved y.id live).envs (k.saved y.id live).memory := hp.touched touched_context
  have hdec := (handle_call (ε := Empty) (c := c) (e := y) hcall).2.1
  obtain ⟨k₂, hdone, hgone⟩ := perform_overrules (c := c) hp' ((find?_saved_of_ne hne).trans hf) hd hparent hne hover
    (decode_ne hdec)
  cases hh.symm.trans (handle_of_perform hcall hdone)
  rw [find?_answered, if_neg hne] at hf₁
  exact hgone e' hf₁

end Kernel

theorem Passed.dying (hs : k.envs.Sound) (h : Passed c k exit k') (hf : k'.envs.find? id = some e)
    (hd : e.status = .dying) : k.envs.find? id = some e := by
  obtain ⟨y, hy, -⟩ := h.touched.find?_inv hf
  obtain ⟨status, runs, cpu, hf', hor⟩ := h.find? hs hy
  cases hf.symm.trans hf'
  rcases hor with rfl | ⟨-, hor⟩
  · have hstill := h.find?_still hs hy (by rw [hd]; decide) (by rw [hd]; decide)
    rw [hy, ← hstill, hf]
  · cases hd
    rcases hor with h | h
    · cases h
    · cases h

theorem Step.Moves.overruled (hp : Proper n k.envs k.memory) (hm : l.Moves k o k') (hover : l.Overrules k id)
    (hf : k.envs.find? id = some e) (hd : e.status = .dying) (hf' : k'.envs.find? id = some e') :
    e'.status ≠ .dying := by
  obtain ⟨y, call, hy, hcalls, hover⟩ := hover
  obtain rfl := find?_unique hf hy
  generalize hparent : e.parent = caller at hcalls
  cases hcalls with
  | @trapped c live y _ hr hs hcall =>
    cases hm with
    | worked hl _ _ => cases hl
    | stayed hr' _ hh _ _ _ =>
      cases hr.symm.trans hr'
      exact Kernel.handle_overrules hp hr hs hcall hf hd hparent hover hh hf'
    | passed ha hdone =>
      intro hdying
      have hf₁ := (Kernel.passed_of_schedule hdone).dying ((ha.upshot hp).proper hp).intact.table hf' hdying
      cases ha with
      | trapped ha =>
        cases ha with
        | vacant hnone _ => cases hr.symm.trans hnone
        | reclaimed hr' hs' _ =>
          cases hr.symm.trans hr'
          cases hs.symm.trans hs'
        | served hr' _ hh _ =>
          cases hr.symm.trans hr'
          exact Kernel.handle_overrules hp hr hs hcall hf hd hparent hover hh hf₁ hdying
        | lost hr' _ hh _ =>
          cases hr.symm.trans hr'
          exact Kernel.handle_overrules hp hr hs hcall hf hd hparent hover hh hf₁ hdying

end overruled

section marked

theorem NobodyTurns.not_dying (h : NobodyTurns .dying k.envs t) (he : k.envs.find? id = some e)
    (hr : e.status = .running) (he' : t.find? id = some e') : e'.status ≠ .dying := by
  intro hd
  obtain ⟨y, hy, hyd, -⟩ := h id e' he' hd
  obtain rfl := find?_unique he hy
  cases hr.symm.trans hyd

theorem Upshot.marked (hp : Proper n k.envs k.memory) (h : Upshot k (.step l) t m) (he : k.envs.find? id = some e)
    (hr : e.status = .running) (he' : t.find? id = some e') (hd : e'.status = .dying) :
    (∃ c, l.cpu? = some c ∧ e.cpu ≠ some c) ∧ e' = { e with status := .dying } := by
  cases h with
  | still => exact absurd hd (NobodyTurns.not_dying (.refl _) he hr he')
  | armed => exact absurd hd (NobodyTurns.not_dying (.refl _) he hr he')
  | trapped h =>
    obtain ⟨hcpu, hmark⟩ := h.marked hp he hr he' hd
    exact ⟨⟨_, rfl, hcpu⟩, hmark⟩
  | created hfree _ =>
    exact absurd hd (NobodyTurns.not_dying (.occupy (.inr rfl) hp.intact.table hfree) he hr he')
  | loaded => exact absurd hd (NobodyTurns.not_dying (.refl _) he hr he')
  | entered => exact absurd hd (NobodyTurns.not_dying .context he hr he')

theorem Step.Moves.marked (hp : Proper n k.envs k.memory) (hm : l.Moves k o k') (he : k.envs.find? id = some e)
    (hr : e.status = .running) (he' : k'.envs.find? id = some e') (hd : e'.status = .dying) :
    (∃ c, l.cpu? = some c ∧ e.cpu ≠ some c) ∧ e' = { e with status := .dying } := by
  cases hm with
  | worked _ hu _ => exact hu.marked hp he hr he' hd
  | stayed hrun hs hh _ _ _ => exact (Kernel.upshot_of_handle hp hrun hs hh).marked hp he hr he' hd
  | passed ha hdone =>
    have hu := ha.upshot hp
    have he₁ := (Kernel.passed_of_schedule hdone).dying (hu.proper hp).intact.table he' hd
    exact hu.marked hp he hr he₁ hd

end marked

section spared

theorem Passed.spares_dying (hs : k.envs.Sound) (h : Passed c k exit k') (he : k.envs.find? id = some e')
    (hd : e.status = .dying) (hsp : Spared e e') : ∃ e'', k'.envs.find? id = some e'' ∧ Spared e e'' := by
  cases hsp with
  | kept hst hspace =>
    have hstatus := (status_of_stance hst).trans hd
    exact ⟨e', h.find?_still hs he (by rw [hstatus]; decide) (by rw [hstatus]; decide), .kept hst hspace⟩
  | woken hb hready hmail =>
    obtain ⟨status, runs, cpu, hf, hor⟩ := h.find? hs he
    refine ⟨_, hf, .woken hb ?_ hmail⟩
    rcases hor with rfl | ⟨-, hor⟩
    · exact hready
    · exact hor

/-- Whoever is dying on another CPU, and is not decided about, is spared by a whole step. -/
theorem Step.Moves.spares_dying (hp : Proper n k.envs k.memory) (hm : l.Moves k o k') (he : k.envs.find? id = some e)
    (hd : e.status = .dying) (hc : ∀ c, l.cpu? = some c → e.cpu ≠ some c) (hno : ¬l.Overrules k id) :
    ∃ e', k'.envs.find? id = some e' ∧ Spared e e' := by
  have hne : ∀ c y, l.cpu? = some c → k.runningOn c = some y → y.id ≠ id := by
    rintro c y hl hy rfl
    obtain ⟨hf, -, -, hcpu⟩ := Kernel.runningOn_spec hy
    obtain rfl := find?_unique he hf
    exact hc c hl hcpu
  cases hm with
  | worked _ hu _ => exact hu.spared hp he hne hno
  | stayed hr hs hh _ _ _ => exact (Kernel.upshot_of_handle hp hr hs hh).spared hp he hne hno
  | passed ha hdone =>
    have hu := ha.upshot hp
    obtain ⟨e₁, he₁, hsp⟩ := hu.spared hp he hne hno
    exact (Kernel.passed_of_schedule hdone).spares_dying (hu.proper hp).intact.table he₁ hd hsp

theorem Step.Moves.enters (hp : Proper n k.envs k.memory) (hm : l.Moves k (some (c, .resume id)) k') :
    ∃ e, k'.envs.find? id = some e ∧ e.status = .running := by
  generalize hexit : Exit.resume id = exit at hm
  cases hm with
  | stayed _ _ _ hf hr _ =>
    cases hexit
    exact ⟨_, hf, hr⟩
  | passed ha hdone =>
    have hpass := Kernel.passed_of_schedule hdone
    rw [← hexit] at hpass
    obtain ⟨e, -, -, -, hf⟩ := hpass.chosen ((ha.upshot hp).proper hp).intact.table
    exact ⟨_, hf, rfl⟩

end spared

section reclaimed

namespace Kernel

/-- A CPU whose idle environment can run always finds somewhere to go. -/
theorem reschedule_done (hs : k.envs.Sound) (hi : k.idleOf c = some id) (live : Context) : ∃ exit ctx k',
    (reschedule c live k : Outcome Kernel Empty (Exit × Context)) = .done (exit, ctx) k' ∧ Passed c k exit k' := by
  have hpass := schedule_effect (ε := Empty) (c := c) (k := k)
  cases hd : (schedule c k : Outcome Kernel Empty Decision) with
  | done d k' =>
    have hpassed := hpass.of_done hd
    rw [reschedule, Action.bind_done hd]
    cases d with
    | monitor => exact ⟨_, live, k', rfl, hpassed⟩
    | run j =>
      obtain ⟨e, -, -, -, hf⟩ := hpassed.chosen hs
      simp only [Action.state_bind, hf]
      exact ⟨_, _, k', rfl, hpassed⟩
  | refused cause _ => cases cause
  | halted p =>
    have hnone := (hpass.of_halted hd).2
    rw [hi] at hnone
    cases hnone

/-- A trap of a CPU that runs a dying environment frees it, whatever its number, and takes the CPU elsewhere. -/
theorem trap_reclaims {a : Handle} {j : Env.Id} {y : Env} (live : Context) (hp : Proper n k.envs k.memory)
    (hmode : live.mode = .user) (hr : k.runningOn c = some e) (hd : e.status = .dying) (ha : e.space = some a)
    (hy : k.envs.find? j = some y) (hj : j.index = c.index) (hduty : y.OnDuty) : ∃ exit ctx k',
      (trap c live k : Outcome Kernel Empty (Exit × Context)) = .done (exit, ctx) k' ∧ exit ≠ .resume e.id ∧
        k'.envs.find? e.id = none ∧ k'.envs.free = e.id.index :: k.envs.free ∧ k'.memory.isLive a = false := by
  obtain ⟨hf, -⟩ := runningOn_spec hr
  obtain ⟨k₁, hdone, henvs, -, a', ha', hdestroy⟩ :=
    reclaim_effect (ε := Empty) (c := c) (k := k.noted live) hp.intact hf
  cases ha.symm.trans ha'
  have hne : j ≠ e.id := by
    rintro rfl
    obtain rfl := find?_unique hy hf
    exact hduty.not_dying hd
  have hidle : ∃ y', k₁.envs.find? j = some y' ∧ y'.OnDuty := by
    obtain ⟨y', hy', hspared⟩ := released_spared hf hy hne
    rw [henvs]
    exact ⟨y', hy', hduty.spared hspared⟩
  obtain ⟨y', hy', hduty'⟩ := hidle
  have hp₁ : Proper n k₁.envs k₁.memory := by
    rw [henvs]
    exact hp.released hf ha hdestroy
  have hready := idleOf_of_find? hy' hj hduty'.idle hduty'.ready
  obtain ⟨exit, ctx, k', hturn, hpass⟩ := reschedule_done hp₁.intact.table hready live
  have hgone : k₁.envs.find? e.id = none := by
    rw [henvs]
    exact find?_released_self hf
  refine ⟨exit, ctx, k', ?_, fun hexit => ?_, ?_, ?_, ?_⟩
  · rw [trap_dying hmode hr hd, Action.bind_done hdone, hturn]
  · rw [hexit] at hpass
    obtain ⟨z, hz, -⟩ := hpass.chosen hp₁.intact.table
    cases hgone.symm.trans hz
  · cases hf' : k'.envs.find? e.id with
    | none => rfl
    | some z =>
      obtain ⟨x, hx, -⟩ := hpass.touched.find?_inv hf'
      cases hgone.symm.trans hx
  · rw [hpass.touched.free, henvs]
    exact free_released hf hp.intact.table
  · obtain ⟨a', ha', hlive⟩ := hp.intact.space_of_find? hf
    cases ha.symm.trans ha'
    obtain ⟨m, hm, -, hgone, -⟩ := Memory.destroy_done hp.intact.memory hlive
    cases hdestroy.symm.trans hm
    rw [hpass.memory, hgone]
    simp

end Kernel

end reclaimed

namespace System

variable {s s' : System} {a : Handle}

/-- `id` is dying and belongs to `c`, which still executes it; its space lives. -/
structure Zombie (c : Cpu) (id : Id) (a : Handle) (s : System) : Prop where
  marked : ∃ e, s.kernel.envs.find? id = some e ∧ e.status = .dying ∧ e.cpu = some c ∧ e.space = some a ∧
    e.kind ≠ .idle
  space : s.kernel.memory.isLive a = true
  exit : s.exits c = some (.resume id)

def Unblocks (id : Id) (s : System) (l : Step) : Prop :=
  ∃ e s' e', s.kernel.envs.find? id = some e ∧ Blocked e ∧ s.step l = .ok s' ∧
    s'.kernel.envs.find? id = some e' ∧ (e'.mailbox.receiving ≠ e.mailbox.receiving ∨ e'.outbox ≠ e.outbox)

/-- Steps that take the mark of `id`: its parent decides about it, or a message operation of it ends. -/
def Unmarks (id : Id) (s : System) (l : Step) : Prop := l.Overrules s.kernel id ∨ Unblocks id s l

def Enters (id : Id) (s : System) (l : Step) : Prop :=
  ∃ c s', l.cpu? = some c ∧ s.step l = .ok s' ∧ s'.exits c = some (.resume id)

/-- From `s` to `s'` the slot of `id` and its space became free, and `c` went elsewhere. -/
structure Reclaimed (c : Cpu) (id : Id) (a : Handle) (s s' : System) : Prop where
  gone : s'.kernel.envs.find? id = none
  slot : s'.kernel.envs.free = id.index :: s.kernel.envs.free
  space : s'.kernel.memory.isLive a = false
  exit : s'.exits c ≠ some (.resume id)

theorem Anchored.onDuty (h : s.Anchored n) (hc : c.index < s.kernel.current.size)
    (hf : s.kernel.envs.find? id = some e) (hi : id.index = c.index) : e.OnDuty := by
  obtain ⟨j, y, hj, hy, hd⟩ := h.staffed c hc
  have hslot := slot?_of_find? hf
  rw [hi, ← hj, slot?_of_find? hy] at hslot
  cases hslot
  exact hd

/-- Whoever is marked while it runs is a zombie. -/
theorem Anchored.zombie (h : s.Anchored n) (hp : s.Permitted l) (hs : s.step l = .ok s')
    (hf : s.kernel.envs.find? id = some e) (hr : e.status = .running) (hcpu : e.cpu = some c)
    (hf' : s'.kernel.envs.find? id = some e') (hd : e'.status = .dying) :
    ∃ a, e.space = some a ∧ Zombie c id a s' := by
  obtain ⟨o, hm, hexits⟩ := step_moves h.proper hs
  have h' := h.step hp hs
  obtain ⟨⟨d, hl, hne⟩, rfl⟩ := hm.marked h.proper hf hr hf' hd
  obtain ⟨a, hspace, hlive⟩ := h'.proper.intact.space_of_find? hf'
  obtain ⟨c', hc', hexit⟩ := h.owned id e hf hr
  cases hcpu.symm.trans hc'
  have hexit' : s'.exits c = some (.resume id) := by
    rw [hexits, exitsAfter_of_cpu? s hm, hexit]
    intro hc
    rw [hl] at hc
    cases hc
    exact hne hcpu
  refine ⟨a, hspace, ⟨_, hf', hd, hcpu, hspace, fun hk => ?_⟩, hlive, hexit'⟩
  -- An idle environment runs in the slot of its CPU, where somebody is on duty.
  obtain ⟨c', hc', hi⟩ := h.home id e hf hk hr
  cases hcpu.symm.trans hc'
  have hlt := h'.entered c (by rw [hexit']; exact Option.some_ne_none _)
  exact (h'.onDuty hlt hf' hi.symm).not_dying hd

namespace Zombie

section step

variable (h : s.Anchored n) (hz : s.Zombie c id a) (hs : s.step l = .ok s') (hc : l.cpu? ≠ some c)
include h hz hs hc

theorem spared (hno : ¬l.Overrules s.kernel id) : ∃ e e', s.kernel.envs.find? id = some e ∧
    s'.kernel.envs.find? id = some e' ∧ Spared e e' := by
  obtain ⟨e, he, hd, hcpu, -⟩ := hz.marked
  obtain ⟨o, hm, -⟩ := step_moves h.proper hs
  have hother : ∀ d, l.cpu? = some d → e.cpu ≠ some d := by
    rintro d hl hcd
    cases hcpu.symm.trans hcd
    exact hc hl
  obtain ⟨e', he', hsp⟩ := hm.spares_dying h.proper he hd hother hno
  exact ⟨e, e', he, he', hsp⟩

/-- What is not unmarked stays a zombie, and does not get into a message operation. -/
theorem kept (hp : s.Permitted l) (hno : ¬Unmarks id s l) : s'.Zombie c id a ∧
    ((∀ e, s.kernel.envs.find? id = some e → ¬Blocked e) → ∀ e, s'.kernel.envs.find? id = some e → ¬Blocked e) := by
  obtain ⟨e, e', he, he', hsp⟩ := hz.spared h hs hc fun hover => hno (.inl hover)
  have hkept : e'.stance = e.stance ∧ e'.space = e.space := by
    cases hsp with
    | kept hst hspace => exact ⟨hst, hspace⟩
    | woken hb _ hmail => exact absurd (.inr ⟨e, s', e', he, hb, hs, he', hmail⟩) hno
  obtain ⟨hst, hspace'⟩ := hkept
  obtain ⟨y, hy, hd, hcpu, hspace, hk⟩ := hz.marked
  obtain rfl := find?_unique he hy
  constructor
  · obtain ⟨o, hm, hexits⟩ := step_moves h.proper hs
    obtain ⟨a', ha', hlive⟩ := (h.step hp hs).proper.intact.space_of_find? he'
    have ha : e'.space = some a := hspace'.trans hspace
    cases ha.symm.trans ha'
    refine ⟨⟨e', he', (status_of_stance hst).trans hd, (cpu_of_stance hst).trans hcpu, ha, ?_⟩, hlive, ?_⟩
    · rw [kind_of_stance hst]
      exact hk
    · rw [hexits, exitsAfter_of_cpu? s hm hc, hz.exit]
  · intro hfree y hy hb
    obtain rfl := find?_unique he' hy
    have hblocked : Blocked e'.stance := hb
    rw [hst] at hblocked
    exact hfree e he hblocked

theorem broken (hu : Unmarks id s l) : ¬s'.Zombie c id a := by
  rintro ⟨⟨e', he', hd', -⟩, -⟩
  obtain ⟨o, hm, -⟩ := step_moves h.proper hs
  have hover : ¬l.Overrules s.kernel id := by
    intro hover
    obtain ⟨e, he, hd, -⟩ := hz.marked
    exact hm.overruled h.proper hover he hd he' hd'
  obtain ⟨e, y', he, hy', hsp⟩ := hz.spared h hs hc hover
  obtain rfl := find?_unique he' hy'
  obtain ⟨y, s₁, z, hy, -, hs₁, hz', hmail⟩ := hu.resolve_left hover
  cases hs.symm.trans hs₁
  obtain rfl := find?_unique he hy
  obtain rfl := find?_unique he' hz'
  cases hsp with
  | kept hst _ =>
    have hreceiving : e'.stance.mailbox.receiving = e.stance.mailbox.receiving := by rw [hst]
    have houtbox : e'.stance.outbox = e.stance.outbox := by rw [hst]
    exact hmail.elim (fun h => h hreceiving) fun h => h houtbox
  | woken _ hready _ =>
    rw [hd'] at hready
    rcases hready with hready | hready
    · cases hready
    · cases hready

end step

theorem not_entered (h : s.Anchored n) (hs : s.step l = .ok s') (hz : s'.Zombie c id a) : ¬Enters id s l := by
  rintro ⟨d, s₁, hl, hs₁, hexit⟩
  cases hs.symm.trans hs₁
  obtain ⟨o, hm, hexits⟩ := step_moves h.proper hs
  have hcpu := hm.cpu?
  rw [hl] at hcpu
  obtain ⟨⟨d', exit⟩, rfl, rfl⟩ := Option.map_eq_some_iff.mp hcpu.symm
  rw [hexits, exitsAfter_self] at hexit
  cases hexit
  obtain ⟨e, he, hr⟩ := hm.enters h.proper
  obtain ⟨y, hy, hd, -⟩ := hz.marked
  obtain rfl := find?_unique he hy
  cases hr.symm.trans hd

/-- Its CPU may trap with any number, and frees it. -/
theorem reclaimed (h : s.Anchored n) (hz : s.Zombie c id a) (hmode : live.mode = .user) :
    s.Permitted (.trap c live) ∧ ∃ s', s.step (.trap c live) = .ok s' ∧ Reclaimed c id a s s' := by
  obtain ⟨e, he, hd, hcpu, ha, hk⟩ := hz.marked
  obtain rfl := id_of_find? he
  have hentered : s.exits c ≠ none := by
    rw [hz.exit]
    exact Option.some_ne_none _
  constructor
  · refine ⟨hmode, hentered, fun _ => ⟨e.id, hz.exit, fun y hy => ?_⟩⟩
    obtain rfl := find?_unique he hy
    exact hk
  · obtain ⟨j, y, hj, hy, hduty⟩ := h.staffed c (h.entered c hentered)
    have hr := Kernel.runningOn_of_last (h.last c e.id hz.exit) he (.inr hd) hcpu
    obtain ⟨exit, ctx, k', hdone, hexit, hgone, hslot, hspace⟩ :=
      Kernel.trap_reclaims live h.proper hmode hr hd ha hy hj hduty
    refine ⟨_, by rw [System.step, hdone]; rfl, hgone, hslot, hspace, fun hx => hexit ?_⟩
    have hself : Function.update s.exits c (some exit) c = some exit := Function.update_self ..
    exact Option.some.inj (hself.symm.trans hx)

end Zombie

section runs

variable {config : Config} {cycles : CycleCounter} {monitor : Monitor} {s₀ s₁ : System}
  {trace later : List (System × Step)}

theorem Runs.zombie_iff (h : Runs s₁ later s) (h₁ : s₁.Anchored n) (hz : s₁.Zombie c id a)
    (hother : ∀ p ∈ later, p.2.cpu? ≠ some c) :
    Throughout (Zombie c id a) later s ↔ ∀ p ∈ later, ¬Unmarks id p.1 p.2 := by
  refine h.throughout_iff_of_kept (J := fun s => s.Anchored n ∧ s.Zombie c id a) ⟨h₁, hz⟩ (fun _ h => h.2)
    fun s s' l hmem ⟨ha, hz⟩ hp hs => ?_
  have hc := hother _ hmem
  exact ⟨⟨fun hz' hu => hz.broken ha hs hc hu hz', fun hno => (hz.kept ha hs hc hp hno).1⟩,
    fun hno => ⟨ha.step hp hs, (hz.kept ha hs hc hp hno).1⟩⟩

/-- Of a zombie that is blocked nowhere only its parent takes the mark. -/
theorem Runs.unmarked_by_parent (h : Runs s₁ later s) (h₁ : s₁.Anchored n) (hz : s₁.Zombie c id a)
    (hfree : ∀ e, s₁.kernel.envs.find? id = some e → ¬Blocked e) (hother : ∀ p ∈ later, p.2.cpu? ≠ some c)
    (hno : ∀ p ∈ later, ¬p.2.Overrules p.1.kernel id) : ∀ p ∈ later, ¬Unmarks id p.1 p.2 := by
  suffices hall : ((s.Anchored n ∧ s.Zombie c id a) ∧ ∀ e, s.kernel.envs.find? id = some e → ¬Blocked e) ∧
      ∀ p ∈ later, ¬Unmarks id p.1 p.2 from hall.2
  induction h with
  | start => exact ⟨⟨⟨h₁, hz⟩, hfree⟩, fun p hp => by cases hp⟩
  | @step later s s' l _ hp hs ih =>
    obtain ⟨hc, hothers⟩ := List.forall_mem_cons.mp hother
    obtain ⟨hover, hnos⟩ := List.forall_mem_cons.mp hno
    obtain ⟨⟨⟨ha, hz⟩, hfree⟩, hall⟩ := ih hothers hnos
    have hunmarks : ¬Unmarks id s l := by
      rintro (hover' | ⟨e, _, _, he, hb, -⟩)
      · exact hover hover'
      · exact hfree e he hb
    obtain ⟨hz', hfree'⟩ := hz.kept ha hs hc hp hunmarks
    exact ⟨⟨⟨ha.step hp hs, hz'⟩, hfree' hfree⟩, List.forall_mem_cons.mpr ⟨hunmarks, hall⟩⟩

theorem Runs.not_entered (h : Runs s₁ later s) (h₁ : s₁.Anchored n) (hz : Throughout (Zombie c id a) later s) :
    ∀ p ∈ later, ¬Enters id p.1 p.2 := by
  induction h with
  | start => exact fun p hp => by cases hp
  | @step later s s' l hrun _ hs ih =>
    obtain ⟨hz', hall⟩ := hz
    obtain ⟨hz, hbefore⟩ := List.forall_mem_cons.mp hall
    exact List.forall_mem_cons.mpr ⟨hz'.not_entered (hrun.anchored h₁) hs, ih ⟨hz, hbefore⟩⟩

/-- In a run from boot an environment that is marked as dying while it runs on `c` stays, dying, with its slot and
its space, on `c` alone, until `c` takes its next step, exactly if no step unmarks it; if it was blocked in no message
operation, only a call of its parent does. As long as it is there no step takes a CPU into it, and the next trap of
`c`, whatever its number, frees it and takes `c` elsewhere. -/
theorem zombie_reclaimed_unless_unmarked (hk : Kernel.boot config cycles monitor = .ok k)
    (h : Runs (booted k) trace s) (hp : s.Permitted l) (hs : s.step l = .ok s₁)
    (hf : s.kernel.envs.find? id = some e) (hr : e.status = .running) (hcpu : e.cpu = some c)
    (hf₁ : s₁.kernel.envs.find? id = some e') (hd : e'.status = .dying) (h' : Runs s₁ later s')
    (hother : ∀ p ∈ later, p.2.cpu? ≠ some c) :
    ∃ a, e.space = some a ∧ s₁.Zombie c id a ∧
      (Throughout (Zombie c id a) later s' ↔ ∀ p ∈ later, ¬Unmarks id p.1 p.2) ∧
      (¬Blocked e → (∀ p ∈ later, ¬p.2.Overrules p.1.kernel id) → ∀ p ∈ later, ¬Unmarks id p.1 p.2) ∧
      ((∀ p ∈ later, ¬Unmarks id p.1 p.2) → (∀ p ∈ later, ¬Enters id p.1 p.2) ∧
        ∀ live : Context, live.mode = .user → s'.Permitted (.trap c live) ∧
          ∃ s'', s'.step (.trap c live) = .ok s'' ∧ Reclaimed c id a s' s'') := by
  have hanchored := h.anchored (anchored_booted hk)
  have h₁ := hanchored.step hp hs
  obtain ⟨a, ha, hz⟩ := hanchored.zombie hp hs hf hr hcpu hf₁ hd
  have hiff := h'.zombie_iff h₁ hz hother
  refine ⟨a, ha, hz, hiff, fun hfree hno => ?_, fun hno => ?_⟩
  · refine h'.unmarked_by_parent h₁ hz (fun y hy => ?_) hother hno
    obtain ⟨o, hm, -⟩ := step_moves hanchored.proper hs
    obtain rfl := find?_unique hf₁ hy
    obtain ⟨-, rfl⟩ := hm.marked hanchored.proper hf hr hf₁ hd
    exact hfree
  · have hall := hiff.mpr hno
    exact ⟨h'.not_entered h₁ hall, fun live hmode => hall.1.reclaimed (h'.anchored h₁) hmode⟩

theorem overrules_of_calls {caller : Id} {call : Call} {y : Env}
    (hr : (k.runningOn c).map (fun y => (y.id, y.status)) = some (caller, .running))
    (hcall : live.call? = some call) (hover : call.Overrules id) (hf : k.envs.find? id = some y)
    (hparent : y.parent = caller) : (Step.trap c live).Overrules k id := by
  obtain ⟨e, he, hstate⟩ := Option.map_eq_some_iff.mp hr
  obtain ⟨rfl, hs⟩ := Prod.mk.inj hstate
  exact ⟨y, call, hf, hparent ▸ .trapped he hs hcall, hover⟩

theorem not_overrules_of_call {call : Call} (hcall : live.call? = some call) (hover : ¬call.Overrules id) :
    ¬(Step.trap c live).Overrules k id := by
  rintro ⟨e, call', -, hcalls, hover'⟩
  generalize e.parent = caller at hcalls
  cases hcalls with
  | trapped _ _ hcall' =>
    cases hcall.symm.trans hcall'
    exact hover hover'

/-- A child that its parent destroys while the second CPU runs it. It stays while the parent yields, and a page
fault on the second CPU frees it; when the parent destroys it again it is gone while it still runs. -/
theorem zombie_reclaimed_unless_unmarked_childDying : Kernel.boot twoCpus {} {} = .ok twoCpusBooted ∧
    Attained twoCpusBooted childStarted ∧
    childStarted.step (.trap ⟨0⟩ (.making (.destroy ⟨0x403⟩))) = .ok childDying ∧
    ∃ a, childDying.Zombie ⟨1⟩ ⟨0x403⟩ a ∧
      (∃ s', childDying.step (.trap ⟨0⟩ (.making .yield)) = .ok s' ∧ s'.Zombie ⟨1⟩ ⟨0x403⟩ a ∧
        ∃ s'', s'.step (.trap ⟨1⟩ { number := Trap.pageFault }) = .ok s'' ∧ Reclaimed ⟨1⟩ ⟨0x403⟩ a s' s'') ∧
      ∃ s', childDying.step (.trap ⟨0⟩ (.making (.destroy ⟨0x403⟩))) = .ok s' ∧ ¬s'.Zombie ⟨1⟩ ⟨0x403⟩ a := by
  have hk : Kernel.boot twoCpus {} {} = .ok twoCpusBooted := by decide +kernel
  have h := attained_childStarted hk
  obtain ⟨trace, hrun, -⟩ := id h
  let destroying : Step := .trap ⟨0⟩ (.making (.destroy ⟨0x403⟩))
  let yielding : Step := .trap ⟨0⟩ (.making .yield)
  have hcall : (Context.making (.destroy ⟨0x403⟩)).call? = some (.destroy ⟨0x403⟩) := by decide
  have he : childStarted.exits ⟨0⟩ = some (.resume ⟨0x402⟩) := by decide +kernel
  have hp : childStarted.Permitted destroying := permitted_of_kind rfl he (by decide +kernel)
  have hs : childStarted.step destroying = .ok childDying := step_next (by decide +kernel)
  have hstarted : (childStarted.kernel.envs.find? ⟨0x403⟩).map
      (fun e => (e.status, e.cpu, e.mailbox.receiving, e.outbox)) = some (.running, some ⟨1⟩, false, none) := by
    decide +kernel
  obtain ⟨e, hf, hstate⟩ := Option.map_eq_some_iff.mp hstarted
  obtain ⟨hr, hstate⟩ := Prod.mk.inj hstate
  obtain ⟨hcpu, hstate⟩ := Prod.mk.inj hstate
  obtain ⟨hreceiving, hparked⟩ := Prod.mk.inj hstate
  have hfree : ¬Blocked e := by
    rintro (hb | hb)
    · rw [hreceiving] at hb
      cases hb
    · rw [hparked] at hb
      cases hb
  have hdying : (childDying.kernel.envs.find? ⟨0x403⟩).map (fun e => (e.status, e.parent)) =
      some (.dying, ⟨0x402⟩) := by decide +kernel
  obtain ⟨e', hf', hstate'⟩ := Option.map_eq_some_iff.mp hdying
  obtain ⟨hd, hparent⟩ := Prod.mk.inj hstate'
  have hother : ∀ l, l = destroying ∨ l = yielding → ∀ p ∈ [(childDying, l)], p.2.cpu? ≠ some ⟨1⟩ := by
    rintro l hl p hp
    cases List.mem_singleton.mp hp
    rcases hl with rfl | rfl
    · decide
    · decide
  have he' : childDying.exits ⟨0⟩ = some (.resume ⟨0x402⟩) := by decide +kernel
  have hrun' : (childDying.kernel.runningOn ⟨0⟩).map (fun y => (y.id, y.status)) = some (⟨0x402⟩, .running) := by
    decide +kernel
  have hyield : Runs childDying [(childDying, yielding)] (childDying.next yielding) :=
    Runs.start.step (permitted_of_kind rfl he' (by decide +kernel)) (step_next (by decide +kernel))
  have hagain : Runs childDying [(childDying, destroying)] (childDying.next destroying) :=
    Runs.start.step (permitted_of_kind rfl he' (by decide +kernel)) (step_next (by decide +kernel))
  obtain ⟨a, ha, hz, hiff, hunmarked, hreclaim⟩ :=
    zombie_reclaimed_unless_unmarked hk hrun hp hs hf hr hcpu hf' hd hyield (hother _ (.inr rfl))
  obtain ⟨a', ha', -, hiff', -⟩ :=
    zombie_reclaimed_unless_unmarked hk hrun hp hs hf hr hcpu hf' hd hagain (hother _ (.inl rfl))
  cases ha.symm.trans ha'
  have hyielding : ∀ p ∈ [(childDying, yielding)], ¬Unmarks ⟨0x403⟩ p.1 p.2 := by
    refine hunmarked hfree fun p hp => ?_
    cases List.mem_singleton.mp hp
    exact not_overrules_of_call (by decide : (Context.making .yield).call? = some .yield) id
  have hdestroying : Unmarks ⟨0x403⟩ childDying destroying :=
    .inl (overrules_of_calls hrun' hcall rfl hf' hparent)
  refine ⟨hk, h, hs, a, hz, ⟨_, step_next (by decide +kernel), (hiff.mpr hyielding).1, ?_⟩,
    _, step_next (by decide +kernel), fun hz' => ?_⟩
  · exact ((hreclaim hyielding).2 { number := Trap.pageFault } rfl).2
  · have hall : Throughout (Zombie ⟨1⟩ ⟨0x403⟩ a) [(childDying, destroying)] (childDying.next destroying) :=
      ⟨hz', List.forall_mem_singleton.mpr hz⟩
    exact hiff'.mp hall _ (List.mem_singleton.mpr rfl) hdestroying

end runs

end System

end Exokernel
