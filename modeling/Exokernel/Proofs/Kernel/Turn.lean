import Exokernel.Proofs.Kernel.Orderly

/-!
# Scheduling passes

A pass on a CPU empties its seat and fills it with an environment that could run. It does so in order as long as
the last environment of the CPU does not run on another one. It never halts: the idle environment of a CPU is
always there to be run.
-/

set_option autoImplicit false

namespace Exokernel

open Env (Id Kind Status)
open Env.Table

variable {ε : Type} {n : Nat} {k : Kernel} {b b' : Seats} {x : Option Id} {id last : Id} {e : Env} {c d : Cpu}

def LastHere (k : Kernel) (b : Seats) (c : Cpu) : Prop :=
  ∀ id e, k.currentOf c = some id → k.envs.find? id = some e → e.status = .running → b c = some id

theorem update_none_of_empty (h : b c = none) : Function.update b c none = b := by
  funext d
  by_cases hd : d = c
  · rw [hd, Function.update_self, h]
  · rw [Function.update_of_ne hd]

namespace Fit

theorem free_of_flags (h : Fit b x e) (hx : x ≠ some e.id) (hs : e.status ≠ .notRunnable) :
    e.mailbox.receiving = false ∧ e.outbox = none := by
  constructor
  · cases hr : e.mailbox.receiving with
    | false => rfl
    | true => exact absurd (h.calm hx (.inl hr)) hs
  · cases ho : e.outbox with
    | none => rfl
    | some p => exact absurd (h.calm hx (.inr (by rw [ho]; rfl))) hs

theorem demoted (h : Fit b x e) (hr : e.status = .running) : Fit b' x (Kernel.demoted e) := by
  have hd : Kernel.demoted e = { e with status := .runnable, cpu := none } := if_pos hr
  rw [hd]
  refine ⟨?_, fun hx hf => ?_, h.single, fun hk => ⟨(h.idle hk).1, (h.idle hk).2.1, .inl rfl⟩⟩
  · intro h'
    cases h'
  · have hn := h.calm hx hf
    rw [hr] at hn
    cases hn

theorem promoted (h : Fit b x e) (hs : e.status ≠ .notRunnable) (hk : e.kind = .idle → c.index = e.id.index)
    (hb : b' c = some e.id) : Fit b' x (Kernel.promoted c e) := by
  refine ⟨fun _ => ⟨c, rfl, hb⟩, fun hx hf => absurd (h.calm hx hf) hs, h.single, fun hi => ?_⟩
  exact ⟨(h.idle hi).1, (h.idle hi).2.1, .inr ⟨rfl, c, rfl, hk hi⟩⟩

end Fit

namespace Orderly

theorem empty_of_none (h : Orderly n k b x) (hl : k.currentOf c = none) : b c = none := by
  cases hb : b c with
  | none => rfl
  | some j =>
    have hj : lastOn k.current c = some j := h.scheduled.lastOn_of_seat hb
    rw [show lastOn k.current c = none from hl] at hj
    cases hj

theorem last_of_seat (h : Orderly n k b x) (hl : k.currentOf c = some last) {j : Id} (hb : b c = some j) :
    j = last := by
  have hj : lastOn k.current c = some j := h.scheduled.lastOn_of_seat hb
  rw [show lastOn k.current c = some last from hl] at hj
  exact (Option.some.inj hj).symm

theorem demote (h : Orderly n k b x) (hl : k.currentOf c = some last) (hs : LastHere k b c) :
    Orderly n { k with envs := k.envs.update last Kernel.demoted } (Function.update b c none) x := by
  cases hf : k.envs.find? last with
  | none =>
    have hb : b c = none := by
      cases hb : b c with
      | none => rfl
      | some j =>
        obtain rfl := h.last_of_seat hl hb
        obtain ⟨e, he, -⟩ := h.scheduled.hosted c _ hb
        rw [hf] at he
        cases he
    rw [update_none_of_empty hb, update_of_none hf]
    exact h
  | some e =>
    obtain rfl := id_of_find? hf
    have hfit := h.scheduled.fit _ e hf
    have hwait : ∀ e, (Kernel.demoted e).waiting = e.waiting ∧ (Kernel.demoted e).outbox = e.outbox ∧
        (Kernel.demoted e).kind = e.kind := by
      intro e
      unfold Kernel.demoted
      split
      · exact ⟨rfl, rfl, rfl⟩
      · exact ⟨rfl, rfl, rfl⟩
    refine h.update hf (fun e _ => Kernel.title_demoted e) (hwait e).2.2 (fun e => (hwait e).1)
      (fun e => (hwait e).2.1) (sameOthers_update (fun j hj => h.last_of_seat hl hj) fun j hj => by cases hj) ?_ ?_
    · by_cases hr : e.status = .running
      · exact hfit.demoted hr
      · rw [Kernel.demoted, if_neg hr]
        exact ⟨fun h' => absurd h' hr, hfit.calm, hfit.single, hfit.idle⟩
    · intro d hd
      obtain ⟨hdc, hbd⟩ := seat_of_vacated hd
      -- Only a dying environment can be left in the seat of another CPU.
      have hr : e.status ≠ .running := fun hr => hdc (h.scheduled.seat_unique (hs _ e hl hf hr) hbd)
      obtain ⟨e', hf', hseat⟩ := h.scheduled.hosted d _ hbd
      obtain rfl := find?_unique hf hf'
      rw [Kernel.demoted, if_neg hr]
      exact hseat

/-- An environment that could run takes an empty seat, or keeps its own. -/
theorem promote (h : Orderly n k b x) (hf : k.envs.find? id = some e) (hc : c.index < k.current.size)
    (hs : e.status = .runnable ∨ e.status = .running ∧ b c = some id) (hb : ∀ j, b c = some j → j = id)
    (hk : e.kind = .idle → c.index = id.index) {p : Nat} {j : Journal} :
    Orderly n
      { k with
        envs := k.envs.update id (Kernel.promoted c)
        current := k.current.setIfInBounds c.index (some id)
        progress := p
        journal := j } (Function.update b c (some id)) x := by
  obtain rfl := id_of_find? hf
  have hlast : Scheduled k.envs (k.current.setIfInBounds c.index (some e.id)) b x := by
    apply h.scheduled.setLast (fun j hj => congrArg some (hb j hj).symm)
    intro j y hj hy hi
    obtain rfl := Option.some.inj hj
    obtain rfl := find?_unique hf hy
    exact hk hi
  have h₁ : Orderly n { k with
      current := k.current.setIfInBounds c.index (some e.id), progress := p, journal := j } b x :=
    ⟨h.intact, hlast, h.counted⟩
  have hn : e.status ≠ .notRunnable := by
    rcases hs with hs | ⟨hs, -⟩
    · rw [hs]; decide
    · rw [hs]; decide
  refine h₁.update hf (fun e he => Kernel.title_promoted he) rfl (fun _ => rfl) (fun _ => rfl)
    (sameOthers_update hb fun j hj => (Option.some.inj hj).symm) ?_ ?_
  · exact (h.scheduled.fit _ e hf).promoted hn hk (Function.update_self c _ b)
  · intro d hd
    by_cases hdc : d = c
    · subst hdc
      exact ⟨.inl rfl, rfl, lastOn_set_self hc⟩
    · rw [Function.update_of_ne hdc] at hd
      obtain ⟨e', hf', hst, -⟩ := h.scheduled.hosted d _ hd
      obtain rfl := find?_unique hf hf'
      rcases hs with hr | ⟨-, hb'⟩
      · rw [hr] at hst
        rcases hst with h' | h' <;> cases h'
      · exact absurd (h.scheduled.seat_unique hb' hd) hdc

end Orderly

namespace Kernel

def dispatched (k : Kernel) (c : Cpu) (id : Env.Id) : Kernel :=
  { k with
    envs := (madeRoom k.envs (k.currentOf c) id).update id (promoted c)
    current := k.current.setIfInBounds c.index (some id)
    progress := k.progress + 1
    journal := k.journal.record (.dispatched c id) }

end Kernel

/-- Dispatching an environment that is runnable, or that is idle and runs here already, keeps the order. -/
theorem Orderly.dispatched (h : Orderly n k b x) (hs : LastHere k b c) (hc : c.index < k.current.size)
    (hf : k.envs.find? id = some e) (hr : e.status = .runnable ∨ e.status = .running ∧ b c = some id)
    (hk : e.kind = .idle → c.index = id.index) :
    Orderly n (k.dispatched c id) (Function.update b c (some id)) x := by
  cases hl : k.currentOf c with
  | none =>
    have hb := h.empty_of_none hl
    have h₁ := h.promote (p := k.progress + 1) (j := k.journal.record (.dispatched c id)) hf hc hr
      (fun j hj => by rw [hb] at hj; cases hj) hk
    rw [Kernel.dispatched, hl]
    exact h₁
  | some last =>
    by_cases hne : last ≠ id
    · have h₁ := h.demote hl hs
      have hfind : (k.envs.update last Kernel.demoted).find? id = some e := by
        rw [find?_update fun e _ => Kernel.title_demoted e, if_neg (Ne.symm hne), hf]
      have hr₁ : e.status = .runnable := by
        rcases hr with hr | ⟨-, hb⟩
        · exact hr
        · exact absurd (h.last_of_seat hl hb).symm hne
      have h₂ := h₁.promote (p := k.progress + 1) (j := k.journal.record (.dispatched c id)) hfind hc (.inl hr₁)
        (fun j hj => by rw [Function.update_self] at hj; cases hj) hk
      rw [Function.update_idem] at h₂
      rw [Kernel.dispatched, hl, Kernel.madeRoom, if_pos hne]
      exact h₂
    · have h₁ := h.promote (p := k.progress + 1) (j := k.journal.record (.dispatched c id)) hf hc hr
        (fun j hj => (h.last_of_seat hl hj).trans (not_not.mp hne)) hk
      rw [Kernel.dispatched, hl, Kernel.madeRoom, if_neg hne]
      exact h₁

namespace Kernel

theorem find?_dispatched (hf : k.envs.find? id = some e) (j : Env.Id) :
    (k.dispatched c id).envs.find? j =
      if j = id then some (promoted c e)
      else (k.envs.find? j).map fun y => if k.currentOf c = some j then demoted y else y := by
  have hself : ∀ i, (madeRoom k.envs (k.currentOf c) id).find? i =
      (k.envs.find? i).map fun y => if i ≠ id ∧ k.currentOf c = some i then demoted y else y := by
    intro i
    cases hl : k.currentOf c with
    | none => simp [madeRoom]
    | some last =>
      by_cases hne : last ≠ id
      · rw [madeRoom, if_pos hne, find?_update fun e _ => title_demoted e]
        by_cases hi : i = last
        · subst hi
          simp [hne]
        · simp [hi, Ne.symm hi]
      · obtain rfl := not_not.mp hne
        rw [madeRoom, if_neg hne]
        by_cases hi : i = last
        · simp [hi]
        · simp [Ne.symm hi]
  have hp : ∀ e : Env, e.isFree = false → (promoted c e).title = e.title := fun e he => title_promoted he
  show ((madeRoom k.envs (k.currentOf c) id).update id (promoted c)).find? j = _
  rw [find?_update hp, hself, hself, hf]
  by_cases hj : j = id
  · simp [hj]
  · simp [hj]

def scanStart (k : Kernel) (c : Cpu) : Nat :=
  match k.currentOf c with
  | some id => id.index + 1
  | none => 0

def offered (k : Kernel) (i : Nat) : Option Env.Id :=
  match k.envs.slot? i with
  | some e => if e.isCandidate then some e.id else none
  | none => none

theorem pick_eq : k.pick c = (List.range k.envs.capacity).findSome? fun i =>
    k.offered ((k.scanStart c + i) % k.envs.capacity) := rfl

theorem offered_spec {i : Nat} (ht : k.envs.Indexed) (h : k.offered i = some id) :
    ∃ e, k.envs.find? id = some e ∧ id.index = i ∧ e.status = .runnable ∧ e.kind ≠ .idle := by
  unfold offered at h
  split at h
  · next e hs =>
    by_cases hc : e.isCandidate = true
    · rw [if_pos hc] at h
      obtain rfl := Option.some.inj h
      simp only [Env.isCandidate, Bool.and_eq_true, beq_iff_eq, bne_iff_ne] at hc
      have hlive : e.isFree = false := by simp [Env.isFree, hc.1]
      exact ⟨e, ht.find?_of_slot? hs hlive, ht i e hs hlive, hc.1, hc.2⟩
    · rw [if_neg hc] at h
      cases h
  · cases h

theorem pick_spec (ht : k.envs.Indexed) (h : k.pick c = some id) :
    ∃ e, k.envs.find? id = some e ∧ e.status = .runnable ∧ e.kind ≠ .idle := by
  obtain ⟨i, -, hi⟩ := List.exists_of_findSome?_eq_some (pick_eq ▸ h)
  obtain ⟨e, hf, -, hr, hk⟩ := offered_spec ht hi
  exact ⟨e, hf, hr, hk⟩

theorem idleOf_of_find? (hf : k.envs.find? id = some e) (hi : id.index = c.index) (hk : e.kind = .idle)
    (hs : e.status = .runnable ∨ e.status = .running) : k.idleOf c = some id := by
  rw [idleOf, ← hi, slot?_of_find? hf]
  simp only [if_pos (And.intro hk hs), id_of_find? hf]

/-- The idle environment of a CPU is there, and runs nowhere else. -/
theorem idleOf_spec (h : Orderly n k b x) (hc : c.index < k.current.size) :
    ∃ id e, k.idleOf c = some id ∧ k.envs.find? id = some e ∧ e.kind = .idle ∧ c.index = id.index ∧
      (e.status = .runnable ∨ e.status = .running ∧ b c = some id) := by
  obtain ⟨id, e, hi, hf, hk⟩ := h.scheduled.idle c hc
  have hfit := h.scheduled.fit id e hf
  have hid := id_of_find? hf
  refine ⟨id, e, idleOf_of_find? hf hi hk ((hfit.idle hk).2.2.imp_right And.left), hf, hk, hi.symm, ?_⟩
  rcases (hfit.idle hk).2.2 with hr | ⟨hr, c', hc', hi'⟩
  · exact .inl hr
  · obtain ⟨d, hd, hb⟩ := hfit.running hr
    rw [hc'] at hd
    obtain rfl := Option.some.inj hd
    rw [hid] at hi' hb
    obtain rfl : c' = c := Cpu.index_inj (hi'.trans hi)
    exact .inr ⟨hr, hb⟩

def vacated (k : Kernel) (c : Cpu) : Env.Table :=
  match k.currentOf c with
  | none => k.envs
  | some last => k.envs.update last demoted

theorem find?_vacated (j : Env.Id) : (k.vacated c).find? j =
    (k.envs.find? j).map fun y => if k.currentOf c = some j then demoted y else y := by
  unfold vacated
  cases hl : k.currentOf c with
  | none => simp
  | some last =>
    rw [find?_update fun e _ => title_demoted e]
    by_cases hj : j = last
    · subst hj
      simp
    · simp [hj, Ne.symm hj]

theorem park_apply (c : Cpu) (k : Kernel) : ∃ m j, (park c : Action Kernel ε Decision) k =
    .done .monitor { k with envs := k.vacated c, monitor := m, journal := j } := by
  unfold park vacated
  rw [record_bind, Action.state_bind]
  have hl : ({ k with journal := k.journal.record (.noneRunnable c) } : Kernel).currentOf c = k.currentOf c := rfl
  rw [hl]
  cases k.currentOf c with
  | none => exact ⟨_, _, rfl⟩
  | some last => exact ⟨_, _, rfl⟩

theorem schedule_of_pick (h : k.pick c = some id) :
    (schedule c : Action Kernel ε Decision) k = .done (.run id) (k.dispatched c id) := by
  unfold schedule
  rw [Action.state_bind]
  simp only [h]
  exact Action.bind_done (dispatch_apply c id k)

/-- A pass dispatches somebody who can run, or parks the CPU. -/
theorem schedule_cases (h : Orderly n k b x) (hc : c.index < k.current.size) :
    (∃ id e, (schedule c : Action Kernel ε Decision) k = .done (.run id) (k.dispatched c id) ∧
        k.envs.find? id = some e ∧ (e.status = .runnable ∨ e.status = .running ∧ b c = some id) ∧
        (e.kind = .idle → c.index = id.index)) ∨
      ∃ m j, (schedule c : Action Kernel ε Decision) k =
        .done .monitor { k with envs := k.vacated c, monitor := m, journal := j } := by
  cases hp : k.pick c with
  | some id =>
    obtain ⟨e, hf, hr, hk⟩ := pick_spec h.intact.table.indexed hp
    exact .inl ⟨id, e, schedule_of_pick hp, hf, .inl hr, fun hi => absurd hi hk⟩
  | none =>
    unfold schedule
    rw [Action.state_bind]
    simp only [hp]
    by_cases hu : (k.envs.toList.any Env.isUseful) = true
    · obtain ⟨id, e, hid, hf, -, hi, hr⟩ := idleOf_spec h hc
      simp only [if_pos hu, hid]
      exact .inl ⟨id, e, Action.bind_done (dispatch_apply c id k), hf, hr, fun _ => hi⟩
    · simp only [if_neg hu]
      exact .inr (park_apply c k)

end Kernel

theorem Orderly.vacated (h : Orderly n k b x) (hs : LastHere k b c) {m : Monitor} {j : Journal} :
    Orderly n { k with envs := k.vacated c, monitor := m, journal := j } (Function.update b c none) x := by
  unfold Kernel.vacated
  cases hl : k.currentOf c with
  | none =>
    rw [update_none_of_empty (h.empty_of_none hl)]
    exact ⟨h.intact, h.scheduled, h.counted⟩
  | some last =>
    have h₁ := h.demote hl hs
    exact ⟨h₁.intact, h₁.scheduled, h₁.counted⟩

end Exokernel
