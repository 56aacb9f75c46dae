import Exokernel.Proofs.Env.Waiting
import Exokernel.Proofs.Ipc.Deeds

/-!
# Exact counts of waiting senders

Every environment counts just the senders that are parked on it, and whoever is parked waits for somebody else who is
there to fetch the message. A count has then room for one more, and there is something to take off whenever a message
is taken over.
-/

set_option autoImplicit false

namespace Exokernel

namespace Env

open Table

def dues (e : Env) : (Id × Option Handle × Bool × Option Nat) × Nat × Option Parcel := (e.title, e.waiting, e.outbox)

theorem dues_eq {e e' : Env} :
    e'.dues = e.dues ↔ e'.title = e.title ∧ e'.waiting = e.waiting ∧ e'.outbox = e.outbox := by
  simp [dues]

theorem isParkedOn_of_dues {e e' : Env} (h : e'.dues = e.dues) (j : Id) : e'.isParkedOn j = e.isParkedOn j := by
  obtain ⟨ht, -, ho⟩ := dues_eq.mp h
  rw [isParkedOn, isParkedOn, ho, (title_eq.mp ht).2.2.1]

theorem isParkedOn_iff {e : Env} {j : Id} : e.isParkedOn j = true ↔
    e.isFree = false ∧ ∃ p, e.outbox = some p ∧ p.target = j := by
  rw [isParkedOn, Bool.and_eq_true, Bool.not_eq_true', Option.any_eq_true]
  simp

namespace Table

structure Exact (t : Table) : Prop where
  count : ∀ id e, t.find? id = some e → e.waiting = t.parkedCount id
  addressed : ∀ id e p, t.find? id = some e → e.outbox = some p →
    p.target ≠ id ∧ ∃ x, t.find? p.target = some x

variable {t t' : Table} {id j target caller sender : Id} {e x : Env} {f : Env → Env} {p : Parcel} {answer : Word}

theorem exact_ofCapacity (slots : Nat) : (ofCapacity slots).Exact := by
  have hnone : ∀ id e, (ofCapacity slots).find? id ≠ some e := fun id e hf => by
    cases (find?_ofCapacity slots id).symm.trans hf
  exact ⟨fun id e hf => absurd hf (hnone id e), fun id e _ hf => absurd hf (hnone id e)⟩

theorem parkedCount_pos (hf : t.find? id = some e) (ho : e.outbox = some p) : 0 < t.parkedCount p.target := by
  have hs : t.slots[id.index]? = some e := slot?_of_find? hf
  have hle := le_tally (fun e => if e.isParkedOn p.target then 1 else 0) hs
  have hp : e.isParkedOn p.target = true := isParkedOn_iff.mpr ⟨live_of_find? hf, p, ho, rfl⟩
  simp only [hp, if_true] at hle
  exact hle

theorem parkedCount_eq_zero (h : ∀ id e p, t.find? id = some e → e.outbox = some p → p.target ≠ j) (ht : t.Sound) :
    t.parkedCount j = 0 := by
  apply tally_eq_zero
  intro i e hs
  by_contra hp
  have hp : e.isParkedOn j = true := by simpa using hp
  obtain ⟨hl, p, ho, hj⟩ := isParkedOn_iff.mp hp
  exact h e.id e p (ht.find?_of_slot? hs hl) ho hj

theorem Exact.counted_for (h : t.Exact) (hf : t.find? id = some e) (ho : e.outbox = some p) :
    p.target ≠ id ∧ ∃ x, t.find? p.target = some x ∧ 0 < x.waiting := by
  obtain ⟨hne, x, hx⟩ := h.addressed id e p hf ho
  refine ⟨hne, x, hx, ?_⟩
  rw [h.count _ x hx]
  exact parkedCount_pos hf ho

theorem Exact.not_parkedOn_self (h : t.Exact) (hf : t.find? id = some e) : e.isParkedOn id = false := by
  by_contra hp
  obtain ⟨-, p, ho, htarget⟩ := isParkedOn_iff.mp (Bool.not_eq_false _ ▸ hp)
  exact (h.counted_for hf ho).1 htarget

theorem Exact.not_parkedOn (h : t.Exact) (hw : ¬0 < ((t.find? j).map Env.waiting).getD 0) (hf : t.find? id = some e) :
    e.isParkedOn j = false := by
  by_contra hp
  obtain ⟨-, p, ho, rfl⟩ := isParkedOn_iff.mp (Bool.not_eq_false _ ▸ hp)
  obtain ⟨-, x, hx, hpos⟩ := h.counted_for hf ho
  rw [hx] at hw
  exact hw hpos

theorem Exact.room (h : t.Exact) (ht : t.Sound) (hf : t.find? id = some e) : e.waiting + 1 < countLimit := by
  have hle := parkedCount_le t id
  have hcap := ht.capacity
  rw [h.count id e hf]
  simp only [slotLimit, countLimit] at *
  omega

section dues

variable (hd : ∀ i, (t'.slot? i).map dues = (t.slot? i).map dues)
include hd

theorem find?_of_dues (hf : t.find? id = some e) : ∃ e', t'.find? id = some e' ∧ e'.dues = e.dues :=
  find?_of_slots (fun _ _ he => (dues_eq.mp he).1) hd hf

theorem parkedCount_of_dues (j : Id) : t'.parkedCount j = t.parkedCount j := by
  apply tally_eq_tally
  intro i
  refine map_of_map (fun e e' he => ?_) (hd i)
  rw [isParkedOn_of_dues he]

theorem Exact.same (h : t.Exact) : t'.Exact := by
  have hback : ∀ id e', t'.find? id = some e' → ∃ e, t.find? id = some e ∧ e'.dues = e.dues := by
    intro id e' hf'
    obtain ⟨e, hf, he⟩ := find?_of_dues (fun i => (hd i).symm) hf'
    exact ⟨e, hf, he.symm⟩
  refine ⟨fun id e' hf' => ?_, fun id e' p hf' ho' => ?_⟩
  · obtain ⟨e, hf, he⟩ := hback id e' hf'
    rw [(dues_eq.mp he).2.1, parkedCount_of_dues hd]
    exact h.count id e hf
  · obtain ⟨e, hf, he⟩ := hback id e' hf'
    obtain ⟨hne, x, hx⟩ := h.addressed id e p hf ((dues_eq.mp he).2.2.symm.trans ho')
    obtain ⟨x', hx', -⟩ := find?_of_dues hd hx
    exact ⟨hne, x', hx'⟩

end dues

theorem dues_update (hf : ∀ e, e.isFree = false → (f e).dues = e.dues) (i : Nat) :
    ((t.update id f).slot? i).map dues = (t.slot? i).map dues := by
  cases h : t.find? id with
  | none => rw [update_of_none h]
  | some e =>
    rw [slot?_update h]
    split
    · next hi =>
      rw [hi, slot?_of_find? h]
      exact congrArg some (hf e (live_of_find? h))
    · rfl

theorem Exact.touch (h : t.Exact) (hf : ∀ e, e.isFree = false → (f e).dues = e.dues) : (t.update id f).Exact :=
  h.same (dues_update hf)

/-- A parcel for `target` counts for it and for nobody else. -/
theorem parkedCount_parked (hf : t.find? caller = some e) (ho : e.outbox = none) (hp : p.target = target) (j : Id) :
    (t.update caller fun e => { e with outbox := some p, status := .notRunnable, cpu := none }).parkedCount j =
      t.parkedCount j + if j = target then 1 else 0 := by
  have hparks := parkedCount_update
    (f := fun e => { e with outbox := some p, status := .notRunnable, cpu := none }) hf j
  have hbefore : e.isParkedOn j = false := by simp [isParkedOn, ho]
  have hafter : ({ e with outbox := some p, status := .notRunnable, cpu := none } : Env).isParkedOn j = true ↔
      j = target := by
    rw [isParkedOn_iff]
    constructor
    · rintro ⟨-, q, hq, rfl⟩
      cases hq
      exact hp
    · rintro rfl
      exact ⟨rfl, p, rfl, hp⟩
  rw [hbefore] at hparks
  simp only [hafter, Bool.false_eq_true, if_false, Nat.add_zero] at hparks
  exact hparks

/-- Once a sender parked, nobody else has another outbox, and its target alone counts one more. -/
theorem find?_owed_inv {y : Env} (hf : t.find? caller = some e) (hne : target ≠ caller)
    (hy : ((t.update target fun e => { e with waiting := e.waiting + 1 }).update caller fun e =>
      { e with outbox := some p, status := .notRunnable, cpu := none }).find? j = some y) :
    (j = caller ∧ y = { e with outbox := some p, status := .notRunnable, cpu := none }) ∨
      ∃ y₀, t.find? j = some y₀ ∧ y.waiting = y₀.waiting + (if j = target then 1 else 0) ∧ y.outbox = y₀.outbox := by
  rw [find?_update title_parked] at hy
  split at hy
  · next hj =>
    rw [find?_update_of_ne title_owed (Ne.symm hne), hf] at hy
    exact .inl ⟨hj, (Option.some.inj hy).symm⟩
  · rw [find?_update title_owed] at hy
    right
    split at hy
    · next hj =>
      obtain ⟨y₀, hy₀, rfl⟩ := Option.map_eq_some_iff.mp hy
      exact ⟨y₀, hj ▸ hy₀, by rw [if_pos hj], rfl⟩
    · next hj => exact ⟨y, hy, by rw [if_neg hj, Nat.add_zero], rfl⟩

/-- A sender parks: one more for its target. -/
theorem Exact.owe (h : t.Exact) (msg : Message) (hf : t.find? caller = some e) (ho : e.outbox = none)
    (hx : t.find? target = some x) (hne : target ≠ caller) :
    ((t.update target fun e => { e with waiting := e.waiting + 1 }).update caller fun e =>
      { e with outbox := some { msg with target }, status := .notRunnable, cpu := none }).Exact := by
  generalize hp : ({ msg with target } : Parcel) = p
  have htarget : p.target = target := by rw [← hp]
  have hf₁ : (t.update target fun e => { e with waiting := e.waiting + 1 }).find? caller = some e :=
    (find?_update_of_ne title_owed (Ne.symm hne)).trans hf
  refine ⟨fun j y hy => ?_, fun j y q hy hq => ?_⟩
  · rw [parkedCount_parked hf₁ ho htarget, parkedCount_update_of_same title_owed (fun _ => rfl)]
    rcases find?_owed_inv hf hne hy with ⟨rfl, rfl⟩ | ⟨y₀, hy₀, hwaiting, -⟩
    · rw [if_neg (Ne.symm hne)]
      exact h.count j e hf
    · rw [hwaiting, h.count j y₀ hy₀]
  · have hlive : ∀ i z, t.find? i = some z → ∃ z', ((t.update target fun e =>
        { e with waiting := e.waiting + 1 }).update caller fun e =>
          { e with outbox := some p, status := .notRunnable, cpu := none }).find? i = some z' := by
      intro i z hz
      obtain ⟨z', hz', -⟩ := ((touched_update title_owed).trans (touched_update title_parked)).find? hz
      exact ⟨z', hz'⟩
    rcases find?_owed_inv hf hne hy with ⟨rfl, rfl⟩ | ⟨y₀, hy₀, -, houtbox⟩
    · cases hq
      rw [htarget]
      exact ⟨hne, hlive target x hx⟩
    · obtain ⟨hne', z, hz⟩ := h.addressed j y₀ q hy₀ (houtbox.symm.trans hq)
      exact ⟨hne', hlive _ z hz⟩

section relieved

variable (hf : t.find? sender = some e) (ho : e.outbox = some p) (hp : p.target = caller)
include hf ho hp

theorem parkedCount_relieved (j : Id) :
    (t.relieved caller sender).parkedCount j + (if j = caller then 1 else 0) = t.parkedCount j := by
  have hsame : (t.relieved caller sender).parkedCount j =
      (t.update sender fun e => { e with outbox := none }).parkedCount j :=
    parkedCount_update_of_same title_settled (fun _ => rfl) j
  have hcleared := parkedCount_update (f := fun e => { e with outbox := none }) hf j
  have hafter : ({ e with outbox := none } : Env).isParkedOn j = false := by simp [isParkedOn]
  have hbefore : e.isParkedOn j = true ↔ j = caller := by
    rw [isParkedOn_iff]
    constructor
    · rintro ⟨-, q, hq, rfl⟩
      rw [ho] at hq
      exact Option.some.inj hq ▸ hp
    · rintro rfl
      exact ⟨live_of_find? hf, p, ho, hp⟩
  rw [hafter] at hcleared
  simp only [hbefore, Bool.false_eq_true, if_false, Nat.add_zero] at hcleared
  rw [hsame, hcleared]

/-- A message is taken over: one less for its target. -/
theorem Exact.relieved (h : t.Exact) : (t.relieved caller sender).Exact := by
  obtain ⟨hne, x, hx, hpos⟩ := h.counted_for hf ho
  rw [hp] at hne hx
  have hlook : ∀ j, (t.relieved caller sender).find? j = if j = caller then some { x with waiting := x.waiting - 1 }
      else if j = sender then some { e with outbox := none } else t.find? j := by
    intro j
    rw [Table.relieved, find?_update title_settled, find?_update_of_ne title_cleared hne, hx,
      find?_update title_cleared, hf]
    rfl
  have hlive : ∀ i z, t.find? i = some z → ∃ z', (t.relieved caller sender).find? i = some z' := by
    intro i z hz
    have hrel : Touched t (t.relieved caller sender) := touched_relieved
    obtain ⟨z', hz', -⟩ := hrel.find? hz
    exact ⟨z', hz'⟩
  refine ⟨fun j y hy => ?_, fun j y q hy hq => ?_⟩
  · have hc := parkedCount_relieved hf ho hp j
    rw [hlook] at hy
    by_cases hj : j = caller
    · rw [if_pos hj] at hy
      cases hy
      rw [if_pos hj, hj, ← h.count caller x hx] at hc
      rw [hj]
      show x.waiting - 1 = _
      omega
    · rw [if_neg hj] at hy hc
      rw [Nat.add_zero] at hc
      rw [hc]
      split at hy
      · next hjs =>
        cases hy
        rw [hjs]
        exact h.count sender e hf
      · exact h.count j y hy
  · rw [hlook] at hy
    obtain ⟨y₀, hy₀, hq₀⟩ : ∃ y₀, t.find? j = some y₀ ∧ y₀.outbox = some q := by
      split at hy
      · next hj =>
        cases hy
        exact ⟨x, hj ▸ hx, hq⟩
      · split at hy
        · cases hy
          cases hq
        · exact ⟨y, hy, hq⟩
    obtain ⟨hne', z, hz⟩ := h.addressed j y₀ q hy₀ hq₀
    exact ⟨hne', hlive _ z hz⟩

end relieved

theorem Exact.woken (h : t.Exact) : (t.woken sender answer).Exact :=
  h.touch fun e hf => dues_eq.mpr ⟨title_woken (g := fun e => e.context.setAnswer answer) e hf, rfl, rfl⟩

theorem Exact.withdrawn (h : t.Exact) (hf : t.find? id = some e) : (t.withdrawn id e.outbox).Exact := by
  cases ho : e.outbox with
  | none => exact h
  | some p => exact h.relieved hf ho rfl

/-- After the senders that wait for `id` were woken, nobody is parked on it, and the others count as before. -/
theorem Exact.settledFor (h : t.Exact) (id : Id) :
    (∀ j y, (t.settledFor id).find? j = some y → j ≠ id → y.waiting = (t.settledFor id).parkedCount j) ∧
      ∀ j y p, (t.settledFor id).find? j = some y → y.outbox = some p →
        p.target ≠ id ∧ p.target ≠ j ∧ ∃ x, (t.settledFor id).find? p.target = some x := by
  have hlive : ∀ i z, t.find? i = some z → ∃ z', (t.settledFor id).find? i = some z' := by
    intro i z hz
    obtain ⟨z', hz', -⟩ := (touched_settledFor t id).find? hz
    exact ⟨z', hz'⟩
  by_cases hw : 0 < ((t.find? id).map Env.waiting).getD 0
  · rw [Table.settledFor, if_pos hw] at hlive ⊢
    refine ⟨fun j y hy hj => ?_, fun j y p hy hp => ?_⟩
    · rw [find?_unparkAll] at hy
      obtain ⟨y₀, hy₀, rfl⟩ := Option.map_eq_some_iff.mp hy
      rw [waiting_unparkFrom, parkedCount_unparkAll hj]
      exact h.count j y₀ hy₀
    · rw [find?_unparkAll] at hy
      obtain ⟨y₀, hy₀, rfl⟩ := Option.map_eq_some_iff.mp hy
      unfold unparkFrom at hp
      split at hp
      · cases hp
      · next hnot =>
        obtain ⟨hne, z, hz⟩ := h.addressed j y₀ p hy₀ hp
        refine ⟨fun hid => hnot ?_, hne, hlive _ z hz⟩
        exact isParkedOn_iff.mpr ⟨live_of_find? hy₀, p, hp, hid⟩
  · rw [Table.settledFor, if_neg hw]
    refine ⟨fun j y hy _ => h.count j y hy, fun j y p hy hp => ?_⟩
    obtain ⟨hne, z, hz, hpos⟩ := h.counted_for hy hp
    refine ⟨fun hid => hw ?_, hne, z, hz⟩
    rw [hid] at hz
    rw [hz]
    exact hpos

/-- A release settles what the environment sent and what was sent to it. -/
theorem Exact.released (h : t.Exact) (hf : t.find? id = some e) : (t.released id e).Exact := by
  obtain ⟨hcount, haddr⟩ := (h.withdrawn hf).settledFor id
  obtain ⟨e₁, hf₁, ho₁⟩ := find?_withdrawn_self hf
  obtain ⟨e₂, hf₂, ho₂⟩ : ∃ e₂, ((t.withdrawn id e.outbox).settledFor id).find? id = some e₂ ∧ e₂.outbox = none := by
    unfold Table.settledFor
    split
    · rw [find?_unparkAll, hf₁]
      exact ⟨_, rfl, outbox_unparkFrom ho₁⟩
    · exact ⟨e₁, hf₁, ho₁⟩
  have hlook := find?_vacate hf₂
  refine ⟨fun j y hy => ?_, fun j y p hy hp => ?_⟩
  · rw [Table.released, hlook] at hy
    rw [Table.released, parkedCount_vacate hf₂ ho₂]
    split at hy
    · cases hy
    · next hj => exact hcount j y hy hj
  · rw [Table.released, hlook] at hy
    split at hy
    · cases hy
    · obtain ⟨hid, hne, z, hz⟩ := haddr j y p hy hp
      refine ⟨hne, z, ?_⟩
      rw [Table.released, hlook, if_neg hid, hz]

theorem Exact.occupy {index : Nat} {parent : Id} {kind : Kind} {space : Handle} (h : t.Exact)
    (ht : t.Sound) (hfree : t.freeHead = some index) : (t.occupy index parent kind space).2.Exact := by
  obtain ⟨old, hold, hfr⟩ := ht.head_free hfree
  have hfresh := find?_occupy_fresh ht hfree parent kind space
  have hlook := find?_occupy ht hfree parent kind space
  have hcount : ∀ j, (t.occupy index parent kind space).2.parkedCount j = t.parkedCount j := by
    intro j
    have hset := tally_set (fun e => if e.isParkedOn j then 1 else 0)
      (fresh (t.occupy index parent kind space).1 parent kind space) hold
    have hbefore : old.isParkedOn j = false := by simp [isParkedOn, hfr]
    have hafter : (fresh (t.occupy index parent kind space).1 parent kind space).isParkedOn j = false := by
      simp [isParkedOn, fresh]
    rw [hbefore, hafter] at hset
    exact hset
  have hunknown : ∀ j y p, t.find? j = some y → y.outbox = some p →
      p.target ≠ (t.occupy index parent kind space).1 := by
    intro j y p hy hp hnew
    obtain ⟨-, x, hx⟩ := h.addressed j y p hy hp
    rw [hnew] at hx
    cases hfresh.symm.trans hx
  refine ⟨fun j y hy => ?_, fun j y p hy hp => ?_⟩
  · rw [hcount]
    rw [hlook] at hy
    split at hy
    · next hj =>
      cases hy
      rw [hj, parkedCount_eq_zero hunknown ht]
      rfl
    · exact h.count j y hy
  · rw [hlook] at hy
    split at hy
    · cases hy
      cases hp
    · obtain ⟨hne, x, hx⟩ := h.addressed j y p hy hp
      refine ⟨hne, x, ?_⟩
      rw [hlook, if_neg (hunknown j y p hy hp), hx]

end Table

end Env

end Exokernel
