import Exokernel.Proofs.Kernel.Upkeep

/-!
# Counting the senders that wait

Every environment counts the senders that are parked on it. The count never exceeds the number of parked
environments in the table, so that it fits any range that the slots fit.
-/

set_option autoImplicit false

namespace Exokernel.Env.Table

variable {t t' : Table} {id target caller : Id} {e : Env} {f g : Env → Env}

def parkedCount (t : Table) (id : Id) : Nat := tally (fun e => if e.isParkedOn id then 1 else 0) t.slots

def Counted (t : Table) : Prop := ∀ id e, t.find? id = some e → e.waiting ≤ t.parkedCount id

theorem not_parkedOn_other {j : Id} (hp : e.isParkedOn target = true) (hj : j ≠ target) : e.isParkedOn j = false := by
  simp only [isParkedOn, Bool.and_eq_true] at hp
  cases ho : e.outbox with
  | none => simp [ho] at hp
  | some p =>
    rw [ho] at hp
    obtain rfl : p.target = target := by simpa using hp.2
    simpa [isParkedOn, ho] using fun _ => Ne.symm hj

theorem parkedCount_le (t : Table) (id : Id) : t.parkedCount id ≤ t.capacity := by
  apply tally_le_size
  intro i e _
  split
  · exact Nat.le_refl 1
  · exact Nat.zero_le 1

theorem Counted.waiting_le (h : t.Counted) (ht : t.Sound) (hf : t.find? id = some e) : e.waiting ≤ slotLimit := by
  have hle := parkedCount_le t id
  have hcap := ht.capacity
  have hw := h id e hf
  omega

theorem parkedCount_update (hf : t.find? id = some e) (j : Id) :
    (t.update id f).parkedCount j + (if e.isParkedOn j then 1 else 0) =
      t.parkedCount j + if (f e).isParkedOn j then 1 else 0 :=
  tally_update (fun e => if e.isParkedOn j then 1 else 0) hf

theorem parkedCount_update_of_same (htitle : ∀ e, e.isFree = false → (f e).title = e.title)
    (ho : ∀ e, (f e).outbox = e.outbox) (j : Id) : (t.update id f).parkedCount j = t.parkedCount j := by
  cases hf : t.find? id with
  | none => rw [update_of_none hf]
  | some e =>
    have h := parkedCount_update (f := f) hf j
    have hp : (f e).isParkedOn j = e.isParkedOn j := by
      rw [isParkedOn, isParkedOn, ho, (title_eq.mp (htitle e (live_of_find? hf))).2.2.1]
    rw [hp] at h
    omega

theorem Counted.touch (h : t.Counted) (htitle : ∀ e, e.isFree = false → (f e).title = e.title)
    (hw : ∀ e, (f e).waiting = e.waiting) (ho : ∀ e, (f e).outbox = e.outbox) : (t.update id f).Counted := by
  intro j y hy
  rw [parkedCount_update_of_same htitle ho]
  rw [find?_update htitle] at hy
  split at hy
  · next hj =>
    obtain ⟨e, hf, rfl⟩ := Option.map_eq_some_iff.mp hy
    rw [hw, hj]
    exact h id e hf
  · exact h j y hy

/-- One more for the target, and a sender that parks on it. -/
theorem Counted.owe (h : t.Counted) (hne : caller ≠ target) (hf : t.find? caller = some e) (ho : e.outbox = none)
    (htitle : ∀ e, e.isFree = false → (g e).title = e.title) (hw : ∀ e, (g e).waiting = e.waiting)
    (hp : (g e).isParkedOn target = true) :
    ((t.update target fun e => { e with waiting := e.waiting + 1 }).update caller g).Counted := by
  intro j y hy
  have hf₁ : (t.update target fun e => { e with waiting := e.waiting + 1 }).find? caller = some e := by
    rw [find?_update title_owed, if_neg hne, hf]
  have hsame : (t.update target fun e => { e with waiting := e.waiting + 1 }).parkedCount j = t.parkedCount j :=
    parkedCount_update_of_same title_owed (fun _ => rfl) j
  have hcount := parkedCount_update (f := g) hf₁ j
  have hbefore : e.isParkedOn j = false := by simp [isParkedOn, ho]
  rw [hsame, hbefore, if_neg (by simp)] at hcount
  rw [find?_update htitle, hf₁] at hy
  by_cases hj : j = caller
  · rw [if_pos hj] at hy
    obtain rfl := Option.some.inj hy
    have hle := h caller e hf
    rw [hw]
    rw [hj] at hcount ⊢
    omega
  · rw [if_neg hj, find?_update title_owed] at hy
    by_cases hj' : j = target
    · rw [if_pos hj'] at hy
      obtain ⟨x, hx, rfl⟩ := Option.map_eq_some_iff.mp hy
      have hle := h target x hx
      rw [hj'] at hcount ⊢
      rw [if_pos hp] at hcount
      show x.waiting + 1 ≤ _
      omega
    · rw [if_neg hj'] at hy
      have hle := h j y hy
      omega

/-- A sender that no longer parks, and one less for its target. -/
theorem Counted.settle (h : t.Counted) (hf : t.find? id = some e) (hp : e.isParkedOn target = true) :
    ((t.update id fun e => { e with outbox := none }).update target fun e =>
      { e with waiting := e.waiting - 1 }).Counted := by
  intro j y hy
  have hcount := parkedCount_update (f := fun e => { e with outbox := none }) hf j
  have hafter : ({ e with outbox := none } : Env).isParkedOn j = false := by simp [isParkedOn]
  simp only [hafter, Bool.false_eq_true, if_false] at hcount
  have hsame : ((t.update id fun e => { e with outbox := none }).update target fun e =>
      { e with waiting := e.waiting - 1 }).parkedCount j =
      (t.update id fun e => { e with outbox := none }).parkedCount j :=
    parkedCount_update_of_same title_settled (fun _ => rfl) j
  rw [hsame]
  -- The first change touches no count.
  have hw : ∀ x, (t.update id fun e => { e with outbox := none }).find? j = some x → x.waiting ≤ t.parkedCount j := by
    intro x hx
    rw [find?_update title_cleared] at hx
    split at hx
    · next hj =>
      rw [hj]
      obtain ⟨x₀, hx₀, rfl⟩ := Option.map_eq_some_iff.mp hx
      exact h id x₀ hx₀
    · exact h j x hx
  rw [find?_update title_settled] at hy
  by_cases hj : j = target
  · rw [if_pos hj, ← hj] at hy
    obtain ⟨x, hx, rfl⟩ := Option.map_eq_some_iff.mp hy
    have hle := hw x hx
    rw [hj, if_pos hp, ← hj] at hcount
    show x.waiting - 1 ≤ _
    omega
  · rw [if_neg hj] at hy
    have hle := hw y hy
    rw [not_parkedOn_other hp hj, if_neg (by simp)] at hcount
    omega

theorem counted_withdrawn (h : t.Counted) (hf : t.find? id = some e) : (t.withdrawn id e.outbox).Counted := by
  cases ho : e.outbox with
  | none => exact h
  | some p =>
    apply h.settle hf
    simp [isParkedOn, live_of_find? hf, ho]

theorem parkedCount_unparkAll {j : Id} (hj : j ≠ id) : (t.unparkAll id).parkedCount j = t.parkedCount j := by
  apply tally_eq_tally
  intro i
  have hs : (t.unparkAll id).slot? i = (t.slot? i).map (unparkFrom id) := slot?_unparkAll i
  simp only [Table.slot?] at hs
  rw [hs, Option.map_map]
  cases t.slots[i]? with
  | none => rfl
  | some e =>
    simp only [Option.map_some, Function.comp]
    by_cases hp : e.isParkedOn id = true
    · rw [unparkFrom, if_pos hp, not_parkedOn_other hp hj]
      simp [isParkedOn, unpark]
    · rw [unparkFrom, if_neg hp]

theorem waiting_unparkFrom (target : Id) (e : Env) : (e.unparkFrom target).waiting = e.waiting := by
  unfold unparkFrom
  split <;> rfl

theorem outbox_unparkFrom (ho : e.outbox = none) : (e.unparkFrom target).outbox = none := by
  unfold unparkFrom
  split
  · rfl
  · exact ho

theorem parkedCount_vacate (hf : t.find? id = some e) (ho : e.outbox = none) (j : Id) :
    (t.vacate id.index).parkedCount j = t.parkedCount j := by
  have h := tally_modify (fun e => if e.isParkedOn j then 1 else 0)
    (fun e => e.vacated t.freeHead) (slot?_of_find? hf)
  have hp : e.isParkedOn j = false := by simp [isParkedOn, ho]
  rw [hp] at h
  exact h

theorem find?_withdrawn_self (hf : t.find? id = some e) :
    ∃ e', (t.withdrawn id e.outbox).find? id = some e' ∧ e'.outbox = none := by
  cases ho : e.outbox with
  | none => exact ⟨e, hf, ho⟩
  | some p =>
    have hf₁ : (t.update id fun e => { e with outbox := none }).find? id = some { e with outbox := none } := by
      rw [find?_update title_cleared, if_pos rfl, hf]
      rfl
    have hw : t.withdrawn id (some p) = (t.update id fun e => { e with outbox := none }).update p.target fun x =>
        { x with waiting := x.waiting - 1 } := rfl
    rw [hw, find?_update title_settled]
    split
    · next hp =>
      rw [← hp, hf₁]
      exact ⟨_, rfl, rfl⟩
    · exact ⟨_, hf₁, rfl⟩

theorem counted_released (h : t.Counted) (hf : t.find? id = some e) : (t.released id e).Counted := by
  have h₁ := counted_withdrawn h hf
  obtain ⟨e₁, hf₁, ho₁⟩ := find?_withdrawn_self hf
  -- Up to the vacated slot, waking leaves the counts of all others right.
  have h₂ : ∀ j y, j ≠ id → ((t.withdrawn id e.outbox).settledFor id).find? j = some y →
      y.waiting ≤ ((t.withdrawn id e.outbox).settledFor id).parkedCount j := by
    intro j y hj hy
    unfold settledFor at hy ⊢
    split at hy
    · next hw =>
      rw [if_pos hw, parkedCount_unparkAll hj]
      rw [find?_unparkAll] at hy
      obtain ⟨x, hx, rfl⟩ := Option.map_eq_some_iff.mp hy
      rw [waiting_unparkFrom]
      exact h₁ j x hx
    · next hw =>
      rw [if_neg hw]
      exact h₁ j y hy
  obtain ⟨e₂, hf₂, ho₂⟩ : ∃ e₂, ((t.withdrawn id e.outbox).settledFor id).find? id = some e₂ ∧ e₂.outbox = none := by
    unfold settledFor
    split
    · rw [find?_unparkAll, hf₁]
      exact ⟨_, rfl, outbox_unparkFrom ho₁⟩
    · exact ⟨e₁, hf₁, ho₁⟩
  intro j y hy
  rw [released] at hy ⊢
  rw [parkedCount_vacate hf₂ ho₂]
  rw [find?_vacate hf₂] at hy
  split at hy
  · cases hy
  · next hj => exact h₂ j y hj hy

theorem counted_occupy {index : Nat} {parent : Id} {kind : Kind} {space : Handle} (h : t.Counted)
    (ht : t.Sound) (hfree : t.freeHead = some index) : (t.occupy index parent kind space).2.Counted := by
  obtain ⟨e, he, hfr⟩ := ht.head_free hfree
  intro j y hy
  have hcount := tally_set (fun e => if e.isParkedOn j then 1 else 0)
    (fresh (t.occupy index parent kind space).1 parent kind space) he
  have hold : e.isParkedOn j = false := by simp [isParkedOn, hfr]
  have hnew : (fresh (t.occupy index parent kind space).1 parent kind space).isParkedOn j = false := by
    simp [isParkedOn, fresh]
  rw [hold, hnew] at hcount
  have hsame : (t.occupy index parent kind space).2.parkedCount j = t.parkedCount j := hcount
  rw [hsame]
  rw [find?_occupy ht hfree] at hy
  split at hy
  · obtain rfl := Option.some.inj hy
    exact Nat.zero_le _
  · exact h j y hy

end Exokernel.Env.Table
