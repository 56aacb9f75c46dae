import Exokernel.Memory.PageTable
import Mathlib.Data.List.Perm.Basic
import Mathlib.Tactic.Ring

/-!
# Ascending maps as multisets of pairs

The strict order of the keys is what makes insertion replace the binding that a look-up finds. Up to the order
of the pairs an insertion adds one pair and takes away the one it replaced; everything that is counted over the
values of a map follows from that.
-/

set_option autoImplicit false

namespace Exokernel.Ascending

variable {α : Type}

def Sorted (m : Ascending α) : Prop := m.Pairwise fun p q => p.1 < q.1

theorem sorted_nil : Sorted ([] : Ascending α) := List.Pairwise.nil

theorem mem_of_find? {key : Nat} {a : α} {m : Ascending α} (h : find? key m = some a) : (key, a) ∈ m := by
  induction m with
  | nil => simp [find?] at h
  | cons p rest ih =>
    rw [find?] at h
    split at h
    · next hk =>
      obtain rfl := Option.some.inj h
      simp [← hk]
    · exact List.mem_cons_of_mem _ (ih h)

theorem find?_eq_none_of_lt {key : Nat} {m : Ascending α} (h : ∀ p ∈ m, key < p.1) : find? key m = none := by
  induction m with
  | nil => rfl
  | cons p rest ih =>
    have hp := h p (by simp)
    rw [find?, if_neg (by omega)]
    exact ih fun q hq => h q (by simp [hq])

theorem mem_insert {key : Nat} {a : α} {m : Ascending α} {p : Nat × α} (h : p ∈ insert key a m) :
    p = (key, a) ∨ p ∈ m := by
  induction m with
  | nil => simpa [insert] using h
  | cons q rest ih =>
    rw [insert] at h
    split at h
    · simpa using h
    · split at h
      · rcases List.mem_cons.mp h with hp | hp
        · exact Or.inl hp
        · exact Or.inr (List.mem_cons_of_mem _ hp)
      · rcases List.mem_cons.mp h with hp | hp
        · exact Or.inr (by simp [hp])
        · rcases ih hp with hi | hi
          · exact Or.inl hi
          · exact Or.inr (List.mem_cons_of_mem _ hi)

theorem sorted_insert {m : Ascending α} (key : Nat) (a : α) (h : Sorted m) : Sorted (insert key a m) := by
  induction m with
  | nil => simp [insert, Sorted]
  | cons q rest ih =>
    obtain ⟨hq, hr⟩ := List.pairwise_cons.mp h
    rw [insert]
    split
    · next hlt =>
      refine List.pairwise_cons.mpr ⟨fun p hp => ?_, h⟩
      rcases List.mem_cons.mp hp with rfl | hp
      · exact hlt
      · exact hlt.trans (hq p hp)
    · split
      · next heq => exact List.pairwise_cons.mpr ⟨fun p hp => heq ▸ hq p hp, hr⟩
      · next hlt hne =>
        refine List.pairwise_cons.mpr ⟨fun p hp => ?_, ih hr⟩
        rcases mem_insert hp with rfl | hp
        · simp only; omega
        · exact hq p hp

theorem erase_sublist (key : Nat) (m : Ascending α) : (erase key m).Sublist m := by
  induction m with
  | nil => exact List.Sublist.slnil
  | cons q rest ih =>
    rw [erase]
    split
    · exact List.sublist_cons_self _ _
    · exact ih.cons_cons q

theorem sorted_erase {m : Ascending α} (key : Nat) (h : Sorted m) : Sorted (erase key m) :=
  List.Pairwise.sublist (erase_sublist key m) h

theorem insert_perm_of_find?_none {key : Nat} {m : Ascending α} (a : α) (h : find? key m = none) :
    (insert key a m).Perm ((key, a) :: m) := by
  induction m with
  | nil => exact List.Perm.refl _
  | cons q rest ih =>
    rw [find?] at h
    split at h
    · simp at h
    · next hne =>
      rw [insert]
      split
      · exact List.Perm.refl _
      · exact ((ih h).cons q).trans (List.Perm.swap _ _ _)

theorem insert_perm_of_find?_some {key : Nat} {b : α} {m : Ascending α} (a : α) (hs : Sorted m)
    (h : find? key m = some b) : ((key, b) :: insert key a m).Perm ((key, a) :: m) := by
  induction m with
  | nil => simp [find?] at h
  | cons q rest ih =>
    obtain ⟨hq, hr⟩ := List.pairwise_cons.mp hs
    rw [insert]
    split
    · next hlt =>
      rw [find?_eq_none_of_lt] at h
      · simp at h
      · intro p hp
        rcases List.mem_cons.mp hp with rfl | hp
        · exact hlt
        · exact hlt.trans (hq p hp)
    · rw [find?] at h
      split
      · next heq =>
        rw [if_pos heq] at h
        obtain rfl := Option.some.inj h
        rw [← heq]
        exact List.Perm.swap _ _ _
      · next hne =>
        rw [if_neg hne] at h
        have hswap := (List.Perm.swap q (key, b) (insert key a rest)).trans ((ih hr h).cons q)
        exact hswap.trans (List.Perm.swap _ _ _)

theorem erase_perm {key : Nat} {b : α} {m : Ascending α} (h : find? key m = some b) :
    ((key, b) :: erase key m).Perm m := by
  induction m with
  | nil => simp [find?] at h
  | cons q rest ih =>
    rw [find?] at h
    rw [erase]
    split
    · next heq =>
      rw [if_pos heq] at h
      obtain rfl := Option.some.inj h
      rw [← heq]
    · next hne =>
      rw [if_neg hne] at h
      exact (List.Perm.swap _ _ _).trans ((ih h).cons q)

theorem erase_eq_self {key : Nat} {m : Ascending α} (h : find? key m = none) : erase key m = m := by
  induction m with
  | nil => rfl
  | cons q rest ih =>
    rw [find?] at h
    split at h
    · simp at h
    · next hne => rw [erase, if_neg hne, ih h]

theorem find?_erase_self {key : Nat} {m : Ascending α} (h : Sorted m) : find? key (erase key m) = none := by
  induction m with
  | nil => rfl
  | cons q rest ih =>
    obtain ⟨hq, hr⟩ := List.pairwise_cons.mp h
    rw [erase]
    split
    · next heq => exact find?_eq_none_of_lt fun p hp => heq ▸ hq p hp
    · next hne => rw [find?, if_neg hne, ih hr]

/-- A map whose keys are multiples of `unit` below `n * unit` has at most `n` pairs. -/
theorem length_le_of_multiples {m : Ascending α} {unit n : Nat} (hs : Sorted m)
    (hm : ∀ p ∈ m, p.1 % unit = 0 ∧ p.1 < n * unit) : m.length ≤ n := by
  -- The keys fill distinct places above the first key of what is left of the map.
  suffices h : ∀ (l : Ascending α) (first : Nat), Sorted l →
      (∀ p ∈ l, p.1 % unit = 0 ∧ first * unit ≤ p.1 ∧ p.1 < n * unit) → l.length ≤ n - first by
    simpa using h m 0 hs fun p hp => ⟨(hm p hp).1, by omega, (hm p hp).2⟩
  intro l
  induction l with
  | nil => simp
  | cons p rest ih =>
    intro first hl hb
    obtain ⟨hp, hr⟩ := List.pairwise_cons.mp hl
    obtain ⟨hpu, hpl, hph⟩ := hb p (by simp)
    have hlt : first < n := Nat.lt_of_mul_lt_mul_right (hpl.trans_lt hph)
    have hrest : rest.length ≤ n - (first + 1) := by
      refine ih (first + 1) hr fun q hq => ?_
      obtain ⟨hqu, -, hqh⟩ := hb q (by simp [hq])
      obtain ⟨i, hi⟩ := Nat.dvd_of_mod_eq_zero hpu
      obtain ⟨j, hj⟩ := Nat.dvd_of_mod_eq_zero hqu
      have hpq := hp q hq
      have hij : i < j := by
        rw [hi, hj] at hpq
        exact Nat.lt_of_mul_lt_mul_left hpq
      have hfi : first ≤ i := by
        rw [hi, Nat.mul_comm unit] at hpl
        exact Nat.le_of_mul_le_mul_right hpl (by
          rcases Nat.eq_zero_or_pos unit with h0 | h0
          · subst h0; omega
          · exact h0)
      refine ⟨hqu, ?_, hqh⟩
      rw [hj, Nat.mul_comm unit]
      exact Nat.mul_le_mul_right unit (by omega)
    simp only [List.length_cons]
    omega

end Exokernel.Ascending
