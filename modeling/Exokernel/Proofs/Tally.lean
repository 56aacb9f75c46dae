import Mathlib.Algebra.BigOperators.Group.List.Basic
import Mathlib.Algebra.Order.BigOperators.Group.List
import Mathlib.Algebra.Order.Monoid.NatCast
import Mathlib.Algebra.Order.Ring.Nat

/-!
# Sums over the slots of an array

What the slots of an array contribute to a count, and how the count moves when one slot changes.
-/

set_option autoImplicit false

namespace Exokernel

variable {α : Type}

def tally (g : α → Nat) (a : Array α) : Nat := (a.toList.map g).sum

theorem sum_map_set (g : α → Nat) (l : List α) {i : Nat} {x : α} (y : α) (h : l[i]? = some x) :
    ((l.set i y).map g).sum + g x = (l.map g).sum + g y := by
  induction l generalizing i with
  | nil => simp at h
  | cons z l ih =>
    cases i with
    | zero =>
      obtain rfl : z = x := by simpa using h
      simp only [List.set_cons_zero, List.map_cons, List.sum_cons]
      omega
    | succ i =>
      have hi := ih (by simpa using h)
      simp only [List.set_cons_succ, List.map_cons, List.sum_cons]
      omega

theorem tally_set (g : α → Nat) {a : Array α} {i : Nat} {x : α} (y : α) (h : a[i]? = some x) :
    tally g (a.setIfInBounds i y) + g x = tally g a + g y := by
  rw [tally, tally, Array.toList_setIfInBounds]
  exact sum_map_set g a.toList y (by simpa using h)

theorem tally_modify (g : α → Nat) {a : Array α} {i : Nat} {x : α} (f : α → α) (h : a[i]? = some x) :
    tally g (a.modify i f) + g x = tally g a + g (f x) := by
  have hs : a.modify i f = a.setIfInBounds i (f x) := by
    apply Array.ext_getElem?
    intro j
    by_cases hj : i = j
    · subst hj
      obtain ⟨hi, -⟩ := Array.getElem?_eq_some_iff.mp h
      rw [Array.getElem?_setIfInBounds_self_of_lt hi, Array.getElem?_modify, if_pos rfl, h]
      rfl
    · simp [Array.getElem?_modify, hj]
  rw [hs]
  exact tally_set g (f x) h

theorem tally_push (g : α → Nat) (a : Array α) (x : α) : tally g (a.push x) = tally g a + g x := by
  simp [tally]

theorem le_tally (g : α → Nat) {a : Array α} {i : Nat} {x : α} (h : a[i]? = some x) : g x ≤ tally g a := by
  have hx : x ∈ a.toList := by
    obtain ⟨hi, rfl⟩ := Array.getElem?_eq_some_iff.mp h
    simp
  exact List.single_le_sum (by simp) _ (List.mem_map_of_mem hx)

theorem tally_le_tally {g g' : α → Nat} (a : Array α) (h : ∀ (i : Nat) x, a[i]? = some x → g x ≤ g' x) :
    tally g a ≤ tally g' a := by
  apply List.sum_le_sum
  intro x hx
  obtain ⟨i, hi⟩ := List.mem_iff_getElem?.mp hx
  exact h i x (by simpa using hi)

theorem tally_congr {g g' : α → Nat} (a : Array α) (h : ∀ (i : Nat) x, a[i]? = some x → g x = g' x) :
    tally g a = tally g' a :=
  le_antisymm (tally_le_tally a fun i x hi => (h i x hi).le) (tally_le_tally a fun i x hi => (h i x hi).ge)

theorem tally_le_size {g : α → Nat} (a : Array α) (h : ∀ (i : Nat) x, a[i]? = some x → g x ≤ 1) :
    tally g a ≤ a.size := by
  have hle := @tally_le_tally α g (fun _ => 1) a h
  have hone : tally (fun _ : α => 1) a = a.size := by simp [tally]
  omega

theorem tally_eq_tally {β : Type} {g : α → Nat} {g' : β → Nat} {a : Array α} {b : Array β}
    (h : ∀ i : Nat, (a[i]?).map g = (b[i]?).map g') : tally g a = tally g' b := by
  have hl : a.toList.map g = b.toList.map g' := by
    apply List.ext_getElem?
    intro i
    simpa using h i
  rw [tally, tally, hl]

theorem tally_eq_zero {g : α → Nat} {a : Array α} (h : ∀ (i : Nat) x, a[i]? = some x → g x = 0) : tally g a = 0 := by
  rw [tally_congr a h]
  simp [tally]

end Exokernel
