import Exokernel.Proofs.Kernel.Turn
import Mathlib.Data.Nat.ModEq

/-!
# Rotation

A scan goes once around the table. It picks somebody as soon as anybody can run, and whoever it picks instead of a
given candidate brings the next scan closer to that candidate.
-/

set_option autoImplicit false

namespace Exokernel.Kernel

variable {α : Type} {k : Kernel} {c : Cpu} {id j : Env.Id} {e : Env} {f : Nat → Option α} {a : α} {d i m : Nat}

theorem findSome?_range (hd : d < m) (h : f d = some a) :
    ∃ i x, (List.range m).findSome? f = some x ∧ f i = some x ∧ i ≤ d := by
  induction m with
  | zero => exact absurd hd (Nat.not_lt_zero d)
  | succ m ih =>
    rw [List.range_succ, List.findSome?_append]
    cases hfirst : (List.range m).findSome? f with
    | some x =>
      obtain ⟨i, hi, hx⟩ := List.exists_of_findSome?_eq_some hfirst
      by_cases hdm : d < m
      · obtain ⟨i', x', hx', hi', hle⟩ := ih hdm
        rw [hfirst] at hx'
        exact ⟨i', x', hx', hi', hle⟩
      · have him := List.mem_range.mp hi
        exact ⟨i, x, rfl, hx, by omega⟩
    | none =>
      have hdm : d = m := by
        by_contra hne
        obtain ⟨i', x', hx', -⟩ := ih (by omega)
        rw [hfirst] at hx'
        cases hx'
      subst hdm
      exact ⟨d, a, by simp [h], h, Nat.le_refl d⟩

theorem offered_of_find? (hf : k.envs.find? id = some e) (hc : e.isCandidate = true) :
    k.offered id.index = some id := by
  rw [offered, Env.Table.slot?_of_find? hf]
  simp only [hc, if_true, Env.Table.id_of_find? hf]

theorem exists_distance (start : Nat) (hi : i < m) : ∃ d, d < m ∧ (start + d) % m = i := by
  have hpos : 0 < m := Nat.lt_of_le_of_lt (Nat.zero_le i) hi
  have hlt := Nat.mod_lt start hpos
  refine ⟨(i + (m - start % m)) % m, Nat.mod_lt _ hpos, ?_⟩
  have hsum : start % m + (i + (m - start % m)) = i + m := by omega
  rw [Nat.add_mod_mod, ← Nat.mod_add_mod, hsum, Nat.add_mod_right, Nat.mod_eq_of_lt hi]

theorem distance_unique {start : Nat} (hd : d < m) (hi : i < m) (h : (start + d) % m = (start + i) % m) : d = i :=
  (Nat.ModEq.add_left_cancel' start h).eq_of_lt_of_lt hd hi

theorem pick_within (hf : k.envs.find? id = some e) (hc : e.isCandidate = true) (hd : d < k.envs.capacity)
    (hi : (k.scanStart c + d) % k.envs.capacity = id.index) :
    ∃ i j, k.pick c = some j ∧ k.offered ((k.scanStart c + i) % k.envs.capacity) = some j ∧ (j = id ∨ i < d) := by
  have hoffer : k.offered ((k.scanStart c + d) % k.envs.capacity) = some id := by
    rw [hi]
    exact offered_of_find? hf hc
  obtain ⟨i, j, hp, hj, hle⟩ :=
    findSome?_range (f := fun i => k.offered ((k.scanStart c + i) % k.envs.capacity)) hd hoffer
  refine ⟨i, j, hp, hj, ?_⟩
  rcases Nat.lt_or_eq_of_le hle with hlt | rfl
  · exact .inr hlt
  · rw [hoffer] at hj
    exact .inl (Option.some.inj hj).symm

theorem pick_toward (ht : k.envs.Indexed) (hf : k.envs.find? id = some e) (hc : e.isCandidate = true)
    (hd : d < k.envs.capacity) (hi : (k.scanStart c + d) % k.envs.capacity = id.index) :
    ∃ j, k.pick c = some j ∧ (j = id ∨ ∃ d', d' < d ∧ (j.index + 1 + d') % k.envs.capacity = id.index) := by
  obtain ⟨i, j, hp, hj, hcase⟩ := pick_within hf hc hd hi
  refine ⟨j, hp, hcase.imp_right fun hlt => ⟨d - i - 1, by omega, ?_⟩⟩
  obtain ⟨-, -, hji, -⟩ := offered_spec ht hj
  have hsum : k.scanStart c + i + (1 + (d - i - 1)) = k.scanStart c + d := by omega
  rw [hji, Nat.add_assoc, Nat.mod_add_mod, hsum]
  exact hi

end Exokernel.Kernel
