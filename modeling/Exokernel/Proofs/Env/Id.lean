import Exokernel.Abi

/-!
# The parts of an id

A slot number and a generation in their ranges make an id that fits a non-negative 32-bit number and gives both
parts back.
-/

set_option autoImplicit false

namespace Exokernel.Env.Id

variable {a b : Id} {index generation : Nat}

theorem index_lt (a : Id) : a.index < slotLimit := Nat.mod_lt _ (by decide)

theorem raw_eq (a : Id) : a.raw.toNat = a.generation * slotLimit + a.index := (Nat.div_add_mod' _ _).symm

theorem raw_ofParts (hi : index < slotLimit) (hg : generation < generationLimit) :
    (ofParts index generation).raw.toNat = generation * slotLimit + index := by
  have hm : generation * slotLimit + index < 0x100000000 := by
    simp only [slotLimit, generationLimit] at *
    omega
  simp only [ofParts, Nat.mod_eq_of_lt hi, UInt32.toNat_ofNat']
  exact Nat.mod_eq_of_lt hm

theorem index_ofParts (hi : index < slotLimit) (hg : generation < generationLimit) :
    (ofParts index generation).index = index := by
  rw [Id.index, raw_ofParts hi hg, Nat.mul_add_mod', Nat.mod_eq_of_lt hi]

theorem generation_ofParts (hi : index < slotLimit) (hg : generation < generationLimit) :
    (ofParts index generation).generation = generation := by
  rw [Id.generation, raw_ofParts hi hg]
  simp only [slotLimit] at *
  omega

theorem ne_self (h : 1 ≤ a.generation) : a ≠ self := by
  rintro rfl
  exact absurd h (by decide)

theorem not_isSelf (h : 1 ≤ a.generation) : a.isSelf = false := by
  have hne := ne_self h
  cases a
  simpa [isSelf, self] using hne

theorem raw_lt (h : a.generation < generationLimit) : a.raw.toNat < 0x80000000 := by
  have hi := index_lt a
  rw [raw_eq]
  simp only [slotLimit, generationLimit] at *
  omega

theorem ofWord?_toWord (h : a.generation < generationLimit) : ofWord? a.toWord = some a := by
  have hr : a.toWord.toNat < 0x80000000 := by
    rw [toWord, UInt32.toNat_toUInt64]
    exact raw_lt h
  rw [ofWord?, if_pos hr, ofWord, toWord, UInt32.toUInt32_toUInt64]

theorem ofParts_spec (hi : index < slotLimit) (hpos : 1 ≤ generation) (hg : generation < generationLimit) :
    (ofParts index generation).index = index ∧ 1 ≤ (ofParts index generation).generation ∧
      (ofParts index generation).generation < generationLimit := by
  rw [generation_ofParts hi hg]
  exact ⟨index_ofParts hi hg, hpos, hg⟩

theorem next_spec (last : Id) (hi : index < slotLimit) :
    (next last index).index = index ∧ 1 ≤ (next last index).generation ∧
      (next last index).generation < generationLimit := by
  unfold next
  split
  · next h => exact ofParts_spec hi (Nat.le_add_left 1 last.generation) h
  · exact ofParts_spec hi (Nat.le_refl 1) (by decide)

theorem generation_next {last : Id} (hi : index < slotLimit) (h : last.generation + 1 < generationLimit) :
    (next last index).generation = last.generation + 1 := by
  rw [next, if_pos h, generation_ofParts hi h]

end Exokernel.Env.Id
