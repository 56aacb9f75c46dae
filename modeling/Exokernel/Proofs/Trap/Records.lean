import Exokernel.Trap.Context

/-!
# Encoding and decoding fault records

Eight bytes and a word determine each other, and so do the thirteen words of a record and its 104 bytes. Reading a
record off the front of a byte string undoes writing it, whatever follows; and every byte string that is long enough
starts with the encoding of the record that is read off it.
-/

set_option autoImplicit false

namespace Exokernel

namespace Bytes

theorem weight_succ (j : Nat) : Nat.pow 256 (j + 1) = 256 * Nat.pow 256 j := Nat.mul_comm _ _

theorem value_lt (b : Bytes) : value b < Nat.pow 256 b.length := by
  induction b with
  | nil => exact Nat.one_pos
  | cons x b ih =>
    have hx := x.toNat_lt
    rw [List.length_cons, value, weight_succ]
    omega

theorem digits_value (b : Bytes) : digits b.length (value b) = b := by
  induction b with
  | nil => rfl
  | cons x b ih =>
    have hx := x.toNat_lt
    have hlow : (x.toNat + 256 * value b) % 256 = x.toNat := by omega
    have hrest : (x.toNat + 256 * value b) / 256 = value b := by omega
    rw [List.length_cons, value, digits, hlow, hrest, UInt8.ofNat_toNat, ih]

theorem ofWord_toWord {b : Bytes} (h : b.length = 8) : ofWord (toWord b) = b := by
  have hlt : value b < Nat.pow 256 8 := h ▸ value_lt b
  have hback : (UInt64.ofNat (value b)).toNat = value b := UInt64.toNat_ofNat_of_lt' hlt
  rw [toWord, ofWord, hback, ← h, digits_value]

theorem getElem?_digits {count j : Nat} (n : Nat) (h : j < count) :
    (digits count n)[j]? = some (UInt8.ofNat (n / Nat.pow 256 j % 256)) := by
  induction count generalizing n j with
  | zero => exact absurd h (Nat.not_lt_zero j)
  | succ count ih =>
    cases j with
    | zero => rw [digits, List.getElem?_cons_zero, show Nat.pow 256 0 = 1 from rfl, Nat.div_one]
    | succ j =>
      rw [digits, List.getElem?_cons_succ, ih _ (Nat.lt_of_succ_lt_succ h), Nat.div_div_eq_div_mul, weight_succ]

theorem words_flatMap_append (ws : List Word) (t : Bytes) : words ws.length (ws.flatMap ofWord ++ t) = ws := by
  induction ws with
  | nil => rfl
  | cons w ws ih =>
    rw [List.length_cons, words, List.flatMap_cons, List.append_assoc, List.take_left' (length_ofWord w), toWord_ofWord,
      List.drop_left' (length_ofWord w), ih]

theorem flatMap_words {count : Nat} {b : Bytes} (h : 8 * count ≤ b.length) :
    (words count b).flatMap ofWord = b.take (8 * count) := by
  induction count generalizing b with
  | zero => rfl
  | succ count ih =>
    have hhead : (b.take 8).length = 8 := by
      rw [List.length_take]
      omega
    have hrest : 8 * count ≤ (b.drop 8).length := by
      rw [List.length_drop]
      omega
    rw [words, List.flatMap_cons, ofWord_toWord hhead, ih hrest, show 8 * (count + 1) = 8 + 8 * count by omega,
      List.take_add]

theorem length_words (count : Nat) (b : Bytes) : (words count b).length = count := by
  induction count generalizing b with
  | zero => rfl
  | succ count ih => rw [words, List.length_cons, ih]

theorem length_flatMap (ws : List Word) : (ws.flatMap ofWord).length = 8 * ws.length := by
  induction ws with
  | nil => rfl
  | cons w ws ih =>
    rw [List.flatMap_cons, List.length_append, length_ofWord, ih, List.length_cons]
    omega

/-- Byte `j` of word `i` stands at `8 * i + j`. -/
theorem getElem?_flatMap {ws : List Word} {i j : Nat} {w : Word} (hw : ws[i]? = some w) (hj : j < 8) :
    (ws.flatMap ofWord)[8 * i + j]? = some (UInt8.ofNat (w.toNat / Nat.pow 256 j % 256)) := by
  induction ws generalizing i with
  | nil => cases hw
  | cons x ws ih =>
    rw [List.flatMap_cons]
    cases i with
    | zero =>
      obtain rfl : x = w := Option.some.inj hw
      rw [Nat.mul_zero, Nat.zero_add, List.getElem?_append_left (by rw [length_ofWord]; exact hj), ofWord,
        getElem?_digits _ hj]
    | succ i =>
      rw [List.getElem?_append_right (by rw [length_ofWord]; omega), length_ofWord,
        show 8 * (i + 1) + j - 8 = 8 * i + j by omega]
      exact ih hw

end Bytes

namespace FaultRecord

theorem length_toWords (r : FaultRecord) : r.toWords.length = wordCount := by
  simp [toWords, wordCount]

theorem length_encode (r : FaultRecord) : r.encode.length = size := by
  rw [encode, Bytes.length_flatMap, length_toWords, size]

theorem ofWords?_toWords (r : FaultRecord) : ofWords? r.toWords = some r := by
  obtain ⟨va, err, ⟨⟨regs⟩, hsize⟩, ip, flags, sp⟩ := r
  match regs, hsize with
  | [_, _, _, _, _, _, _, _], _ => rfl

theorem exists_toWords {ws : List Word} (h : ws.length = wordCount) : ∃ r, ofWords? ws = some r ∧ r.toWords = ws := by
  match ws, h with
  | [_, _, _, _, _, _, _, _, _, _, _, _, _], _ => exact ⟨_, rfl, rfl⟩

theorem decode_encode_append (r : FaultRecord) (t : Bytes) : decode (r.encode ++ t) = some r := by
  have hlong : ¬(r.encode ++ t).length < size := by
    rw [List.length_append, length_encode]
    omega
  rw [decode, if_neg hlong, encode, ← length_toWords r, Bytes.words_flatMap_append, ofWords?_toWords]

theorem decode_encode (r : FaultRecord) : decode r.encode = some r := by
  have h := decode_encode_append r []
  rwa [List.append_nil] at h

theorem exists_decode {b : Bytes} (h : size ≤ b.length) : ∃ r, decode b = some r ∧ r.encode = b.take size := by
  obtain ⟨r, hr, hwords⟩ := exists_toWords (Bytes.length_words wordCount b)
  refine ⟨r, ?_, ?_⟩
  · rw [decode, if_neg (Nat.not_lt.mpr h), hr]
  · rw [encode, hwords, Bytes.flatMap_words h, size]

theorem decode_eq_none_iff {b : Bytes} : decode b = none ↔ b.length < size := by
  refine ⟨fun h => Nat.lt_of_not_le fun hle => ?_, fun h => by rw [decode, if_pos h]⟩
  obtain ⟨r, hr, -⟩ := exists_decode hle
  rw [h] at hr
  cases hr

/-- Reading and writing fault records are inverse. A record is read back whatever follows its encoding; a byte string
that has the size of a record, or more, starts with the encoding of the record that is read off it; and only shorter
strings are refused. Byte `j` of word `i` in the order of the fields stands at `8 * i + j`, the lowest byte first. -/
theorem codec_exact :
    (∀ (r : FaultRecord) (t : Bytes), decode (r.encode ++ t) = some r) ∧
      (∀ b : Bytes, size ≤ b.length → ∃ r, decode b = some r ∧ r.encode = b.take size) ∧
      (∀ b : Bytes, decode b = none ↔ b.length < size) ∧
      ∀ (r : FaultRecord) (i j : Nat) (w : Word), r.toWords[i]? = some w → j < 8 →
        r.encode[8 * i + j]? = some (UInt8.ofNat (w.toNat / Nat.pow 256 j % 256)) :=
  ⟨decode_encode_append, fun _ => exists_decode, fun _ => decode_eq_none_iff,
    fun _ _ _ _ hw hj => Bytes.getElem?_flatMap hw hj⟩

def counting : Bytes := (List.range 106).map UInt8.ofNat

theorem codec_exact_counting : size ≤ counting.length ∧ ∃ r, decode counting = some r ∧
    r.encode = counting.take size ∧ r.va = 0x0706050403020100 ∧ r.sp = 0x6766656463626160 ∧
    r.encode[8 * 12 + 7]? = some 0x67 := by
  have hlong : size ≤ counting.length := by decide
  obtain ⟨r, hr, hencode⟩ := codec_exact.2.1 counting hlong
  have hfields : (decode counting).map (fun r => (r.va, r.sp, r.toWords[12]?)) =
      some (0x0706050403020100, 0x6766656463626160, some 0x6766656463626160) := by decide +kernel
  rw [hr] at hfields
  obtain ⟨hva, hfields⟩ := Prod.mk.inj (Option.some.inj hfields)
  obtain ⟨hsp, hlast⟩ := Prod.mk.inj hfields
  exact ⟨hlong, r, hr, hencode, hva, hsp, codec_exact.2.2.2 r 12 7 _ hlast (by decide)⟩

end FaultRecord

end Exokernel
