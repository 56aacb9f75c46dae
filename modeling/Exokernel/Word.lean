/-!
# Words, their text and their bytes

Registers hold 64-bit words. Log lines and listings show them as lower-case hexadecimal digits: bare, behind `0x`,
or padded with zeros to a fixed number of digits. In memory a word is eight bytes, the lowest first.
-/

set_option autoImplicit false

namespace Exokernel

abbrev Word := UInt64

namespace Text

def padLeft (fill : Char) (width : Nat) (s : String) : String :=
  String.ofList (List.replicate (width - s.length) fill) ++ s

def padRight (fill : Char) (width : Nat) (s : String) : String :=
  s ++ String.ofList (List.replicate (width - s.length) fill)

def hex (n : Nat) : String := String.ofList (Nat.toDigits 16 n)

def hexPadded (digits n : Nat) : String := padLeft '0' digits (hex n)

def hex0x (n : Nat) : String := "0x" ++ hex n

end Text

abbrev Bytes := List UInt8

namespace Bytes

def digits : Nat → Nat → Bytes
  | 0, _ => []
  | count + 1, n => UInt8.ofNat (n % 256) :: digits count (n / 256)

def value : Bytes → Nat
  | [] => 0
  | b :: rest => b.toNat + 256 * value rest

def ofWord (w : Word) : Bytes := digits 8 w.toNat

def toWord (b : Bytes) : Word := UInt64.ofNat (value b)

def words : Nat → Bytes → List Word
  | 0, _ => []
  | count + 1, b => toWord (b.take 8) :: words count (b.drop 8)

@[simp] theorem length_digits (count n : Nat) : (digits count n).length = count := by
  induction count generalizing n with
  | zero => rfl
  | succ count ih => simp [digits, ih]

theorem value_digits (count n : Nat) : value (digits count n) = n % Nat.pow 256 count := by
  induction count generalizing n with
  | zero => exact (Nat.mod_one n).symm
  | succ count ih =>
    have h : (UInt8.ofNat (n % 256)).toNat = n % 256 := by simp
    have hp : Nat.pow 256 (count + 1) = 256 * Nat.pow 256 count := Nat.mul_comm _ _
    rw [digits, value, ih, h, hp, Nat.mod_mul]

@[simp] theorem toWord_ofWord (w : Word) : toWord (ofWord w) = w := by
  have h : w.toNat % Nat.pow 256 8 = w.toNat := Nat.mod_eq_of_lt w.toNat_lt
  rw [toWord, ofWord, value_digits, h, UInt64.ofNat_toNat]

@[simp] theorem length_ofWord (w : Word) : (ofWord w).length = 8 := length_digits 8 _

end Bytes

end Exokernel
