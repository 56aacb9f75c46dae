import Exokernel.Word

/-!
# Named flag words

A flag word is a 64-bit word together with a table of named bits. Unknown bits are kept. The text of a
flag word lists the names whose bits are all set, in the order of the table, leaving out a name that adds
no bit to the earlier ones, and ends with the bits that no name covered. Page permissions and fault codes are
flag words.
-/

set_option autoImplicit false

namespace Exokernel

structure FlagTable where
  kind : String
  names : List (String × Word)

def FlagTable.mask (T : FlagTable) : Word := T.names.foldl (fun m f => m ||| f.2) 0

structure Flags (T : FlagTable) where
  bits : Word
deriving DecidableEq

namespace Flags

variable {T : FlagTable}

def empty : Flags T := ⟨0⟩

instance : Inhabited (Flags T) := ⟨empty⟩

def all : Flags T := ⟨T.mask⟩

def isEmpty (x : Flags T) : Bool := x.bits == 0

def isAll (x : Flags T) : Bool := T.mask ||| x.bits == x.bits

def contains (x y : Flags T) : Bool := x.bits &&& y.bits == y.bits

def intersects (x y : Flags T) : Bool := x.bits &&& y.bits != 0

def union (x y : Flags T) : Flags T := ⟨x.bits ||| y.bits⟩

def inter (x y : Flags T) : Flags T := ⟨x.bits &&& y.bits⟩

def diff (x y : Flags T) : Flags T := ⟨x.bits &&& ~~~y.bits⟩

def truncate (w : Word) : Flags T := ⟨w &&& T.mask⟩

def ofBits? (w : Word) : Option (Flags T) := if w &&& T.mask == w then some ⟨w⟩ else none

def complement (x : Flags T) : Flags T := truncate (~~~x.bits)

instance : OrOp (Flags T) := ⟨union⟩
instance : AndOp (Flags T) := ⟨inter⟩
instance : SDiff (Flags T) := ⟨diff⟩

def parts (source : Word) : List (String × Word) → Word → List String
  | [], left => if left = 0 then [] else [Text.hex0x left.toNat]
  | (name, b) :: rest, left =>
    if source &&& b = b ∧ left &&& b ≠ 0 then name :: parts source rest (left &&& ~~~b)
    else parts source rest left

def text (x : Flags T) : String :=
  let body := if x.bits = 0 then "0x0" else String.intercalate " | " (parts x.bits T.names x.bits)
  T.kind ++ "(" ++ body ++ ")"

end Flags

/-! ## Page permissions and fault codes -/

def pageFlagTable : FlagTable where
  kind := "PageFlags"
  names := [("PRESENT", 0x001), ("WRITABLE", 0x002), ("USER", 0x004), ("AVAIL", 0xE00), ("COW", 0x800),
    ("SYSCALL", 0xE07)]

abbrev PageFlags := Flags pageFlagTable

namespace PageFlags

def present : PageFlags := ⟨0x001⟩
def writable : PageFlags := ⟨0x002⟩
def user : PageFlags := ⟨0x004⟩
def cow : PageFlags := ⟨0x800⟩
def requestable : PageFlags := ⟨0xE07⟩

end PageFlags

def faultCodeTable : FlagTable where
  kind := "FaultCode"
  names := [("PROTECTION", 0x1), ("WRITE", 0x2), ("USER", 0x4)]

abbrev FaultCode := Flags faultCodeTable

namespace FaultCode

def protection : FaultCode := ⟨0x1⟩
def write : FaultCode := ⟨0x2⟩
def user : FaultCode := ⟨0x4⟩

end FaultCode

end Exokernel
