import Exokernel.Word

/-!
# Addresses and pages

User memory lies below `utop`. The page just below it is the exception stack; the user stack ends one
guard page further down. Addresses are natural numbers below `addressLimit`. A page is 4096 bytes, and the frame
that holds it has a number.
-/

set_option autoImplicit false

namespace Exokernel

def addressLimit : Nat := 0x10000000000000000

def pageSize : Nat := 4096

def spanSize : Nat := 1024 * pageSize

/-- Top of user-controlled memory; nothing at or above it is transferable. -/
def utop : Nat := 0xEEC00000

def exceptionTop : Nat := utop

def exceptionPage : Nat := exceptionTop - pageSize

def stackTop : Nat := utop - 2 * pageSize

def stackPage : Nat := stackTop - pageSize

def scratchBase : Nat := 0x00400000

def scratchPage : Nat := scratchBase + spanSize - pageSize

def textBase : Nat := 0x00800000

def upcallEntry : Nat := textBase + 0x20

def pageBase (va : Nat) : Nat := va - va % pageSize

def spanBase (va : Nat) : Nat := va - va % spanSize

def aligned (va : Nat) : Bool := va % pageSize == 0

def isUserPage (va : Nat) : Bool := va < utop && aligned va

def onExceptionStack (sp : Nat) : Bool := exceptionPage ≤ sp && sp < exceptionTop

structure FrameId where
  index : Nat
deriving DecidableEq, Inhabited

def FrameId.text (f : FrameId) : String := "pfn:" ++ toString f.index

abbrev Page := Vector UInt8 pageSize

namespace Page

def blank : Page := Vector.replicate pageSize 0

def slice (p : Page) (offset count : Nat) : Bytes := (p.toArray.extract offset (offset + count)).toList

def write (p : Page) (offset : Nat) (data : Bytes) : Page :=
  let source := data.toArray
  Vector.ofFn fun i => if offset ≤ i.val then (source[i.val - offset]?).getD p[i] else p[i]

end Page

end Exokernel
