import Exokernel.Abi

/-!
# Processors and devices

A CPU is named by a 16-bit number; CPU `n` owns the idle environment in table slot `n`. The online mask
has one bit per CPU that has entered the scheduler. The console, the cycle counter and the debugging monitor that
the kernel talks to are all held in memory.
-/

set_option autoImplicit false

/-! ## Processors -/

namespace Exokernel

structure Cpu where
  number : UInt16
deriving DecidableEq, Inhabited

namespace Cpu

def boot : Cpu := ⟨0⟩

def index (c : Cpu) : Nat := c.number.toNat

def isBoot (c : Cpu) : Bool := c.number == 0

def text (c : Cpu) : String := toString c.index

def limit : Nat := 8

def firstOf (count : Nat) : List Cpu := (List.range (min count limit)).map fun i => ⟨UInt16.ofNat i⟩

end Cpu

structure OnlineMask where
  bits : Word := 0
deriving DecidableEq, Inhabited

namespace OnlineMask

/-- The mask with the bit of `c` set, and whether it was clear before; `none` when the mask has no such bit. -/
def mark (m : OnlineMask) (c : Cpu) : Option (Bool × OnlineMask) :=
  if c.index < 64 then
    let bit : Word := 1 <<< UInt64.ofNat c.index
    some (m.bits &&& bit == 0, ⟨m.bits ||| bit⟩)
  else none

def isOnline (m : OnlineMask) (c : Cpu) : Bool :=
  c.index < Cpu.limit && m.bits.toNat.testBit c.index

def count (m : OnlineMask) : Nat := (List.range 64).countP m.bits.toNat.testBit

end OnlineMask

/-! ## Devices -/

structure Console where
  output : Array UInt8 := #[]
  input : Bytes := []
deriving DecidableEq, Inhabited

namespace Console

def write (c : Console) (b : Bytes) : Console := { c with output := c.output ++ b.toArray }

def pushInput (c : Console) (b : Bytes) : Console := { c with input := c.input ++ b }

def takeOutput (c : Console) : Bytes × Console := (c.output.toList, { c with output := #[] })

def readByte (c : Console) : Option UInt8 × Console :=
  match c.input with
  | [] => (none, c)
  | b :: rest => (some b, { c with input := rest })

end Console

structure CycleCounter where
  now : Word := 0
deriving DecidableEq, Inhabited

namespace CycleCounter

def stride : Word := 0x9e3779b9

def defaultSeed : Word := 0x61786f6e

def read (c : CycleCounter) : Word × CycleCounter := (c.now, ⟨c.now + stride⟩)

def readings : Nat → CycleCounter → List Word
  | 0, _ => []
  | count + 1, c => c.read.1 :: readings count c.read.2

end CycleCounter

inductive DebugAction where
  | resume
  | step
  | kill
deriving DecidableEq, Inhabited

namespace DebugAction

def name : DebugAction → String
  | resume => "Continue"
  | step => "Step"
  | kill => "Kill"

def all : List DebugAction := [resume, step, kill]

end DebugAction

structure Stop where
  cpu : Cpu
  env : Option Env.Id
  ip : Word
deriving DecidableEq

structure Monitor where
  action : DebugAction := .resume
  stops : List Stop := []
  idleEntries : Nat := 0
deriving DecidableEq, Inhabited

namespace Monitor

def breakpoint (m : Monitor) (s : Stop) : DebugAction × Monitor := (m.action, { m with stops := s :: m.stops })

def park (m : Monitor) : Monitor := { m with idleEntries := m.idleEntries + 1 }

end Monitor

end Exokernel
