import Exokernel.Flags

/-!
# Saved contexts

What a trap saves of a CPU: eight registers, instruction and stack pointer, flags, the trap's number with its
error word and address, and the privilege level it came from. Register 0 carries the number of a system call
on entry and its answer on exit; registers 1 to 5 carry its arguments.

The fault record is a context as thirteen little-endian words: address, error word, eight registers, instruction
pointer, flags, stack pointer. The kernel writes the record and the fault trampoline reads it back.
-/

set_option autoImplicit false

namespace Exokernel

namespace Trap

def debug : Word := 1
def breakpoint : Word := 3
def pageFault : Word := 14
def timer : Word := 32
def systemCall : Word := 48

def describe (number : Word) : String :=
  match number.toNat with
  | 0 => "Divide error"
  | 1 => "Debug"
  | 2 => "Non-Maskable Interrupt"
  | 3 => "Breakpoint"
  | 4 => "Overflow"
  | 6 => "Invalid Opcode"
  | 13 => "General Protection"
  | 14 => "Page Fault"
  | 32 => "Timer Interrupt"
  | 48 => "System call"
  | _ => "(unknown trap)"

end Trap

def machineFlagTable : FlagTable where
  kind := "Eflags"
  names := [("TRAP", 0x100), ("INTERRUPT", 0x200)]

abbrev MachineFlags := Flags machineFlagTable

namespace MachineFlags

def singleStep : MachineFlags := ⟨0x100⟩
def interrupts : MachineFlags := ⟨0x200⟩

end MachineFlags

inductive Mode where
  | user
  | kernel
deriving DecidableEq, Inhabited

def Mode.name : Mode → String
  | .user => "User"
  | .kernel => "Kernel"

def Mode.all : List Mode := [.user, .kernel]

abbrev Registers := Vector Word 8

abbrev Arguments := Vector Word 5

def Arguments.word (a : Arguments) (i : Nat) : Word := a.toArray.getD i 0

structure FaultRecord where
  va : Word := 0
  err : Word := 0
  regs : Registers := Vector.replicate 8 0
  ip : Word := 0
  flags : Word := 0
  sp : Word := 0
deriving DecidableEq

structure Context where
  regs : Registers := Vector.replicate 8 0
  ip : Word := 0
  sp : Word := 0
  flags : Word := 0
  number : Word := 0
  err : Word := 0
  va : Word := 0
  mode : Mode := .user
deriving DecidableEq

instance : Inhabited Context := ⟨{}⟩

namespace Context

def start (ip sp : Word) : Context := { ip, sp, flags := MachineFlags.interrupts.bits }

def setCall (c : Context) (number : Word) (args : Arguments) : Context :=
  { c with
    number := Trap.systemCall
    regs := #v[number, args.word 0, args.word 1, args.word 2, args.word 3, args.word 4, c.regs[6], c.regs[7]] }

def callNumber (c : Context) : Word := c.regs[0]

def callArguments (c : Context) : Arguments := #v[c.regs[1], c.regs[2], c.regs[3], c.regs[4], c.regs[5]]

def answer (c : Context) : Int := c.regs[0].toInt64.toInt

def setAnswer (c : Context) (w : Word) : Context := { c with regs := c.regs.set 0 w }

def faultRecord (c : Context) (va : Word) : FaultRecord :=
  { va, err := c.err, regs := c.regs, ip := c.ip, flags := c.flags, sp := c.sp }

def restore (c : Context) (r : FaultRecord) : Context :=
  { c with regs := r.regs, ip := r.ip, sp := r.sp, flags := r.flags }

def setSingleStep (c : Context) (on : Bool) : Context :=
  let flags : MachineFlags := ⟨c.flags⟩
  let flags := if on then flags ||| MachineFlags.singleStep else flags \ MachineFlags.singleStep
  { c with flags := flags.bits }

def dump (c : Context) : String :=
  let number := Text.hexPadded 2 c.number.toNat
  let ip := Text.hexPadded 16 c.ip.toNat
  let sp := Text.hexPadded 16 c.sp.toNat
  let flags := Text.hex c.flags.toNat
  let err := Text.hex c.err.toNat
  let va := Text.hexPadded 16 c.va.toNat
  let regs := String.intercalate ", " (c.regs.toList.map fun r => Text.hexPadded 16 r.toNat)
  s!" trap=0x{number} ({Trap.describe c.number}) mode={c.mode.name}\n" ++
  s!" ip=0x{ip} sp=0x{sp} flags=0x{flags}\n" ++
  s!" err=0x{err} tval=0x{va}\n" ++
  s!" regs = [{regs}]\n"

end Context

end Exokernel

/-! ## The encoded fault record -/

namespace Exokernel.FaultRecord

def wordCount : Nat := 13

def size : Nat := 8 * wordCount

def toWords (r : FaultRecord) : List Word :=
  r.va :: r.err :: (r.regs.toList ++ [r.ip, r.flags, r.sp])

def ofWords? : List Word → Option FaultRecord
  | [va, err, r0, r1, r2, r3, r4, r5, r6, r7, ip, flags, sp] =>
    some { va, err, regs := #v[r0, r1, r2, r3, r4, r5, r6, r7], ip, flags, sp }
  | _ => none

def encode (r : FaultRecord) : Bytes := r.toWords.flatMap Bytes.ofWord

def decode (b : Bytes) : Option FaultRecord :=
  if b.length < size then none else ofWords? (Bytes.words wordCount b)

end Exokernel.FaultRecord
