import Exokernel.Flags

/-!
# What the kernel and its programs agree on

An environment id packs a table slot into its low ten bits and a generation above them. The raw id 0 is never live;
in a system call it stands for the caller. Programs and the monitor read the state of an environment from a record,
which the monitor lists in columns, one line per environment.

A system call answers with one signed word: a value if it is not negative, else the negated code of an
error. Negative words outside the table read as `invalidArgument`.
-/

set_option autoImplicit false

namespace Exokernel

/-! ## Environment ids -/

namespace Env

def slotLimit : Nat := 1024

def generationLimit : Nat := 0x200000

structure Id where
  raw : UInt32
deriving DecidableEq, Inhabited

namespace Id

def self : Id := ⟨0⟩

def isSelf (id : Id) : Bool := id.raw == 0

def index (id : Id) : Nat := id.raw.toNat % slotLimit

def generation (id : Id) : Nat := id.raw.toNat / slotLimit

def ofParts (index generation : Nat) : Id := ⟨UInt32.ofNat (generation * slotLimit + index % slotLimit)⟩

def toWord (id : Id) : Word := id.raw.toUInt64

def ofWord (w : Word) : Id := ⟨w.toUInt32⟩

def ofWord? (w : Word) : Option Id := if w.toNat < 0x80000000 then some (ofWord w) else none

/-- The id of the next occupant of slot `index`, whose last occupant had id `last`. The generation goes up
by one and starts again at 1 when ids would leave the non-negative 32-bit range. -/
def next (last : Id) (index : Nat) : Id :=
  ofParts index (if last.generation + 1 < generationLimit then last.generation + 1 else 1)

def text (id : Id) : String := Text.hexPadded 8 id.raw.toNat

end Id

/-! ## States and roles -/

inductive Status where
  | free
  /-- Destroyed while running on another CPU; freed at that CPU's next trap. -/
  | dying
  | runnable
  | running
  | notRunnable
deriving DecidableEq, Inhabited

namespace Status

def toWord : Status → Word
  | free => 0
  | dying => 1
  | runnable => 2
  | running => 3
  | notRunnable => 4

def ofWord? (w : Word) : Option Status :=
  match w.toNat with
  | 0 => some free
  | 1 => some dying
  | 2 => some runnable
  | 3 => some running
  | 4 => some notRunnable
  | _ => none

def name : Status → String
  | free => "Free"
  | dying => "Dying"
  | runnable => "Runnable"
  | running => "Running"
  | notRunnable => "NotRunnable"

end Status

inductive Kind where
  | user
  | idle
  | fileServer
  | netServer
deriving DecidableEq, Inhabited

def Kind.name : Kind → String
  | .user => "User"
  | .idle => "Idle"
  | .fileServer => "FileServer"
  | .netServer => "NetServer"

def Kind.all : List Kind := [.user, .idle, .fileServer, .netServer]

structure Info where
  id : Id := .self
  parent : Id := .self
  kind : Kind := .user
  status : Status := .runnable
  runs : UInt32 := 0
  receiving : Bool := false
  sender : Id := .self
  value : Word := 0
  perm : PageFlags := .empty
deriving DecidableEq, Inhabited

/-! ## The monitor's listing -/

def Status.tag : Status → String
  | .free => "free"
  | .dying => "dying"
  | .runnable => "runnable"
  | .running => "running"
  | .notRunnable => "blocked"

def Kind.tag : Kind → String
  | .user => "user"
  | .idle => "idle"
  | .fileServer => "fs"
  | .netServer => "ns"

def Info.row (i : Info) : String :=
  let kind := Text.padRight ' ' 4 i.kind.tag
  let status := Text.padRight ' ' 9 i.status.tag
  let runs := Text.padLeft ' ' 5 (toString i.runs.toNat)
  let ipc := if i.receiving then "  recv" else ""
  s!"{i.id.text} {i.parent.text} {kind} {status} {runs}{ipc}\n"

def listing (envs : List Info) : String :=
  "id       parent   type status    runs  ipc\n" ++ String.join (envs.map Info.row)

end Env

/-! ## Error codes -/

inductive ErrorCode where
  | badEnvironment
  | invalidArgument
  | outOfMemory
  | noFreeSlot
  | notReceiving
deriving DecidableEq, Inhabited

namespace ErrorCode

def name : ErrorCode → String
  | badEnvironment => "BadEnvironment"
  | invalidArgument => "InvalidArgument"
  | outOfMemory => "OutOfMemory"
  | noFreeSlot => "NoFreeSlot"
  | notReceiving => "IpcNotReceiving"

def number : ErrorCode → Nat
  | badEnvironment => 1
  | invalidArgument => 2
  | outOfMemory => 3
  | noFreeSlot => 4
  | notReceiving => 5

def all : List ErrorCode := [badEnvironment, invalidArgument, outOfMemory, noFreeSlot, notReceiving]

def toReturn (e : ErrorCode) : Int := -e.number

def toWord (e : ErrorCode) : Word := UInt64.ofInt e.toReturn

def ofReturn? (r : Int) : Option ErrorCode :=
  match r with
  | -1 => some badEnvironment
  | -2 => some invalidArgument
  | -3 => some outOfMemory
  | -4 => some noFreeSlot
  | -5 => some notReceiving
  | _ => none

def check (r : Int) : Except ErrorCode Word :=
  if 0 ≤ r then .ok (UInt64.ofInt r) else .error ((ofReturn? r).getD invalidArgument)

end ErrorCode

end Exokernel
