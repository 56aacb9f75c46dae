import Exokernel.Memory.Space

/-!
# The environment table

A fixed array of slots with a last-in first-out list of free ones, which is threaded through the slots
themselves. An id gives access only while its own environment is live: a slot that was freed or reused answers to
no older id.

A slot changes hands together with everything its record says: the new occupant gets the next id of the slot
and starts runnable, and a vacated slot keeps only what its last occupant was called and how often it ran. Slots
are taken from the head of the free list and given back to it.
-/

set_option autoImplicit false

namespace Exokernel

/-! ## Environment records -/

namespace Env

structure Mailbox where
  receiving : Bool := false
  dstva : Word := 0
  value : Word := 0
  sender : Id := .self
  perm : PageFlags := .empty
deriving DecidableEq, Inhabited

structure Message where
  value : Word
  srcva : Word
  perm : PageFlags
deriving DecidableEq, Inhabited

structure Parcel extends Message where
  target : Id
deriving DecidableEq, Inhabited

end Env

structure Env where
  id : Env.Id := .self
  parent : Env.Id := .self
  kind : Env.Kind := .user
  status : Env.Status := .free
  runs : UInt32 := 0
  cpu : Option Cpu := none
  space : Option Handle := none
  /-- Where faults are delivered; 0 when they are not. -/
  upcall : Word := 0
  context : Context := {}
  mailbox : Env.Mailbox := {}
  waiting : Nat := 0
  outbox : Option Env.Parcel := none
  /-- Where the free list goes on behind a free slot. -/
  nextFree : Option Nat := none
deriving DecidableEq, Inhabited

namespace Env

def isFree (e : Env) : Bool := e.status == .free

def info (e : Env) : Info where
  id := e.id
  parent := e.parent
  kind := e.kind
  status := e.status
  runs := e.runs
  receiving := e.mailbox.receiving
  sender := e.mailbox.sender
  value := e.mailbox.value
  perm := e.mailbox.perm

end Env

inductive EnvError where
  | badEnvironment
  | noFreeSlot
  | outOfMemory
  | invalidStatus
deriving DecidableEq, Inhabited

def EnvError.text : EnvError → String
  | badEnvironment => "BadEnvironment"
  | noFreeSlot => "NoFreeSlot"
  | outOfMemory => "OutOfMemory"
  | invalidStatus => "InvalidStatus"

def EnvError.all : List EnvError := [.badEnvironment, .noFreeSlot, .outOfMemory, .invalidStatus]

/-! ## The table -/

namespace Env

structure Table where
  slots : Array Env
  /-- Where the list of free slots starts. -/
  freeHead : Option Nat
  live : Nat := 0
deriving DecidableEq

namespace Table

def ofCapacity (capacity : Nat) : Table :=
  let n := min capacity slotLimit
  let vacant (i : Nat) : Env := { nextFree := if i + 1 < n then some (i + 1) else none }
  { slots := ((List.range n).map vacant).toArray, freeHead := if 0 < n then some 0 else none }

def capacity (t : Table) : Nat := t.slots.size

def slot? (t : Table) (i : Nat) : Option Env := t.slots[i]?

def find? (t : Table) (id : Id) : Option Env :=
  match t.slot? id.index with
  | some e => if !e.isFree && e.id == id then some e else none
  | none => none

def get (t : Table) (id : Id) : Except EnvError Env :=
  match t.find? id with
  | some e => .ok e
  | none => .error .badEnvironment

def update (t : Table) (id : Id) (f : Env → Env) : Table :=
  match t.find? id with
  | some _ => { t with slots := t.slots.modify id.index f }
  | none => t

def toList (t : Table) : List Env := t.slots.toList.filter fun e => !e.isFree

def infos (t : Table) : List Info := t.toList.map info

/-- The live environment that `id` means to `caller`, the placeholder being the caller itself. With `checked`
it must be the caller or a child of it. -/
def lookup (t : Table) (id : Id) (caller : Option Id) (checked : Bool) : Except EnvError Env := do
  let id ← if id.isSelf then (match caller with | some c => .ok c | none => .error .badEnvironment) else .ok id
  let e ← t.get id
  if checked then
    match caller with
    | none => .error .badEnvironment
    | some c => if e.id = c ∨ e.parent = c then .ok e else .error .badEnvironment
  else .ok e

def resolve (t : Table) (id : Id) (caller : Option Id) (checked : Bool) : Except EnvError Id :=
  (t.lookup id caller checked).map Env.id

end Table

/-! ## Taking and giving back slots -/

def isParkedOn (e : Env) (target : Id) : Bool := !e.isFree && e.outbox.any fun p => p.target == target

def unpark (e : Env) (answer : Word) : Env :=
  { e with outbox := none, context := e.context.setAnswer answer, status := .runnable }

def vacated (e : Env) (nextFree : Option Nat) : Env :=
  { id := e.id, parent := e.parent, kind := e.kind, runs := e.runs, nextFree }

namespace Table

def occupy (t : Table) (index : Nat) (parent : Id) (kind : Kind) (space : Handle) : Id × Table :=
  let id := Id.next (((t.slot? index).map Env.id).getD .self) index
  let e : Env :=
    { id, parent, kind, status := .runnable, space := some space
      context := Context.start 0 (UInt64.ofNat stackTop) }
  (id, { slots := t.slots.setIfInBounds index e, freeHead := (t.slot? index).bind nextFree, live := t.live + 1 })

def vacate (t : Table) (index : Nat) : Table :=
  { slots := t.slots.modify index fun e => e.vacated t.freeHead
    freeHead := some index
    live := t.live - 1 }

def parkedOn (t : Table) (target : Id) : List Id := (t.toList.filter fun e => e.isParkedOn target).map Env.id

def unparkAll (t : Table) (target : Id) : Table :=
  { t with slots := t.slots.map fun e =>
      if e.isParkedOn target then e.unpark ErrorCode.badEnvironment.toWord else e }

end Table

end Env

end Exokernel
