import Exokernel.Memory.FramePool
import Exokernel.Memory.PageTable

/-!
# Address spaces

All user address spaces and the frames behind them. A space owns a root frame, a frame per page-table page and
a reference per mapping. Handles are reused, the lowest one first. `denyNextMap` makes the next `insert` fail once.

User mode loads and stores page by page: every page touched must be present and open to user
mode, and writable for a store. A store leaves the pages before the first bad one written. Address sums that
leave the address range halt the machine.
-/

set_option autoImplicit false

namespace Exokernel

structure Handle where
  index : Nat
deriving DecidableEq, Inhabited

namespace Handle

def number (h : Handle) : Nat := h.index + 1

def ofNumber? : Nat → Option Handle
  | 0 => none
  | n + 1 => some ⟨n⟩

end Handle

inductive SpaceError where
  | invalidHandle
  | outOfMemory
  | mapping (e : MapError)
deriving DecidableEq, Inhabited

def SpaceError.text : SpaceError → String
  | invalidHandle => "InvalidHandle"
  | outOfMemory => "OutOfMemory"
  | mapping e => s!"Mapping({e.text})"

def SpaceError.all : List SpaceError := [.invalidHandle, .outOfMemory] ++ MapError.all.map .mapping

structure Space where
  root : FrameId
  table : PageTable := {}
deriving DecidableEq

structure Memory where
  spaces : Array (Option Space)
  frames : FramePool
  invalidations : Nat := 0
  denyNextMap : Bool := false
deriving DecidableEq

namespace Memory

def ofFrames (count : Nat) : Memory := { spaces := #[], frames := .ofSize count }

def space? (m : Memory) (h : Handle) : Option Space := (m.spaces[h.index]?).join

def space (m : Memory) (h : Handle) : Except SpaceError Space :=
  match m.space? h with
  | some s => .ok s
  | none => .error .invalidHandle

def setSpace (m : Memory) (h : Handle) (s : Option Space) : Memory :=
  { m with spaces := m.spaces.setIfInBounds h.index s }

def invalidate (m : Memory) : Memory := { m with invalidations := m.invalidations + 1 }

def dropRef (m : Memory) (f : FrameId) : Memory := { m with frames := m.frames.release f }

def root? (m : Memory) (h : Handle) : Option FrameId := (m.space? h).map Space.root

def lookup (m : Memory) (h : Handle) (va : Nat) : Except SpaceError (Option Mapping) :=
  (m.space h).map fun s => s.table.lookup va

def mappings (m : Memory) (h : Handle) : Except SpaceError (Ascending Mapping) :=
  (m.space h).map fun s => s.table.entries

def spanPresent (m : Memory) (h : Handle) (va : Nat) : Except SpaceError Bool :=
  (m.space h).map fun s => s.table.covers va

def refs (m : Memory) (f : FrameId) : Nat := m.frames.refs f

def freeFrames (m : Memory) : Nat := m.frames.freeCount

def totalFrames (m : Memory) : Nat := m.frames.capacity

def denyAlloc (m : Memory) : Memory := { m with frames := m.frames.deny }

def denyMap (m : Memory) : Memory := { m with denyNextMap := true }

def takeFrame : Action Memory SpaceError FrameId := fun m =>
  match m.frames.alloc with
  | (some f, frames) => .done f { m with frames }
  | (none, frames) => .refused .outOfMemory { m with frames }

def addRef (f : FrameId) : Action Memory SpaceError Unit := fun m =>
  match m.frames.retain f with
  | .ok frames => .done () { m with frames }
  | .error p => .halted p

def store (s : Space) : Action Memory SpaceError Handle :=
  .advance fun m =>
    match m.spaces.findIdx? Option.isNone with
    | some i => (⟨i⟩, m.setSpace ⟨i⟩ (some s))
    | none => (⟨m.spaces.size⟩, { m with spaces := m.spaces.push (some s) })

def create : Action Memory SpaceError Handle := do
  let root ← takeFrame
  addRef root
  store { root }

def destroy (h : Handle) : Action Memory SpaceError Unit := do
  let s ← (← .state).space h
  .modify fun m =>
    let m := m.setSpace h none
    let m := s.table.entries.values.foldl (fun m e => m.dropRef e.frame) m
    let m := s.table.tables.values.foldl dropRef m
    (m.dropRef s.root).invalidate

def coverSpan (h : Handle) (va : Nat) : Action Memory SpaceError Unit := do
  let s ← (← .state).space h
  unless s.table.covers va do
    let table ← takeFrame
    addRef table
    .modify fun m => m.setSpace h (some { s with table := s.table.install va table })

/-- Maps a frame at `va` in place of what was there. The new reference is taken before the old one is dropped,
so that mapping a page onto itself does not free its frame. -/
def insert (h : Handle) (frame : FrameId) (va : Nat) (flags : PageFlags) : Action Memory SpaceError Unit := do
  if (← .state).denyNextMap then
    .modify fun m => { m with denyNextMap := false }
    .refuse .outOfMemory
  .mapError .mapping (.ofExcept (PageTable.validate va flags))
  coverSpan h va
  addRef frame
  let s ← (← .state).space h
  match s.table.map va { frame, flags } with
  | .error e =>
    .modify fun m => m.dropRef frame
    .refuse (.mapping e)
  | .ok (replaced, table) =>
    .modify fun m =>
      let m := m.setSpace h (some { s with table })
      match replaced with
      | some old => (m.dropRef old.frame).invalidate
      | none => m

def allocPage (h : Handle) (va : Nat) (flags : PageFlags) : Action Memory SpaceError Unit := do
  let _ ← (← .state).space h
  let frame ← takeFrame
  match ← (insert h frame va flags).attempt with
  | .ok () => pure ()
  | .error e =>
    .modify fun m => { m with frames := m.frames.releaseUnused frame }
    .refuse e

def remove (h : Handle) (va : Nat) : Action Memory SpaceError (Option Mapping) := do
  let s ← (← .state).space h
  let (removed, table) := s.table.unmap va
  .modify fun m =>
    let m := m.setSpace h (some { s with table })
    match removed with
    | some old => (m.dropRef old.frame).invalidate
    | none => m
  return removed

end Memory

/-! ## User accesses -/

structure AccessFault where
  va : Nat
  code : FaultCode
deriving DecidableEq

def AccessFault.text (f : AccessFault) : String :=
  s!"AccessFault \x7b va: {f.va}, code: {f.code.text} \x7d"

namespace Memory

def accessCode (write : Bool) : FaultCode := if write then FaultCode.user ||| FaultCode.write else FaultCode.user

def accessNeeds (write : Bool) : PageFlags :=
  if write then PageFlags.present ||| PageFlags.user ||| PageFlags.writable else PageFlags.present ||| PageFlags.user

def frameFor (m : Memory) (h : Handle) (va : Nat) (write : Bool) : Except AccessFault FrameId :=
  match (m.space? h).bind fun s => s.table.lookup va with
  | none => .error { va, code := accessCode write }
  | some e =>
    if e.flags.contains (accessNeeds write) then .ok e.frame
    else .error { va, code := accessCode write ||| FaultCode.protection }

def checkPages (h : Handle) (va page stop : Nat) (write : Bool) : Action Memory AccessFault Unit :=
  if page < stop then do
    let _ ← (← .state).frameFor h (max page va) write
    if page + pageSize < addressLimit then checkPages h va (page + pageSize) stop write
    else .halt .addOverflow
  else pure ()
termination_by stop - page
decreasing_by simp only [pageSize]; omega

def checkUser (h : Handle) (va count : Nat) (write : Bool) : Action Memory AccessFault Unit :=
  if count = 0 then pure ()
  else if va + count < addressLimit then checkPages h va (pageBase va) (va + count) write
  else .refuse { va, code := FaultCode.user }

def chunk (va count : Nat) : Nat := min (pageSize - va % pageSize) count

theorem chunk_pos {va count : Nat} (h : count ≠ 0) : 0 < chunk va count := by
  have := Nat.mod_lt va (show 0 < pageSize by decide)
  simp only [chunk]; omega

def readUser (h : Handle) (va count : Nat) : Action Memory AccessFault Bytes :=
  if _ : count = 0 then pure []
  else if va < addressLimit then do
    let m ← .state
    let frame ← m.frameFor h va false
    let bytes := (m.frames.page frame).slice (va % pageSize) (chunk va count)
    let rest ← readUser h (va + chunk va count) (count - chunk va count)
    return bytes ++ rest
  else .halt .addOverflow
termination_by count
decreasing_by have := @chunk_pos va count ‹_›; omega

def writeUser (h : Handle) (va : Nat) (data : Bytes) : Action Memory AccessFault Unit :=
  if _ : data.length = 0 then pure ()
  else if va < addressLimit then do
    let frame ← (← .state).frameFor h va true
    let n := chunk va data.length
    .modify fun m => { m with frames := m.frames.write frame (va % pageSize) (data.take n) }
    writeUser h (va + n) (data.drop n)
  else .halt .addOverflow
termination_by data.length
decreasing_by have := @chunk_pos va data.length ‹_›; simp only [List.length_drop]; omega

end Memory

end Exokernel
