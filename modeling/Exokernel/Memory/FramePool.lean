import Exokernel.Action

/-!
# The frame pool

A fixed number of frames with reference counts and a last-in first-out free list; the lowest numbers are
handed out first. Contents appear with the first write, and a frame without contents reads as zeros. Frame
numbers have 32 bits, so only as many frames as such numbers can name are ever handed out.

`denyNext` makes the next allocation fail once.
-/

set_option autoImplicit false

namespace Exokernel

def countLimit : Nat := 0x100000000

structure Frame where
  refs : Nat := 0
  inUse : Bool := false
  contents : Option Page := none
deriving DecidableEq, Inhabited

def Frame.page (f : Frame) : Page := f.contents.getD Page.blank

structure FramePool where
  frames : Array Frame
  free : List Nat
  denyNext : Bool := false
deriving DecidableEq

namespace FramePool

def ofSize (count : Nat) : FramePool :=
  { frames := Array.replicate count {}, free := List.range (count % countLimit) }

def capacity (p : FramePool) : Nat := p.frames.size

def freeCount (p : FramePool) : Nat := p.free.length

def refs (p : FramePool) (f : FrameId) : Nat := (p.frames[f.index]?.map Frame.refs).getD 0

def page (p : FramePool) (f : FrameId) : Page := (p.frames[f.index]?.map Frame.page).getD Page.blank

def update (p : FramePool) (f : FrameId) (g : Frame → Frame) : FramePool :=
  { p with frames := p.frames.modify f.index g }

def alloc (p : FramePool) : Option FrameId × FramePool :=
  if p.denyNext then (none, { p with denyNext := false })
  else match p.free with
    | [] => (none, p)
    | i :: rest => (some ⟨i⟩, { p with free := rest }.update ⟨i⟩ fun _ => { inUse := true })

def retain (p : FramePool) (f : FrameId) : Except Panic FramePool :=
  match p.frames[f.index]? with
  | none => .error (.freeFrame f)
  | some frame =>
    if !frame.inUse then .error (.freeFrame f)
    else if frame.refs + 1 < countLimit then .ok (p.update f fun x => { x with refs := x.refs + 1 })
    else .error .addOverflow

def reclaim (p : FramePool) (f : FrameId) : FramePool :=
  match p.frames[f.index]? with
  | none => p
  | some frame =>
    if frame.inUse then
      { p with free := f.index :: p.free }.update f fun x => { x with inUse := false, contents := none }
    else p

def release (p : FramePool) (f : FrameId) : FramePool :=
  let p := p.update f fun x => { x with refs := x.refs - 1 }
  if p.refs f = 0 then p.reclaim f else p

def releaseUnused (p : FramePool) (f : FrameId) : FramePool :=
  if p.refs f = 0 then p.reclaim f else p

def write (p : FramePool) (f : FrameId) (offset : Nat) (data : Bytes) : FramePool :=
  p.update f fun x => { x with contents := some (x.page.write offset data) }

def writeWithin (p : FramePool) (f : FrameId) (offset : Nat) (data : Bytes) : Except Panic FramePool :=
  if offset + data.length ≤ pageSize then .ok (p.write f offset data)
  else .error (.sliceEnd (offset + data.length) pageSize)

def deny (p : FramePool) : FramePool := { p with denyNext := true }

end FramePool

end Exokernel
