import Exokernel.Ipc
import Exokernel.Syscall.Call

/-!
# Performing system calls

A caller may act on itself and on its children; messages may go to anybody. A call never switches environments:
one that blocked, destroyed or yielded its caller asks for a scheduling pass instead.
-/

set_option autoImplicit false

namespace Exokernel

structure Reply where
  value : Word := 0
  reschedule : Bool := false
deriving DecidableEq, Inhabited

namespace Kernel

def authorize (caller id : Env.Id) : Action Kernel CallError Env.Id := do
  Action.ofExcept (((← .state).envs.resolve id (some caller) true).mapError CallError.env)

def spaceFor (id : Env.Id) : Action Kernel CallError Handle := do
  Action.ofExcept (((← .state).spaceOf id).mapError CallError.env)

def destroyFor (cpu : Cpu) (caller target : Env.Id) : Action Kernel CallError Reply := do
  record (if target = caller then .exiting caller else .destroying caller target)
  let r ← (destroy target cpu).mapError CallError.env
  return { reschedule := r = .freed ∧ target = caller }

def putsChunk : Nat := 128

def copyOut {ε : Type} (space : Handle) (va count done : Nat) : Action Kernel ε Unit :=
  if done < count then do
    let n := min (count - done) putsChunk
    match ← (onMemory (Memory.readUser space (va + done) n)).attempt with
    | .error _ => pure ()
    | .ok b =>
      .modify fun k => { k with console := k.console.write b }
      copyOut space va count (done + n)
  else pure ()
termination_by count - done
decreasing_by simp only [putsChunk]; omega

def puts (cpu : Cpu) (caller : Env.Id) (va count : Nat) : Action Kernel CallError Reply := do
  let space ← spaceFor caller
  match ← (onMemory (Memory.checkUser space va count false)).attempt with
  | .error fault =>
    record (.putsFault caller fault.va)
    destroyFor cpu caller caller
  | .ok () =>
    copyOut space va count 0
    return {}

def getc {ε : Type} : Action Kernel ε Reply :=
  .advance fun k =>
    let (b, console) := k.console.readByte
    ({ value := (b.map UInt8.toUInt64).getD 0 }, { k with console })

/-- Makes a child that continues where the caller stands, with answer 0, once it is made runnable. -/
def forkEnv (caller : Env.Id) : Action Kernel CallError Reply := do
  let parent ← (readEnv caller).mapError CallError.env
  let child ← (allocate caller .user).mapError CallError.env
  updateEnv child fun e => { e with context := parent.context.setAnswer 0, status := .notRunnable }
  record (.forked caller child)
  return { value := child.toWord }

def changeStatus (cpu : Cpu) (caller id : Env.Id) (status : Env.Status) : Action Kernel CallError Reply := do
  let target ← authorize caller id
  if status = .free ∨ status = .dying then destroyFor cpu caller target
  else
    let e ← (readEnv target).mapError CallError.env
    if e.status = .running ∧ e.cpu ≠ some cpu then .refuse .invalidArgument
    (setStatus target status).mapError CallError.env
    return { reschedule := target = caller }

def allocPage (caller id : Env.Id) (va : Nat) (perm : PageFlags) : Action Kernel CallError Reply := do
  let space ← spaceFor (← authorize caller id)
  (onMemory (Memory.allocPage space va perm)).mapError CallError.space
  return {}

/-- Shares a page; it becomes writable at the destination only if it is writable at the source. -/
def mapPage (caller src : Env.Id) (srcva : Nat) (dst : Env.Id) (dstva : Nat) (perm : PageFlags) :
    Action Kernel CallError Reply := do
  let src ← authorize caller src
  let dst ← authorize caller dst
  let srcSpace ← spaceFor src
  let dstSpace ← spaceFor dst
  match ← Action.ofExcept (((← .state).memory.lookup srcSpace srcva).mapError CallError.space) with
  | none => .refuse .invalidArgument
  | some m =>
    if !m.flags.contains (PageFlags.present ||| PageFlags.user) then .refuse .invalidArgument
    if perm.contains PageFlags.writable && !m.flags.contains PageFlags.writable then .refuse .invalidArgument
    (onMemory (Memory.insert dstSpace m.frame dstva perm)).mapError CallError.space
    return {}

def unmapPage (caller id : Env.Id) (va : Word) : Action Kernel CallError Reply := do
  let target ← authorize caller id
  let va ← Call.pageArgument va
  let space ← spaceFor target
  let _ ← (onMemory (Memory.remove space va.toNat)).mapError CallError.space
  return {}

def setUpcall (caller id : Env.Id) (entry : Word) : Action Kernel CallError Reply := do
  let target ← authorize caller id
  updateEnv target fun e => { e with upcall := entry }
  return {}

def scan (caller : Env.Id) : Action Kernel CallError Reply := do
  let space ← spaceFor caller
  let found ← Action.ofExcept (((← .state).memory.mappings space).mapError CallError.space)
  found.forM fun (va, m) => record (.mapped caller va m)
  record (.mappedTotal caller found.length)
  return { value := UInt64.ofNat found.length }

def readCycles {ε : Type} : Action Kernel ε Word :=
  .advance fun k =>
    let (now, cycles) := k.cycles.read
    (now, { k with cycles })

def receiveFor (caller : Env.Id) (dstva : Word) : Action Kernel CallError Reply := do
  let capacity := max (← .state).envs.capacity 1
  let start := (← readCycles).toNat % capacity
  match ← (receiveQueued caller dstva start).mapError CallError.ipc with
  | .received sender =>
    record (.fetched caller sender)
    return {}
  | .blocked => return { reschedule := true }

def perform (cpu : Cpu) (caller : Env.Id) : Call → Action Kernel CallError Reply
  | .puts va count => puts cpu caller va.toNat count.toNat
  | .getc => getc
  | .self => return { value := caller.toWord }
  | .destroy env => do destroyFor cpu caller (← authorize caller env)
  | .yield => do
    noteProgress
    return { reschedule := true }
  | .fork => forkEnv caller
  | .setStatus env status => changeStatus cpu caller env status
  | .allocPage env va perm => allocPage caller env va.toNat perm
  | .mapPage src srcva dst dstva perm => mapPage caller src srcva.toNat dst dstva.toNat perm
  | .unmapPage env va => unmapPage caller env va
  | .setUpcall env entry => setUpcall caller env entry
  | .scan => scan caller
  | .trySend target m => do
    (trySend caller target m).mapError CallError.ipc
    return {}
  | .receive dstva => do
    (receive caller dstva).mapError CallError.ipc
    return { reschedule := true }
  | .sendQueued target m => do
    let r ← (sendQueued caller target m).mapError CallError.ipc
    return { reschedule := r = .parked }
  | .receiveQueued dstva => receiveFor caller dstva

def callSystem (t : CallTable) (cpu : Cpu) (caller : Env.Id) (number : Word) (a : Arguments) :
    Action Kernel CallError Reply := do
  perform cpu caller (← t.decode number a)

end Kernel

end Exokernel
