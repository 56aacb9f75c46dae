import Exokernel.Journal

/-!
# Kernel state

Everything that the kernel and its devices hold. Operations are actions on this state; those that are never
refused leave the type of causes open.

The kernel lock remembers which CPU holds it. A CPU that takes it twice would wait for itself and halts instead. CPUs
are driven one after the other here, so that a lock held by another CPU is never waited for.

An environment owns a table slot and an address space from its allocation until it is freed. Freeing also
settles its messages: its own waiting message is withdrawn, and whoever waits for it is woken with an error.
An environment that runs on another CPU is only marked; that CPU frees it at its next trap.
-/

set_option autoImplicit false

namespace Exokernel

structure Kernel where
  envs : Env.Table
  memory : Memory
  /-- The environment that each CPU last dispatched. -/
  current : Array (Option Env.Id)
  online : OnlineMask := {}
  console : Console := {}
  cycles : CycleCounter := {}
  monitor : Monitor := {}
  journal : Journal := {}
  /-- Counts traps, yields and dispatches. -/
  progress : Nat := 0
  lastTrap : Context := {}
deriving DecidableEq

namespace Kernel

variable {ε α : Type}

def cpuCount (k : Kernel) : Nat := k.current.size

def record (e : Event) : Action Kernel ε Unit := .modify fun k => { k with journal := k.journal.record e }

def noteProgress : Action Kernel ε Unit := .modify fun k => { k with progress := k.progress + 1 }

def onMemory (x : Action Memory ε α) : Action Kernel ε α := .onPart memory (fun k memory => { k with memory }) x

def setEnvs (f : Env.Table → Env.Table) : Action Kernel ε Unit := .modify fun k => { k with envs := f k.envs }

def updateEnv (id : Env.Id) (f : Env → Env) : Action Kernel ε Unit := setEnvs fun t => t.update id f

def readEnv (id : Env.Id) : Action Kernel EnvError Env := fun k => Action.ofExcept (k.envs.get id) k

def spaceOf (k : Kernel) (id : Env.Id) : Except EnvError Handle := do
  match (← k.envs.get id).space with
  | some h => .ok h
  | none => .error .badEnvironment

end Kernel

/-! ## The lock -/

structure Lock where
  holder : Option Cpu := none
  acquisitions : Nat := 0
deriving DecidableEq, Inhabited

namespace Lock

def acquire (l : Lock) (cpu : Cpu) : Except Panic Lock :=
  if l.holder = some cpu then .error (.heldLock cpu)
  else .ok { holder := some cpu, acquisitions := l.acquisitions + 1 }

def release (l : Lock) : Lock := { l with holder := none }

end Lock

structure LockedCounter where
  lock : Lock := {}
  count : Nat := 0
  journal : Journal := {}

namespace LockedCounter

def enter (c : LockedCounter) (cpu : Cpu) : Except Panic Nat × LockedCounter :=
  match c.lock.acquire cpu with
  | .ok lock => (.ok (c.count + 1), { c with lock, count := c.count + 1 })
  | .error p => (.error p, { c with journal := c.journal.record (.lockHeld cpu) })

def leave (c : LockedCounter) : Bool × LockedCounter := (c.lock.holder.isSome, { c with lock := c.lock.release })

end LockedCounter

/-! ## Creation and destruction of environments -/

inductive Reclaim where
  | freed
  | deferred
deriving DecidableEq, Inhabited

namespace Kernel

def allocate (parent : Env.Id) (kind : Env.Kind) : Action Kernel EnvError Env.Id := do
  match (← .state).envs.freeHead with
  | none => .refuse .noFreeSlot
  | some index =>
    let space ← (onMemory Memory.create).mapError fun _ => EnvError.outOfMemory
    let id ← .advance fun k =>
      let (id, envs) := k.envs.occupy index parent kind space
      (id, { k with envs })
    record (.allocated id parent kind)
    return id

def withdraw (id : Env.Id) (e : Env) : Action Kernel EnvError Unit :=
  match e.outbox with
  | none => pure ()
  | some p => do
    updateEnv id fun e => { e with outbox := none }
    updateEnv p.target fun t => { t with waiting := t.waiting - 1 }

def wakeSenders (target : Env.Id) : Action Kernel EnvError Unit := do
  let senders := (← .state).envs.parkedOn target
  setEnvs fun t => t.unparkAll target
  senders.forM fun id => record (.woken id target)

def free (id : Env.Id) : Action Kernel EnvError Unit := do
  withdraw id (← readEnv id)
  if 0 < (← readEnv id).waiting then wakeSenders id
  let e ← readEnv id
  if let some space := e.space then
    if let .error _ ← (onMemory (Memory.destroy space)).attempt then record (.spaceGone id)
  record (.freed id e.runs)
  setEnvs fun t => t.vacate id.index

def destroy (id : Env.Id) (cpu : Cpu) : Action Kernel EnvError Reclaim := do
  let e ← readEnv id
  if e.status = .running ∧ e.cpu.isSome ∧ e.cpu ≠ some cpu then
    updateEnv id fun e => { e with status := .dying }
    record (.markedDying id e.cpu)
    return .deferred
  else
    free id
    return .freed

def setStatus (id : Env.Id) (status : Env.Status) : Action Kernel EnvError Unit := do
  if status = .free then free id
  else
    let _ ← readEnv id
    updateEnv id fun e => { e with status, cpu := if status = .running then e.cpu else none }

end Kernel

end Exokernel
