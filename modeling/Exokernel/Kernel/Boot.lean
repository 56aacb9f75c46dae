import Exokernel.Trap.Route

/-!
# Booting the kernel and entering it

Booting checks the configuration and creates one idle environment per CPU before anything else, so that CPU `n`
finds its idle environment in slot `n`. No CPU runs afterwards.

A booted kernel is entered by traps, by the first entry of a CPU, by what the loader does to set programs up, and by
the user-mode accesses and windows through which programs see memory and the environment table.
-/

set_option autoImplicit false

namespace Exokernel

inductive BootError where
  | config (e : ConfigError)
  | idle (cpu : Nat) (e : EnvError)
  | halted (cause : Panic)
deriving DecidableEq

def BootError.text : BootError → String
  | config e => s!"Config({e.text})"
  | idle cpu e => s!"Idle \x7b cpu: {cpu}, err: {e.text} \x7d"
  | halted cause => cause.message

namespace Kernel

def blank (c : Config) (cycles : CycleCounter) (monitor : Monitor) : Kernel :=
  { envs := .ofCapacity c.capacity
    memory := .ofFrames c.frames
    current := Array.replicate c.cpus none
    cycles, monitor
    journal := { limit := c.level } }

def createIdle : List Cpu → Action Kernel BootError Unit
  | [] => pure ()
  | cpu :: rest => do
    let id ← (allocate .self .idle).mapError fun e => BootError.idle cpu.index e
    record (.idleCreated cpu id)
    createIdle rest

def bringUp (c : Config) : Action Kernel BootError Unit := do
  record (.booting c)
  createIdle (Cpu.firstOf c.cpus)
  record .booted

def boot (c : Config) (cycles : CycleCounter) (monitor : Monitor) : Except BootError Kernel :=
  match c.validate with
  | .error e => .error (.config e)
  | .ok () =>
    match bringUp c (blank c cycles monitor) with
    | .done () k => .ok k
    | .refused e _ => .error e
    | .halted p => .error (.halted p)

end Kernel

/-! ## Entry points of a booted kernel -/

namespace Kernel

variable {ε : Type}

def startCpu (cpu : Cpu) (live : Context) : Action Kernel ε (Exit × Context) := do
  let k ← .state
  if k.cpuCount ≤ cpu.index then .halt (.unknownCpu cpu k.cpuCount)
  match k.online.mark cpu with
  | none => .halt .shiftOverflow
  | some (first, online) =>
    .modify fun k => { k with online }
    if !first then record (.startedTwice cpu)
    record (.online cpu online.count)
    reschedule cpu live

def createEnv (kind : Env.Kind) : Action Kernel EnvError Env.Id := allocate .self kind

def loadPage (id : Env.Id) (va : Nat) (flags : PageFlags) : Action Kernel SpaceError Unit := do
  match (← .state).spaceOf id with
  | .error _ => .refuse .invalidHandle
  | .ok space => onMemory (Memory.allocPage space va flags)

def setEntry (id : Env.Id) (ip sp : Word) : Action Kernel EnvError Unit := do
  let _ ← readEnv id
  updateEnv id fun e => { e with context := { e.context with ip, sp } }

def userRead (id : Env.Id) (va count : Nat) : Action Kernel AccessFault Bytes := do
  match (← .state).spaceOf id with
  | .error _ => .refuse { va, code := Memory.accessCode false }
  | .ok space => onMemory (Memory.readUser space va count)

def userWrite (id : Env.Id) (va : Nat) (data : Bytes) : Action Kernel AccessFault Unit := do
  match (← .state).spaceOf id with
  | .error _ => .refuse { va, code := Memory.accessCode true }
  | .ok space => onMemory (Memory.writeUser space va data)

def pageEntry (k : Kernel) (id : Env.Id) (va : Nat) : Option PageFlags :=
  match k.spaceOf id with
  | .error _ => none
  | .ok space =>
    match k.memory.lookup space va with
    | .ok (some m) => some m.flags
    | _ => none

def spanPresent (k : Kernel) (id : Env.Id) (va : Nat) : Bool :=
  match k.spaceOf id with
  | .error _ => false
  | .ok space =>
    match k.memory.spanPresent space va with
    | .ok b => b
    | .error _ => false

def infoOf (k : Kernel) (id : Env.Id) : Option Env.Info := (k.envs.find? id).map Env.info

def contextOf (k : Kernel) (id : Env.Id) : Option Context := (k.envs.find? id).map Env.context

def waitingOf (k : Kernel) (id : Env.Id) : Option Nat := (k.envs.find? id).map Env.waiting

end Kernel

end Exokernel
