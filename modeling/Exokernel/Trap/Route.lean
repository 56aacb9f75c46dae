import Exokernel.Kernel.Scheduler
import Exokernel.Syscall.Perform

/-!
# Taking traps

A trap from user mode saves the live context of the CPU into its current environment, is handled there, and ends
in the environment that the CPU runs next, whose saved context becomes the live one, or in the monitor, which
leaves the live context alone. Traps from kernel mode, and traps other than the timer's on a CPU without a current
environment, halt the machine.

A fault's record goes to the very top of the exception stack, and the environment resumes at its upcall with its
stack pointer at the record. Code that already runs on the exception stack gets no second delivery.
-/

set_option autoImplicit false

/-! ## Delivering faults -/

namespace Exokernel.Kernel

def recordBase : Nat := exceptionTop - FaultRecord.size

def deliverUpcall (id : Env.Id) (va : Word) : Action Kernel UpcallError FaultRecord := do
  let e ← (readEnv id).mapError fun _ => UpcallError.noEnvironment
  if e.upcall = 0 then .refuse .noHandler
  else if onExceptionStack e.context.sp.toNat then .refuse .recursive
  else
    match e.space with
    | none => .refuse .noEnvironment
    | some space => do
      let r := e.context.faultRecord va
      (onMemory (Memory.writeUser space recordBase r.encode)).mapError UpcallError.stackFault
      updateEnv id fun e =>
        { e with context := { e.context with sp := UInt64.ofNat recordBase, ip := e.upcall } }
      return r

end Exokernel.Kernel

/-! ## Handling a trap -/

namespace Exokernel

inductive Exit where
  /-- The live context now holds this environment's saved one. -/
  | resume (id : Env.Id)
  | monitor
deriving DecidableEq, Inhabited

namespace Kernel

variable {ε : Type}

def runningOn (k : Kernel) (cpu : Cpu) : Option Env :=
  match (k.currentOf cpu).bind k.envs.find? with
  | some e => if (e.status = .running ∨ e.status = .dying) ∧ e.cpu = some cpu then some e else none
  | none => none

def reschedule (cpu : Cpu) (live : Context) : Action Kernel ε (Exit × Context) := do
  match ← schedule cpu with
  | .monitor => return (.monitor, live)
  | .run id =>
    match (← .state).envs.find? id with
    | some e => return (.resume id, e.context)
    | none => .halt (.dispatchedGone id)

def kill (cpu : Cpu) (id : Env.Id) : Action Kernel ε Unit := do
  match ← (destroy id cpu).attempt with
  | .ok _ => pure ()
  | .error e => record (.destroyFailed id e)

def userFault (cpu : Cpu) (id : Env.Id) (va : Word) : Action Kernel ε Bool := do
  match ← (deliverUpcall id va).attempt with
  | .ok r =>
    record (.upcallEntered id r)
    return false
  | .error cause =>
    let ip := (((← .state).envs.find? id).map fun e => e.context.ip).getD 0
    record (.userFault id va ip cause)
    kill cpu id
    return true

def debugStop (cpu : Cpu) (e : Env) : Action Kernel ε Bool := do
  let action ← .advance fun k =>
    let (action, monitor) := k.monitor.breakpoint { cpu, env := some e.id, ip := e.context.ip }
    (action, { k with monitor })
  match action with
  | .kill =>
    record (.killed e.id)
    kill cpu e.id
    return true
  | action =>
    updateEnv e.id fun e => { e with context := e.context.setSingleStep (action = .step) }
    return false

def callTrap (cpu : Cpu) (e : Env) : Action Kernel ε Bool := do
  let number := e.context.callNumber
  let result ← (callSystem .standard cpu e.id number e.context.callArguments).attempt
  if let .error cause := result then record (.refused e.id number cause)
  updateEnv e.id fun e =>
    { e with context := e.context.setAnswer (CallError.encode (result.map Reply.value)) }
  match result with
  | .ok r => return r.reschedule
  | .error _ => return false

def handle (cpu : Cpu) (e : Env) : Action Kernel ε Bool := do
  let number := e.context.number
  if number = Trap.pageFault then userFault cpu e.id e.context.va
  else if number = Trap.breakpoint ∨ number = Trap.debug then debugStop cpu e
  else if number = Trap.systemCall then callTrap cpu e
  else if number = Trap.timer then return true
  else
    record (.unexpectedTrap e.id number)
    userFault cpu e.id e.context.va

def reclaim (cpu : Cpu) (id : Env.Id) : Action Kernel ε Unit := do
  record (.reclaiming cpu id)
  if let .error _ ← (free id).attempt then record (.reclaimLost id)
  forget cpu

def resumeSame (cpu : Cpu) (id : Env.Id) (live : Context) : Action Kernel ε (Exit × Context) := do
  match (← .state).envs.find? id with
  | none => reschedule cpu live
  | some e =>
    if e.status = .running ∧ e.cpu = some cpu then return (.resume id, e.context)
    else if e.status = .dying then .halt (.resumeDying e.context)
    else .halt (.resumeNotRunning e.context)

def trap (cpu : Cpu) (live : Context) : Action Kernel ε (Exit × Context) := do
  noteProgress
  .modify fun k => { k with lastTrap := live }
  if live.mode = .kernel then
    .halt (if live.number = Trap.pageFault then .kernelPageFault live else .kernelTrap live)
  match (← .state).runningOn cpu with
  | none =>
    if live.number = Trap.timer then reschedule cpu live else .halt (.noCurrent live)
  | some e =>
    if e.status = .dying then
      reclaim cpu e.id
      reschedule cpu live
    else
      updateEnv e.id fun e => { e with context := live }
      let again ← handle cpu { e with context := live }
      if ((← .state).envs.find? e.id).isNone then forget cpu
      if again then reschedule cpu live else resumeSame cpu e.id live

end Kernel

end Exokernel
