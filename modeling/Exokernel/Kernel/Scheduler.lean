import Exokernel.Kernel.State

/-!
# Round-robin scheduling

Each CPU scans the table from the slot after the environment that it last dispatched and takes the first one
that is runnable and not idle. Idle environments run only while other CPUs have work; without any work the CPU
is parked in the monitor.
-/

set_option autoImplicit false

namespace Exokernel

inductive Decision where
  | run (id : Env.Id)
  | monitor
deriving DecidableEq, Inhabited

def Env.isCandidate (e : Env) : Bool := e.status == .runnable && e.kind != .idle

def Env.isUseful (e : Env) : Bool := e.kind != .idle && (e.status == .runnable || e.status == .running)

namespace Kernel

variable {ε : Type}

def currentOf (k : Kernel) (cpu : Cpu) : Option Env.Id := (k.current[cpu.index]?).join

def setCurrent (cpu : Cpu) (id : Option Env.Id) : Action Kernel ε Unit :=
  .modify fun k => { k with current := k.current.setIfInBounds cpu.index id }

def forget (cpu : Cpu) : Action Kernel ε Unit := setCurrent cpu none

def pick (k : Kernel) (cpu : Cpu) : Option Env.Id :=
  let start := match k.currentOf cpu with
    | some id => id.index + 1
    | none => 0
  (List.range k.envs.capacity).findSome? fun i =>
    match k.envs.slot? ((start + i) % k.envs.capacity) with
    | some e => if e.isCandidate then some e.id else none
    | none => none

def demoted (e : Env) : Env :=
  if e.status = .running then { e with status := .runnable, cpu := none } else e

def dispatch (cpu : Cpu) (id : Env.Id) : Action Kernel ε Unit := do
  if let some last := (← .state).currentOf cpu then
    if last ≠ id then updateEnv last demoted
  updateEnv id fun e => { e with status := .running, runs := e.runs + 1, cpu := some cpu }
  setCurrent cpu (some id)
  noteProgress
  record (.dispatched cpu id)

def park (cpu : Cpu) : Action Kernel ε Decision := do
  record (.noneRunnable cpu)
  if let some last := (← .state).currentOf cpu then updateEnv last demoted
  .modify fun k => { k with monitor := k.monitor.park }
  record (.cpuParked cpu)
  return .monitor

def idleOf (k : Kernel) (cpu : Cpu) : Option Env.Id :=
  match k.envs.slot? cpu.index with
  | some e => if e.kind = .idle ∧ (e.status = .runnable ∨ e.status = .running) then some e.id else none
  | none => none

def schedule (cpu : Cpu) : Action Kernel ε Decision := do
  let k ← .state
  match k.pick cpu with
  | some id =>
    dispatch cpu id
    return .run id
  | none =>
    if k.envs.toList.any Env.isUseful then
      match k.idleOf cpu with
      | some id =>
        dispatch cpu id
        return .run id
      | none => .halt (.idleNotRunnable cpu)
    else park cpu

end Kernel

end Exokernel
