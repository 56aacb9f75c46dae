import Exokernel.Error

/-!
# The journal

A bounded ring of log lines with a severity limit. When the ring is full the oldest line gives way, and the
next drain starts with a notice of how many lines were lost. Each event that the kernel logs has a severity, the
subsystem that reports it, and a message.

The boot configuration sets the limit. Every CPU needs a table slot and a frame for its idle environment, and at
least one slot is left for others.
-/

set_option autoImplicit false

namespace Exokernel

inductive Level where
  | error
  | warn
  | info
  | debug
  | trace
deriving DecidableEq, Inhabited

namespace Level

def rank : Level → Nat
  | error => 1
  | warn => 2
  | info => 3
  | debug => 4
  | trace => 5

def tag : Level → String
  | error => "ERROR"
  | warn => "WARN"
  | info => "INFO"
  | debug => "DEBUG"
  | trace => "TRACE"

def name : Level → String
  | error => "Error"
  | warn => "Warn"
  | info => "Info"
  | debug => "Debug"
  | trace => "Trace"

def all : List Level := [error, warn, info, debug, trace]

def line (l : Level) (subsystem message : String) : String := s!"[{l.tag} {subsystem}] {message}"

end Level

structure Journal where
  limit : Level := .info
  lines : Array String := #[]
  dropped : Nat := 0
deriving DecidableEq, Inhabited

namespace Journal

def capacity : Nat := 256

def enabled (j : Journal) (l : Level) : Bool := l.rank ≤ j.limit.rank

def push (j : Journal) (line : String) : Journal :=
  if j.lines.size < capacity then { j with lines := j.lines.push line }
  else { j with lines := (j.lines.extract 1 j.lines.size).push line, dropped := j.dropped + 1 }

def emit (j : Journal) (l : Level) (subsystem message : String) : Journal :=
  if j.enabled l then j.push (l.line subsystem message) else j

def recent (j : Journal) (count : Nat) : List String := (j.lines.extract (j.lines.size - count) j.lines.size).toList

def drain (j : Journal) : List String × Journal :=
  let notice := if j.dropped = 0 then [] else [s!"[WARN log] {j.dropped} lines dropped"]
  (notice ++ j.lines.toList, { j with lines := #[], dropped := 0 })

end Journal

/-! ## The boot configuration -/

inductive ConfigError where
  | noCpus
  | tooManyCpus (count limit : Nat)
  | capacity (slots count : Nat)
  | tooFewFrames (frames needed : Nat)
deriving DecidableEq

def ConfigError.text : ConfigError → String
  | noCpus => "NoCpus"
  | tooManyCpus count limit => s!"TooManyCpus \x7b ncpu: {count}, max: {limit} \x7d"
  | capacity slots count => s!"Capacity \x7b capacity: {slots}, ncpu: {count} \x7d"
  | tooFewFrames frames needed => s!"TooFewFrames \x7b frames: {frames}, needed: {needed} \x7d"

structure Config where
  cpus : Nat := 1
  capacity : Nat := Env.slotLimit
  frames : Nat := 4096
  level : Level := .info
deriving DecidableEq, Inhabited

def Config.validate (c : Config) : Except ConfigError Unit :=
  if c.cpus = 0 then .error .noCpus
  else if Cpu.limit < c.cpus then .error (.tooManyCpus c.cpus Cpu.limit)
  else if c.capacity ≤ c.cpus ∨ Env.slotLimit < c.capacity then .error (.capacity c.capacity c.cpus)
  else if c.frames < c.cpus then .error (.tooFewFrames c.frames c.cpus)
  else .ok ()

/-! ## What the kernel logs -/

inductive Event where
  | booting (config : Config)
  | idleCreated (cpu : Cpu) (id : Env.Id)
  | booted
  | startedTwice (cpu : Cpu)
  | online (cpu : Cpu) (count : Nat)
  | allocated (id parent : Env.Id) (kind : Env.Kind)
  | markedDying (id : Env.Id) (cpu : Option Cpu)
  | freed (id : Env.Id) (runs : UInt32)
  | spaceGone (id : Env.Id)
  | woken (id target : Env.Id)
  | exiting (id : Env.Id)
  | destroying (caller target : Env.Id)
  | forked (caller child : Env.Id)
  | delivered (sender target : Env.Id) (value : Word) (perm : PageFlags)
  | parked (sender target : Env.Id)
  | fetchFailed (sender : Env.Id) (cause : IpcError)
  | fetched (caller sender : Env.Id)
  | dispatched (cpu : Cpu) (id : Env.Id)
  | noneRunnable (cpu : Cpu)
  | cpuParked (cpu : Cpu)
  | putsFault (caller : Env.Id) (va : Nat)
  | refused (caller : Env.Id) (number : Word) (cause : CallError)
  | mapped (caller : Env.Id) (va : Nat) (mapping : Mapping)
  | mappedTotal (caller : Env.Id) (count : Nat)
  | reclaiming (cpu : Cpu) (id : Env.Id)
  | reclaimLost (id : Env.Id)
  | unexpectedTrap (id : Env.Id) (number : Word)
  | upcallEntered (id : Env.Id) (record : FaultRecord)
  | userFault (id : Env.Id) (va ip : Word) (cause : UpcallError)
  | killed (id : Env.Id)
  | destroyFailed (id : Env.Id) (cause : EnvError)
  | lockHeld (cpu : Cpu)

namespace Event

def level : Event → Level
  | startedTwice .. | fetchFailed .. | noneRunnable .. | cpuParked .. | putsFault .. | unexpectedTrap ..
  | userFault .. => .warn
  | spaceGone .. | reclaimLost .. | destroyFailed .. | lockHeld .. => .error
  | idleCreated .. | allocated .. | woken .. | forked .. | delivered .. | parked .. | refused .. => .debug
  | fetched .. | dispatched .. | upcallEntered .. => .trace
  | booting .. | booted | online .. | markedDying .. | freed .. | exiting .. | destroying .. | mapped ..
  | mappedTotal .. | reclaiming .. | killed .. => .info

def subsystem : Event → String
  | booting .. | idleCreated .. | booted => "boot"
  | startedTwice .. | online .. => "smp"
  | allocated .. | markedDying .. | freed .. | spaceGone .. | woken .. | exiting .. | destroying ..
  | forked .. => "env"
  | delivered .. | parked .. | fetchFailed .. | fetched .. => "ipc"
  | dispatched .. | noneRunnable .. => "sched"
  | cpuParked .. => "monitor"
  | putsFault .. | refused .. => "syscall"
  | mapped .. | mappedTotal .. => "paging"
  | reclaiming .. | reclaimLost .. | unexpectedTrap .. | upcallEntered .. | userFault .. | killed ..
  | destroyFailed .. => "trap"
  | lockHeld .. => "lockdep"

def cpuText : Option Cpu → String
  | some c => s!"Some(CpuId({c.text}))"
  | none => "None"

def message : Event → String
  | booting c => s!"boot: ncpu={c.cpus} envs={c.capacity} frames={c.frames}"
  | idleCreated cpu id => s!"cpu{cpu.text} idle {id.text}"
  | booted => "boot: ok"
  | startedTwice cpu => s!"cpu{cpu.text} started twice"
  | online cpu count => s!"cpu{cpu.text} online ({count} up)"
  | allocated id parent kind => s!"alloc {id.text} parent={parent.text} type={kind.name}"
  | markedDying id cpu => s!"{id.text} running on cpu {cpuText cpu}; marked dying"
  | freed id runs => s!"free {id.text} (runs={runs.toNat})"
  | spaceGone id => s!"{id.text}: address space already gone"
  | woken id target => s!"{id.text} woken: target {target.text} destroyed"
  | exiting id => s!"[{id.text}] exiting gracefully"
  | destroying caller target => s!"[{caller.text}] destroying {target.text}"
  | forked caller child => s!"[{caller.text}] exofork -> {child.text}"
  | delivered sender target value perm =>
    s!"{sender.text} -> {target.text} value={Text.hex0x value.toNat} perm={perm.text}"
  | parked sender target => s!"{sender.text} parked on {target.text}"
  | fetchFailed sender cause => s!"fetch from {sender.text} failed: {cause.text}"
  | fetched caller sender => s!"[{caller.text}] fetched {sender.text}"
  | dispatched cpu id => s!"cpu{cpu.text} -> {id.text}"
  | noneRunnable cpu => s!"cpu{cpu.text}: no runnable environments"
  | cpuParked cpu => s!"cpu {cpu.text}: no runnable environments"
  | putsFault caller va => s!"[{caller.text}] cputs: user fault va {Text.hex0x va}"
  | refused caller number cause => s!"[{caller.text}] syscall {number.toNat} -> {cause.text}"
  | mapped caller va m => s!"[{caller.text}] 0x{Text.hexPadded 8 va} -> {m.frame.text} {m.flags.text}"
  | mappedTotal caller count => s!"[{caller.text}] {count} present mappings"
  | reclaiming cpu id => s!"cpu{cpu.text}: reclaiming dying {id.text}"
  | reclaimLost id => s!"{id.text} vanished during reclaim"
  | unexpectedTrap id number =>
    s!"[{id.text}] unexpected trap {Text.hex0x number.toNat} ({Trap.describe number})"
  | upcallEntered id record =>
    s!"[{id.text}] upcall va={Text.hex0x record.va.toNat} err={Text.hex0x record.err.toNat}"
  | userFault id va ip cause =>
    s!"[{id.text}] user fault va {Text.hex0x va.toNat} ip {Text.hex0x ip.toNat}: {cause.text}"
  | killed id => s!"[{id.text}] killed from monitor"
  | destroyFailed id cause => s!"destroy {id.text} failed: {cause.text}"
  | lockHeld cpu => s!"cpu {cpu.text} re-entered the kernel lock"

end Event

def Journal.record (j : Journal) (e : Event) : Journal := j.emit e.level e.subsystem e.message

end Exokernel
