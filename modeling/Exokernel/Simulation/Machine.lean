import Exokernel.Kernel.Boot
import Exokernel.User.Script

/-!
# User programs on a booted kernel

The programs share one CPU as coroutines: the environment that the kernel last resumed runs its code up to its next
trap. An environment without code takes a timer trap instead. Traps are paid from a budget. Every program gets an
environment with one page of stack and the pages it names, in order; then the CPU starts.
-/

set_option autoImplicit false

namespace Exokernel.Simulation

inductive Instr where
  | request (label : String) (make : Env.Id → Request)
  /-- A request that may create a child, and the code that the child gets. -/
  | clone (label : String) (request : Request) (code : Option (List Instr))
  | attach (target : Env.Id → Env.Id) (code : List Instr)
  | interrupt (number : Word)
  | fault (number va err : Word)

def Instr.label : Instr → String
  | request label _ => label
  | clone label _ _ => label
  | attach .. => "attach"
  | interrupt .. => "trap"
  | fault .. => "trap"

inductive Resumption where
  | start
  | answered (next : Int → Program Answer)
  | faulted (number va err : Word) (next : Program Answer)
  | interrupted
  | leaving

structure Thread where
  code : List Instr
  child : Env.Id := .self
  resumption : Resumption := .start

inductive Ending where
  | exited
  /-- Its environment was gone after one of its own traps. -/
  | killed
  | stray
  | stuck
  | destroyed
  | failed
deriving DecidableEq

def Ending.name : Ending → String
  | exited => "exited"
  | killed => "killed"
  | stray => "stray"
  | stuck => "stuck"
  | destroyed => "destroyed"
  | failed => "failed"

inductive Note where
  | answered (env : Env.Id) (label : String) (answer : Answer)
  | faulted (env : Env.Id) (number va err sp : Word)

structure Machine where
  kernel : Kernel
  live : Context := {}
  threads : List (Env.Id × Thread) := []
  handlers : List (Env.Id × Handler) := []
  notes : List Note := []
  endings : List (Env.Id × Ending) := []
  failure : Option String := none
  taken : Nat := 0
  budget : Nat

namespace Machine

def set {α : Type} (id : Env.Id) (a : α) (m : List (Env.Id × α)) : List (Env.Id × α) :=
  (id, a) :: m.filter fun p => p.1 != id

def note (m : Machine) (n : Note) : Machine := { m with notes := n :: m.notes }

def isLive (m : Machine) (id : Env.Id) : Bool := (m.kernel.envs.find? id).isSome

def finish (m : Machine) (id : Env.Id) (e : Ending) : Machine :=
  { m with threads := m.threads.filter fun p => p.1 != id, endings := set id e m.endings }

def attach (m : Machine) (parent id : Env.Id) (code : List Instr) : Machine :=
  if (m.threads.lookup id).isSome then m
  else
    { m with
      threads := set id { code } m.threads
      handlers := match m.handlers.lookup parent with
        | some h => set id h m.handlers
        | none => m.handlers }

inductive Pause where
  | completed (a : Answer)
  | trapped (r : Resumption)
  | failed (message : String)

def raise (m : Machine) (number va err : Word) : Machine :=
  { m with live := { m.live with number, va, err } }

def accessFault (m : Machine) (f : AccessFault) (again : Program Answer) : Machine × Pause :=
  let va := UInt64.ofNat f.va
  (m.raise Trap.pageFault va f.code.bits, .trapped (.faulted Trap.pageFault va f.code.bits again))

def advance (id : Env.Id) : Program Answer → Machine → Machine × Pause
  | .done a, m => (m, .completed a)
  | .call number a next, m => ({ m with live := m.live.setCall number a }, .trapped (.answered next))
  | .load va count next, m =>
    match Kernel.userRead id va.toNat count m.kernel with
    | .done b kernel => advance id (next b) { m with kernel }
    | .refused f kernel => accessFault { m with kernel } f (.load va count next)
    | .halted p => (m, .failed p.message)
  | .store va data next, m =>
    match Kernel.userWrite id va.toNat data m.kernel with
    | .done () kernel => advance id next { m with kernel }
    | .refused f kernel => accessFault { m with kernel } f (.store va data next)
    | .halted p => (m, .failed p.message)
  | .pageEntry va next, m => advance id (next (m.kernel.pageEntry id va.toNat)) m
  | .spanPresent va next, m => advance id (next (m.kernel.spanPresent id va.toNat)) m
  | .envInfo e next, m => advance id (next (m.kernel.infoOf e)) m
  | .getHandler next, m => advance id (next (m.handlers.lookup id)) m
  | .setHandler h next, m => advance id next { m with handlers := set id h m.handlers }
  | .stackPointer next, m => advance id (next m.live.sp) m
  | .resume r next, m => advance id next { m with live := m.live.restore r }
  | .abort cause, m => (m, .failed cause.message)

def childOf : Answer → Option Env.Id
  | .child (.ok id) => some id
  | .side (.ok (.parent id)) => some id
  | _ => none

def complete (m : Machine) (id : Env.Id) (i : Instr) (a : Answer) : Machine :=
  let m := match i, childOf a with
    | .clone _ _ (some code), some child => m.attach id child code
    | _, _ => m
  m.note (.answered id i.label a)

inductive Turn where
  | trap (t : Thread)
  | stray
  | exited
  | failed (message : String)

def runCode (id : Env.Id) : List Instr → Env.Id → Machine → Machine × Turn
  | [], child, m =>
    let c := Call.destroy .self
    ({ m with live := m.live.setCall c.number c.arguments }, .trap { code := [], child, resumption := .leaving })
  | i :: rest, child, m =>
    let run (r : Request) : Machine × Turn :=
      match advance id (r.program (m.budget + 1)) m with
      | (m, .completed a) => runCode id rest ((childOf a).getD child) (m.complete id i a)
      | (m, .trapped resumption) => (m, .trap { code := i :: rest, child, resumption })
      | (m, .failed message) => (m, .failed message)
    match i with
    | .request _ make => run (make child)
    | .clone _ r _ => run r
    | .attach target code => runCode id rest child ((m.attach id (target child) code).complete id i .nothing)
    | .interrupt number =>
      ({ m with live := { m.live with number } }, .trap { code := i :: rest, child, resumption := .interrupted })
    | .fault number va err =>
      (m.raise number va err,
        .trap { code := i :: rest, child, resumption := .faulted number va err (.done .nothing) })

def runInstr (id : Env.Id) (t : Thread) (p : Program Answer) (m : Machine) : Machine × Turn :=
  match advance id p m with
  | (m, .trapped resumption) => (m, .trap { t with resumption })
  | (m, .failed message) => (m, .failed message)
  | (m, .completed a) =>
    match t.code with
    | [] => (m, .exited)
    | i :: rest => runCode id rest ((childOf a).getD t.child) (m.complete id i a)

def proceed (id : Env.Id) (t : Thread) (m : Machine) : Machine × Turn :=
  match t.resumption with
  | .start => runCode id t.code t.child m
  | .answered next => runInstr id t (next m.live.answer) m
  | .faulted number va err next =>
    let m := m.note (.faulted id number va err m.live.sp)
    if m.live.ip.toNat = upcallEntry then runInstr id t (Program.trampoline.andThen fun _ => next) m
    else (m, .stray)
  | .interrupted => runInstr id t (.done (.register m.live.flags)) m
  | .leaving => (m, .exited)

def turn (m : Machine) (id : Env.Id) : Except Machine Machine :=
  let onBehalf (m : Machine) : Machine := { m with live := { m.live with number := Trap.timer } }
  match m.threads.lookup id with
  | none => .ok (onBehalf m)
  | some t =>
    match proceed id t m with
    | (m, .trap t) => .ok { m with threads := set id t m.threads }
    | (m, .stray) => .ok (onBehalf (m.finish id .stray))
    | (m, .exited) => .ok (onBehalf (m.finish id .exited))
    | (m, .failed message) => .error { m.finish id .failed with failure := some message }

def settle (m : Machine) (id : Env.Id) : Machine :=
  match m.threads.lookup id with
  | none => m
  | some t =>
    if m.isLive id then m
    else
      match t.resumption with
      | .leaving => m.finish id .exited
      | _ => m.finish id .killed

def run : (budget : Nat) → Exit → Machine → Machine
  | _, .monitor, m => m
  | budget, .resume id, m =>
    match m.turn id with
    | .error m => m
    | .ok m =>
      match budget with
      | 0 => m
      | budget + 1 =>
        match (Kernel.trap Cpu.boot m.live : Action Kernel Empty (Exit × Context)) m.kernel with
        | .done (exit, live) kernel =>
          run budget exit ({ m with kernel, live, taken := m.taken + 1, budget }.settle id)
        | .refused e _ => nomatch e
        | .halted p => { m.finish id .failed with failure := some p.message }

def close (m : Machine) : Machine :=
  m.threads.foldl (fun m (id, _) => m.finish id (if m.isLive id then .stuck else .destroyed)) m

end Machine

/-! ## Loading and running -/

structure Image where
  code : List Instr
  kind : Env.Kind := .user
  sp : Word := UInt64.ofNat stackTop
  pages : List (Word × PageFlags) := []

inductive LoadError where
  | boot (e : BootError)
  | env (e : EnvError)
  | space (e : SpaceError)
  | halted (cause : Panic)

def LoadError.text : LoadError → String
  | boot e => e.text
  | env e => e.text
  | space e => e.text
  | halted cause => cause.message

def loadImage (i : Image) : Action Kernel LoadError Env.Id := do
  let id ← (Kernel.createEnv i.kind).mapError LoadError.env
  ((UInt64.ofNat stackPage, (⟨7⟩ : PageFlags)) :: i.pages).forM fun (va, flags) =>
    (Kernel.loadPage id va.toNat flags).mapError LoadError.space
  (Kernel.setEntry id (UInt64.ofNat textBase) i.sp).mapError LoadError.env
  return id

def loadAll : List Image → Action Kernel LoadError (List (Env.Id × Thread))
  | [] => return []
  | i :: rest => do
    let id ← loadImage i
    return (id, { code := i.code }) :: (← loadAll rest)

def simulate (c : Config) (seed : Word) (action : DebugAction) (input : Bytes) (budget : Nat)
    (images : List Image) : Except LoadError Machine :=
  match Kernel.boot c ⟨seed⟩ { action } with
  | .error e => .error (.boot e)
  | .ok kernel =>
    match loadAll images { kernel with console := kernel.console.pushInput input } with
    | .refused e _ => .error e
    | .halted p => .error (.halted p)
    | .done threads kernel =>
      match (Kernel.startCpu Cpu.boot {} : Action Kernel Empty (Exit × Context)) kernel with
      | .done (exit, live) kernel => .ok (Machine.run budget exit { kernel, live, threads, budget }).close
      | .refused e _ => nomatch e
      | .halted p => .error (.halted p)

end Exokernel.Simulation
