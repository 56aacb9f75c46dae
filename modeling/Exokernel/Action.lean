import Exokernel.Device
import Exokernel.Layout
import Exokernel.Trap.Context

/-!
# Actions and panics

An action on a state of type `σ` is done with a value, is refused with a cause of type `ε`, or halts the
machine. The first two leave a state behind; after a halt there is none. What an action did before it was
refused stays done. A panic is not an answer to anybody: it marks a state that the kernel takes for impossible.
-/

set_option autoImplicit false

/-! ## Causes that stop the machine -/

namespace Exokernel

inductive Panic where
  | addOverflow
  | shiftOverflow
  | sliceEnd (stop size : Nat)
  /-- A new reference to a frame that is not in use. -/
  | freeFrame (frame : FrameId)
  | heldLock (cpu : Cpu)
  | unknownCpu (cpu : Cpu) (count : Nat)
  /-- There is work on other CPUs only, and this CPU's idle environment cannot run. -/
  | idleNotRunnable (cpu : Cpu)
  | dispatchedGone (id : Env.Id)
  | kernelPageFault (context : Context)
  | kernelTrap (context : Context)
  /-- A trap other than the timer's on a CPU that runs no environment. -/
  | noCurrent (context : Context)
  | resumeDying (context : Context)
  | resumeNotRunning (context : Context)
deriving DecidableEq

def Panic.message : Panic → String
  | addOverflow => "attempt to add with overflow"
  | shiftOverflow => "attempt to shift left with overflow"
  | sliceEnd stop size => s!"range end index {stop} out of range for slice of length {size}"
  | freeFrame frame => s!"incref on free frame {frame.text}"
  | heldLock cpu => s!"lockdep: double-lock on cpu {cpu.text}"
  | unknownCpu cpu count => s!"smp: cpu{cpu.text} beyond configured ncpu {count}"
  | idleNotRunnable cpu => s!"sched: cpu{cpu.text} idle environment is not runnable"
  | dispatchedGone id => s!"sched: dispatched {id.text} is gone"
  | kernelPageFault context => "kernel page fault\n" ++ context.dump
  | kernelTrap context => "unhandled trap in kernel\n" ++ context.dump
  | noCurrent context => "user trap with no current environment\n" ++ context.dump
  | resumeDying context => "resuming a dying environment\n" ++ context.dump
  | resumeNotRunning context => "resuming an environment that is not running\n" ++ context.dump

/-! ## Actions -/

inductive Outcome (σ ε α : Type) where
  | done (value : α) (state : σ)
  | refused (cause : ε) (state : σ)
  | halted (cause : Panic)

def Action (σ ε α : Type) : Type := σ → Outcome σ ε α

namespace Action

variable {σ τ ε ε' α β : Type}

@[always_inline, inline]
def ret (a : α) : Action σ ε α := fun s => .done a s

@[always_inline, inline]
def andThen (x : Action σ ε α) (f : α → Action σ ε β) : Action σ ε β := fun s =>
  match x s with
  | .done a s => f a s
  | .refused e s => .refused e s
  | .halted p => .halted p

instance : Monad (Action σ ε) where
  pure := ret
  bind := andThen

@[always_inline, inline]
def refuse (e : ε) : Action σ ε α := fun s => .refused e s

@[always_inline, inline]
def halt (p : Panic) : Action σ ε α := fun _ => .halted p

@[always_inline, inline]
def state : Action σ ε σ := fun s => .done s s

@[always_inline, inline]
def modify (f : σ → σ) : Action σ ε Unit := fun s => .done () (f s)

/-- A step that computes its value and the next state together. -/
@[always_inline, inline]
def advance (f : σ → α × σ) : Action σ ε α := fun s =>
  let (a, s) := f s
  .done a s

def ofExcept : Except ε α → Action σ ε α
  | .ok a => ret a
  | .error e => refuse e

def mapError (f : ε → ε') (x : Action σ ε α) : Action σ ε' α := fun s =>
  match x s with
  | .done a s => .done a s
  | .refused e s => .refused (f e) s
  | .halted p => .halted p

def attempt (x : Action σ ε α) : Action σ ε' (Except ε α) := fun s =>
  match x s with
  | .done a s => .done (.ok a) s
  | .refused e s => .done (.error e) s
  | .halted p => .halted p

def onPart (get : σ → τ) (set : σ → τ → σ) (x : Action τ ε α) : Action σ ε α := fun s =>
  match x (get s) with
  | .done a t => .done a (set s t)
  | .refused e t => .refused e (set s t)
  | .halted p => .halted p

instance : MonadLift (Except ε) (Action σ ε) := ⟨ofExcept⟩

@[simp] theorem pure_apply (a : α) (s : σ) : (pure a : Action σ ε α) s = .done a s := rfl

theorem bind_apply (x : Action σ ε α) (f : α → Action σ ε β) (s : σ) :
    (x >>= f) s = match x s with
      | .done a s => f a s
      | .refused e s => .refused e s
      | .halted p => .halted p := rfl

@[simp] theorem refuse_apply (e : ε) (s : σ) : (refuse e : Action σ ε α) s = .refused e s := rfl

@[simp] theorem halt_apply (p : Panic) (s : σ) : (halt p : Action σ ε α) s = .halted p := rfl

@[simp] theorem state_apply (s : σ) : (state : Action σ ε σ) s = .done s s := rfl

@[simp] theorem modify_apply (f : σ → σ) (s : σ) : (modify f : Action σ ε Unit) s = .done () (f s) := rfl

@[simp] theorem ofExcept_ok (a : α) (s : σ) : (ofExcept (.ok a) : Action σ ε α) s = .done a s := rfl

@[simp] theorem ofExcept_error (e : ε) (s : σ) :
    (ofExcept (.error e) : Action σ ε α) s = .refused e s := rfl

instance : LawfulMonad (Action σ ε) :=
  LawfulMonad.mk' _
    (fun x => by
      funext s; show andThen x (fun a => ret (id a)) s = x s
      simp only [andThen]; cases x s <;> rfl)
    (fun _ _ => rfl)
    (fun x f g => by
      funext s; show andThen (andThen x f) g s = andThen x (fun a => andThen (f a) g) s
      simp only [andThen]; cases x s <;> rfl)

end Action

end Exokernel
