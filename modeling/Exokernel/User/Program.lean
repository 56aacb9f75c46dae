import Exokernel.Syscall.Call

/-!
# User programs

A program is a tree of requests to its processor: system calls, loads and stores, readings of the windows that the
kernel exports, and the program's own fault handler. What follows a request depends on its answer. Loads and
stores have no answer of failure: a fault is repaired before they come back, or the program does not go on.
-/

set_option autoImplicit false

namespace Exokernel

inductive ForkError where
  | noChild (code : ErrorCode)
  | callFailed (code : ErrorCode)
  /-- The fault is not a user write to a present copy-on-write page. -/
  | notCopyOnWrite (va err : Word)
deriving DecidableEq

def ForkError.text : ForkError → String
  | noChild code => s!"exofork failed: {code.name}"
  | callFailed code => s!"syscall failed: {code.name}"
  | notCopyOnWrite va err =>
    s!"fault at {Text.hex0x va.toNat} (err {Text.hex0x err.toNat}) is not a copy-on-write write"

inductive Handler where
  | copyOnWrite
  | ignore
  | fail (e : ForkError)
deriving DecidableEq

inductive Abort where
  | survivedExit
  | exitRefused (code : ErrorCode)
  | patienceSpent
deriving DecidableEq

def Abort.message : Abort → String
  | survivedExit => "environment survived its own destruction"
  | exitRefused code => s!"self-destroy refused: {code.name}"
  | patienceSpent => "patience spent"

inductive Program (α : Type) : Type where
  | done (value : α)
  /-- Traps into the kernel with a call number and arguments; the answer is a signed word. -/
  | call (number : Word) (arguments : Arguments) (next : Int → Program α)
  | load (va : Word) (count : Nat) (next : Bytes → Program α)
  | store (va : Word) (data : Bytes) (next : Program α)
  | pageEntry (va : Word) (next : Option PageFlags → Program α)
  | spanPresent (va : Word) (next : Bool → Program α)
  | envInfo (id : Env.Id) (next : Option Env.Info → Program α)
  | getHandler (next : Option Handler → Program α)
  | setHandler (handler : Handler) (next : Program α)
  | stackPointer (next : Word → Program α)
  | resume (record : FaultRecord) (next : Program α)
  | abort (cause : Abort)

namespace Program

variable {α β : Type}

def andThen (p : Program α) (f : α → Program β) : Program β :=
  match p with
  | done a => f a
  | call number arguments next => call number arguments fun r => (next r).andThen f
  | load va count next => load va count fun b => (next b).andThen f
  | store va data next => store va data (next.andThen f)
  | pageEntry va next => pageEntry va fun x => (next x).andThen f
  | spanPresent va next => spanPresent va fun x => (next x).andThen f
  | envInfo id next => envInfo id fun x => (next x).andThen f
  | getHandler next => getHandler fun x => (next x).andThen f
  | setHandler handler next => setHandler handler (next.andThen f)
  | stackPointer next => stackPointer fun x => (next x).andThen f
  | resume record next => resume record (next.andThen f)
  | abort cause => abort cause

instance : Monad Program where
  pure := done
  bind := andThen

def rawCall (number : Word) (arguments : Arguments) : Program Int := call number arguments done

def read (va : Word) (count : Nat) : Program Bytes := load va count done

def write (va : Word) (data : Bytes) : Program Unit := store va data (done ())

def entryAt (va : Word) : Program (Option PageFlags) := pageEntry va done

def spanAt (va : Word) : Program Bool := spanPresent va done

def info (id : Env.Id) : Program (Option Env.Info) := envInfo id done

abbrev Part (ε α : Type) := ExceptT ε Program α

def attempt {ε ε' : Type} (p : Part ε α) : Part ε' (Except ε α) := ExceptT.lift p.run

def issue (c : Call) : Part ErrorCode Word :=
  ExceptT.mk (call c.number c.arguments fun r => done (ErrorCode.check r))

def perform (c : Call) : Part ErrorCode Unit := do
  let _ ← issue c

def self : Program Env.Id :=
  call Call.self.number Call.self.arguments fun r => done (.ofWord (UInt64.ofInt r))

def yield : Program Unit := call Call.yield.number Call.yield.arguments fun _ => done ()

def getc : Program (Option UInt8) := do
  match ← (issue .getc).run with
  | .ok w => return if w = 0 then none else some w.toUInt8
  | .error _ => return none

def fork : Part ErrorCode Env.Id := do return .ofWord (← issue .fork)

end Program

end Exokernel
