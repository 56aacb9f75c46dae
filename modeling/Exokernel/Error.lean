import Exokernel.Env.Table

/-!
# Failures

Why a message was not handed over, why a system call was refused, and why a fault was not delivered. Every cause of
a refused call maps to the error code that the calling program sees.
-/

set_option autoImplicit false

namespace Exokernel

inductive IpcError where
  | badEnvironment
  | invalidArgument
  | outOfMemory
  | notReceiving
deriving DecidableEq, Inhabited

namespace IpcError

def text : IpcError → String
  | badEnvironment => "BadEnvironment"
  | invalidArgument => "InvalidArgument"
  | outOfMemory => "OutOfMemory"
  | notReceiving => "NotReceiving"

def all : List IpcError := [badEnvironment, invalidArgument, outOfMemory, notReceiving]

def code : IpcError → ErrorCode
  | badEnvironment => .badEnvironment
  | invalidArgument => .invalidArgument
  | outOfMemory => .outOfMemory
  | notReceiving => .notReceiving

def ofEnv : EnvError → IpcError
  | .outOfMemory => outOfMemory
  | .invalidStatus => invalidArgument
  | .badEnvironment => badEnvironment
  | .noFreeSlot => badEnvironment

def ofSpace : SpaceError → IpcError
  | .outOfMemory => outOfMemory
  | .invalidHandle => badEnvironment
  | .mapping _ => invalidArgument

end IpcError

inductive CallError where
  | unknownCall
  | invalidArgument
  | env (e : EnvError)
  | space (e : SpaceError)
  | ipc (e : IpcError)
deriving DecidableEq, Inhabited

namespace CallError

def text : CallError → String
  | unknownCall => "InvalidSyscall"
  | invalidArgument => "InvalidArgument"
  | env e => s!"Env({e.text})"
  | space e => s!"AddressSpace({e.text})"
  | ipc e => s!"Ipc({e.text})"

def all : List CallError :=
  [unknownCall, invalidArgument] ++ EnvError.all.map env ++ SpaceError.all.map space ++ IpcError.all.map ipc

def code : CallError → ErrorCode
  | unknownCall => .invalidArgument
  | invalidArgument => .invalidArgument
  | env .badEnvironment => .badEnvironment
  | env .noFreeSlot => .noFreeSlot
  | env .outOfMemory => .outOfMemory
  | env .invalidStatus => .invalidArgument
  | space .outOfMemory => .outOfMemory
  | space .invalidHandle => .badEnvironment
  | space (.mapping _) => .invalidArgument
  | ipc e => e.code

def encode : Except CallError Word → Word
  | .ok w => w
  | .error e => e.code.toWord

end CallError

inductive UpcallError where
  | noEnvironment
  | noHandler
  /-- The faulting code was already running on the exception stack. -/
  | recursive
  | stackFault (f : AccessFault)
deriving DecidableEq

def UpcallError.text : UpcallError → String
  | noEnvironment => "NoEnvironment"
  | noHandler => "NoHandler"
  | recursive => "Recursive"
  | stackFault f => s!"StackFault({f.text})"

end Exokernel
