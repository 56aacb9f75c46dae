import Exokernel.Error

/-!
# System calls

A system call is a number and five argument words. Programs encode a call with `number` and `arguments`; the
kernel decodes the words it finds and refuses those that no valid call encodes. Words that depend on the state
of the kernel are judged when the call is performed.
-/

set_option autoImplicit false

namespace Exokernel

inductive Call where
  | puts (va count : Word)
  | getc
  | self
  | destroy (env : Env.Id)
  | yield
  | fork
  | setStatus (env : Env.Id) (status : Env.Status)
  | allocPage (env : Env.Id) (va : Word) (perm : PageFlags)
  | mapPage (src : Env.Id) (srcva : Word) (dst : Env.Id) (dstva : Word) (perm : PageFlags)
  | unmapPage (env : Env.Id) (va : Word)
  | setUpcall (env : Env.Id) (entry : Word)
  | scan
  | trySend (target : Env.Id) (message : Env.Message)
  | receive (dstva : Word)
  | sendQueued (target : Env.Id) (message : Env.Message)
  | receiveQueued (dstva : Word)
deriving DecidableEq

namespace Call

def number : Call → Word
  | puts .. => 0
  | getc => 1
  | self => 2
  | destroy .. => 3
  | yield => 4
  | fork => 5
  | setStatus .. => 6
  | allocPage .. => 7
  | mapPage .. => 8
  | unmapPage .. => 9
  | setUpcall .. => 10
  | scan => 11
  | trySend .. => 12
  | receive .. => 13
  | sendQueued .. => 14
  | receiveQueued .. => 15

def arguments : Call → Arguments
  | puts va count => #v[va, count, 0, 0, 0]
  | destroy env => #v[env.toWord, 0, 0, 0, 0]
  | setStatus env status => #v[env.toWord, status.toWord, 0, 0, 0]
  | allocPage env va perm => #v[env.toWord, va, perm.bits, 0, 0]
  | mapPage src srcva dst dstva perm => #v[src.toWord, srcva, dst.toWord, dstva, perm.bits]
  | unmapPage env va => #v[env.toWord, va, 0, 0, 0]
  | setUpcall env entry => #v[env.toWord, entry, 0, 0, 0]
  | trySend target m => #v[target.toWord, m.value, m.srcva, m.perm.bits, 0]
  | receive dstva => #v[dstva, 0, 0, 0, 0]
  | sendQueued target m => #v[target.toWord, m.value, m.srcva, m.perm.bits, 0]
  | receiveQueued dstva => #v[dstva, 0, 0, 0, 0]
  | getc | self | yield | fork | scan => #v[0, 0, 0, 0, 0]

def envArgument (w : Word) : Except CallError Env.Id :=
  match Env.Id.ofWord? w with
  | some id => .ok id
  | none => .error (.env .badEnvironment)

def pageArgument (va : Word) : Except CallError Word :=
  if isUserPage va.toNat then .ok va else .error .invalidArgument

def flagsArgument (w : Word) : Except CallError PageFlags :=
  match Flags.ofBits? w with
  | some f => .ok f
  | none => .error .invalidArgument

def permArgument (w : Word) : Except CallError PageFlags := do
  let perm ← flagsArgument w
  if perm.contains (PageFlags.present ||| PageFlags.user) then return perm else throw .invalidArgument

def statusArgument (w : Word) : Except CallError Env.Status :=
  match Env.Status.ofWord? w with
  | some .running => .error .invalidArgument
  | some s => .ok s
  | none => .error .invalidArgument

def sendArguments (a : Arguments) : Except CallError (Env.Id × Env.Message) := do
  let target ← envArgument (a.word 0)
  let perm ← flagsArgument (a.word 3)
  return (target, { value := a.word 1, srcva := a.word 2, perm })

abbrev Decoder := Arguments → Except CallError Call

def decodePuts : Decoder := fun a => .ok (puts (a.word 0) (a.word 1))

def decodeDestroy : Decoder := fun a => do return destroy (← envArgument (a.word 0))

def decodeSetStatus : Decoder := fun a => do
  let env ← envArgument (a.word 0)
  return setStatus env (← statusArgument (a.word 1))

def decodeAllocPage : Decoder := fun a => do
  let env ← envArgument (a.word 0)
  let va ← pageArgument (a.word 1)
  return allocPage env va (← permArgument (a.word 2))

def decodeMapPage : Decoder := fun a => do
  let src ← envArgument (a.word 0)
  let srcva ← pageArgument (a.word 1)
  let dst ← envArgument (a.word 2)
  let dstva ← pageArgument (a.word 3)
  return mapPage src srcva dst dstva (← permArgument (a.word 4))

def decodeUnmapPage : Decoder := fun a => do return unmapPage (← envArgument (a.word 0)) (a.word 1)

def decodeSetUpcall : Decoder := fun a => do return setUpcall (← envArgument (a.word 0)) (a.word 1)

def decodeTrySend : Decoder := fun a => do
  let (target, m) ← sendArguments a
  return trySend target m

def decodeSendQueued : Decoder := fun a => do
  let (target, m) ← sendArguments a
  return sendQueued target m

end Call

def CallTable : Type := Nat → Option Call.Decoder

namespace CallTable

def limit : Nat := 32

def empty : CallTable := fun _ => none

def register (t : CallTable) (number : Nat) (d : Call.Decoder) : CallTable :=
  if number < limit then fun n => if n = number then some d else t n else t

def standard : CallTable
  | 0 => some Call.decodePuts
  | 1 => some fun _ => .ok .getc
  | 2 => some fun _ => .ok .self
  | 3 => some Call.decodeDestroy
  | 4 => some fun _ => .ok .yield
  | 5 => some fun _ => .ok .fork
  | 6 => some Call.decodeSetStatus
  | 7 => some Call.decodeAllocPage
  | 8 => some Call.decodeMapPage
  | 9 => some Call.decodeUnmapPage
  | 10 => some Call.decodeSetUpcall
  | 11 => some fun _ => .ok .scan
  | 12 => some Call.decodeTrySend
  | 13 => some fun a => .ok (.receive (a.word 0))
  | 14 => some Call.decodeSendQueued
  | 15 => some fun a => .ok (.receiveQueued (a.word 0))
  | _ => none

def decode (t : CallTable) (number : Word) (a : Arguments) : Except CallError Call :=
  match t number.toNat with
  | some d => d a
  | none => .error .unknownCall

end CallTable

end Exokernel
