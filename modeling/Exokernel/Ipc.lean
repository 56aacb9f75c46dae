import Exokernel.Kernel.State

/-!
# Messages

A message is a value and, if both ends ask for one, a page. The sender's offer is checked before anything
changes, and a page that cannot be mapped leaves the receiver as it was. The permission that the receiver reads
is the one the sender named, or none when no page moved.

A polling sender succeeds only while the target is blocked in receive, and tries again otherwise. A queueing sender
whose target is not receiving parks with its message in its own outbox, and the target counts it as
waiting. A receiver that has senders waiting scans the table for them from a given slot on. A fetch that fails
wakes its sender with the error, and the scan goes on; without a fetch that succeeds the receiver blocks.
-/

set_option autoImplicit false

namespace Exokernel

/-! ## Handing over a message -/

structure PageOffer where
  srcva : Word
  perm : PageFlags
  mapping : Mapping
deriving DecidableEq

namespace Kernel

def validateSource (k : Kernel) (sender : Env.Id) (m : Env.Message) : Except IpcError (Option PageOffer) := do
  if utop ≤ m.srcva.toNat then return none
  if !aligned m.srcva.toNat || !PageFlags.requestable.contains m.perm then throw .invalidArgument
  let space ← (k.spaceOf sender).mapError IpcError.ofEnv
  match ← (k.memory.lookup space m.srcva.toNat).mapError IpcError.ofSpace with
  | none => throw .invalidArgument
  | some mapping =>
    if !mapping.flags.contains (PageFlags.present ||| PageFlags.user) then throw .invalidArgument
    else if m.perm.contains PageFlags.writable && !mapping.flags.contains PageFlags.writable then
      throw .invalidArgument
    else return some { srcva := m.srcva, perm := m.perm, mapping }

def validateDestination (dstva : Word) : Except IpcError Unit :=
  if dstva.toNat < utop ∧ !aligned dstva.toNat then .error .invalidArgument else .ok ()

def acceptPage (receiver : Env) : Option PageOffer → Action Kernel IpcError PageFlags
  | none => pure .empty
  | some offer =>
    if receiver.mailbox.dstva.toNat < utop then
      match receiver.space with
      | none => .refuse .badEnvironment
      | some space => do
        (onMemory (Memory.insert space offer.mapping.frame receiver.mailbox.dstva.toNat
          (offer.perm ||| PageFlags.present ||| PageFlags.user))).mapError IpcError.ofSpace
        return offer.perm
    else pure .empty

/-- Puts a message into the mailbox of `target`, which then no longer receives. Its status is left alone. -/
def transfer (sender target : Env.Id) (m : Env.Message) : Action Kernel IpcError Unit := do
  let offer ← (← .state).validateSource sender m
  let receiver ← (readEnv target).mapError IpcError.ofEnv
  let perm ← acceptPage receiver offer
  updateEnv target fun e =>
    { e with mailbox := { e.mailbox with receiving := false, sender, value := m.value, perm } }
  record (.delivered sender target m.value perm)

def blockInReceive (caller : Env.Id) (dstva : Word) : Action Kernel IpcError Unit := do
  let _ ← (readEnv caller).mapError IpcError.ofEnv
  updateEnv caller fun e =>
    { e with
      mailbox := { e.mailbox with receiving := true, dstva }
      status := .notRunnable
      cpu := none
      context := e.context.setAnswer 0 }

def resolveTarget (caller target : Env.Id) : Action Kernel IpcError Env.Id := do
  Action.ofExcept (((← .state).envs.resolve target (some caller) false).mapError IpcError.ofEnv)

end Kernel

/-! ## Polled messages -/

namespace Kernel

def trySend (caller target : Env.Id) (m : Env.Message) : Action Kernel IpcError Unit := do
  let target ← resolveTarget caller target
  let _ ← (← .state).validateSource caller m
  if !(← (readEnv target).mapError IpcError.ofEnv).mailbox.receiving then .refuse .notReceiving
  transfer caller target m
  updateEnv target fun e => { e with status := .runnable }

def receive (caller : Env.Id) (dstva : Word) : Action Kernel IpcError Unit := do
  validateDestination dstva
  blockInReceive caller dstva

end Kernel

/-! ## Queued messages -/

inductive SendOutcome where
  | delivered
  | parked
deriving DecidableEq, Inhabited

inductive ReceiveOutcome where
  | received (sender : Env.Id)
  | blocked
deriving DecidableEq, Inhabited

namespace Kernel

def addWaiting (target : Env.Id) (e : Env) : Action Kernel IpcError Unit :=
  if e.waiting + 1 < countLimit then updateEnv target fun e => { e with waiting := e.waiting + 1 }
  else .halt .addOverflow

def sendQueued (caller target : Env.Id) (m : Env.Message) : Action Kernel IpcError SendOutcome := do
  let target ← resolveTarget caller target
  if target = caller then .refuse .invalidArgument
  let _ ← (← .state).validateSource caller m
  let e ← (readEnv target).mapError IpcError.ofEnv
  if e.mailbox.receiving then
    transfer caller target m
    updateEnv target fun e => { e with status := .runnable }
    return .delivered
  else
    addWaiting target e
    let _ ← (readEnv caller).mapError IpcError.ofEnv
    updateEnv caller fun e =>
      { e with outbox := some { m with target }, status := .notRunnable, cpu := none }
    record (.parked caller target)
    return .parked

def takeParked (index : Nat) (target : Env.Id) : Action Kernel IpcError (Option (Env.Id × Env.Parcel)) := do
  match (← .state).envs.slot? index with
  | none => return none
  | some e =>
    match e.outbox with
    | none => return none
    | some p =>
      if e.isParkedOn target then
        updateEnv e.id fun e => { e with outbox := none }
        return some (e.id, p)
      else return none

def fetchAnswer : Except IpcError Unit → Word
  | .ok () => 0
  | .error e => e.code.toWord

def fetch (caller : Env.Id) (index : Nat) : Action Kernel IpcError (Option Env.Id) := do
  match ← takeParked index caller with
  | none => return none
  | some (sender, p) =>
    updateEnv caller fun e => { e with waiting := e.waiting - 1 }
    let result ← (transfer sender caller p.toMessage).attempt
    updateEnv sender fun e =>
      { e with context := e.context.setAnswer (fetchAnswer result), status := .runnable }
    match result with
    | .ok () => return some sender
    | .error cause =>
      record (.fetchFailed sender cause)
      return none

/-- Scans `count` slots in circular order, `done` slots after `start`. -/
def fetchFrom (caller : Env.Id) (start : Nat) : (count done : Nat) → Action Kernel IpcError (Option Env.Id)
  | 0, _ => return none
  | count + 1, done => do
    if start + done < addressLimit then
      match ← fetch caller ((start + done) % (← .state).envs.capacity) with
      | some sender => return some sender
      | none => fetchFrom caller start count (done + 1)
    else .halt .addOverflow

def receiveQueued (caller : Env.Id) (dstva : Word) (start : Nat) : Action Kernel IpcError ReceiveOutcome := do
  validateDestination dstva
  let e ← (readEnv caller).mapError IpcError.ofEnv
  if 0 < e.waiting then
    updateEnv caller fun e => { e with mailbox := { e.mailbox with receiving := true, dstva } }
    if let some sender ← fetchFrom caller start (← .state).envs.capacity 0 then return .received sender
  blockInReceive caller dstva
  return .blocked

end Kernel

end Exokernel
