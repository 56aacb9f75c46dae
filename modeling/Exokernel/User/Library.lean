import Exokernel.User.Program

/-!
# The user library

A receiver reads the message back from its own environment record. An address at or above `utop` stands for a
message without a page.

The kernel enters the fault trampoline with a fault record at the stack pointer. The trampoline runs the registered
handler and returns to the context of the fault, so that the access is tried again. A program without a handler, or
with one that fails, ends.

A clone maps the parent's user pages. `fork` makes every writable page copy-on-write on both sides, the child's
side first so that the parent's page is never writable while it is shared; `shareFork` shares all memory except
the top page of the stack.
-/

set_option autoImplicit false

namespace Exokernel

/-! ## Messages -/

structure Delivery where
  value : Word
  sender : Env.Id
  perm : PageFlags
deriving DecidableEq

namespace Program

def pageOrNone (page : Option Word) : Word := page.getD (UInt64.ofNat utop)

def delivered : Part ErrorCode Delivery := do
  let id ← self
  match ← info id with
  | some i => return { value := i.value, sender := i.sender, perm := i.perm }
  | none => throw .badEnvironment

/-- Sends a polled message, yielding while the target is not receiving, at most `patience` times over. -/
def send (target : Env.Id) (m : Env.Message) : (patience : Nat) → Part ErrorCode Unit
  | 0 => ExceptT.mk (abort .patienceSpent)
  | patience + 1 => do
    match ← attempt (perform (.trySend target m)) with
    | .error .notReceiving =>
      yield
      send target m patience
    | .error e => throw e
    | .ok () => pure ()

def receive (page : Option Word) : Part ErrorCode Delivery := do
  perform (.receive (pageOrNone page))
  delivered

def sendQueued (target : Env.Id) (m : Env.Message) : Part ErrorCode Unit := perform (.sendQueued target m)

def receiveQueued (page : Option Word) : Part ErrorCode Delivery := do
  perform (.receiveQueued (pageOrNone page))
  delivered

def waitFor (id : Env.Id) (yields : Nat) : (patience : Nat) → Program Nat
  | 0 => abort .patienceSpent
  | patience + 1 => do
    match ← info id with
    | none => return yields
    | some _ =>
      yield
      waitFor id (yields + 1) patience

end Program

/-! ## Faults -/

namespace Program

def dataPage : PageFlags := PageFlags.present ||| PageFlags.user ||| PageFlags.writable

def exit {α : Type} : Program α := do
  match ← (perform (.destroy .self)).run with
  | .ok () => abort .survivedExit
  | .error code => abort (.exitRefused code)

def installHandler (h : Handler) : Part ErrorCode Unit := do
  let old ← (getHandler done : Program (Option Handler))
  if old.isNone then
    perform (.allocPage .self (UInt64.ofNat exceptionPage) dataPage)
    perform (.setUpcall .self (UInt64.ofNat upcallEntry))
  (setHandler h (done ()) : Program Unit)

def step (c : Call) : Part ForkError Unit := (perform c).adapt ForkError.callFailed

/-- Gives the program a private copy of the copy-on-write page that it tried to write. The copy is made at the
scratch page and then mapped in place of the shared page. -/
def copyPage (r : FaultRecord) : Part ForkError Unit := do
  let code : FaultCode := ⟨r.err⟩
  let shared ← if ← spanAt r.va then entryAt r.va else (pure none : Program _)
  let cow := (shared.map fun e => e.contains PageFlags.cow).getD false
  if !code.contains (FaultCode.protection ||| FaultCode.write ||| FaultCode.user) || !cow then
    throw (.notCopyOnWrite r.va r.err)
  let base := UInt64.ofNat (pageBase r.va.toNat)
  let scratch := UInt64.ofNat scratchPage
  step (.allocPage .self scratch dataPage)
  let page ← read base pageSize
  write scratch page
  step (.mapPage .self scratch .self base dataPage)
  step (.unmapPage .self scratch)

def handleFault (h : Handler) (r : FaultRecord) : Part ForkError Unit :=
  match h with
  | .copyOnWrite => copyPage r
  | .ignore => pure ()
  | .fail e => throw e

def trampoline : Program Unit := do
  let sp ← stackPointer done
  let b ← read sp FaultRecord.size
  match FaultRecord.decode b with
  | none => exit
  | some r =>
    match ← getHandler done with
    | none => exit
    | some h =>
      match ← (handleFault h r).run with
      | .error _ => exit
      | .ok () => resume r (done ())

end Program

/-! ## Clones -/

inductive Side where
  | parent (child : Env.Id)
  | child
deriving DecidableEq

namespace Program

def needsCopy (perm : PageFlags) : Bool := perm.intersects (PageFlags.writable ||| PageFlags.cow)

def copyOnWrite (perm : PageFlags) : PageFlags := (perm \ PageFlags.writable) ||| PageFlags.cow

def sharePage (child : Env.Id) (va : Word) (entry : PageFlags) : Part ErrorCode Unit :=
  perform (.mapPage .self va child va (entry &&& PageFlags.requestable))

def duplicatePage (child : Env.Id) (va : Word) (entry : PageFlags) : Part ErrorCode Unit := do
  let perm := entry &&& PageFlags.requestable
  if needsCopy perm then
    perform (.mapPage .self va child va (copyOnWrite perm))
    perform (.mapPage .self va .self va (copyOnWrite perm))
  else sharePage child va entry

def sharePageOrStack (child : Env.Id) (va : Word) (entry : PageFlags) : Part ErrorCode Unit :=
  if va.toNat = stackPage then duplicatePage child va entry else sharePage child va entry

def userSpans : List Nat := (List.range ((utop + spanSize - 1) / spanSize)).map (· * spanSize)

def pagesOf (span : Nat) : List Nat :=
  ((List.range (spanSize / pageSize)).map fun i => span + i * pageSize).filter fun va =>
    va < utop && va != exceptionPage

def forEachUserPage (visit : Word → PageFlags → Part ErrorCode Unit) : Part ErrorCode Unit :=
  userSpans.forM fun span => do
    if ← (spanAt (UInt64.ofNat span) : Program Bool) then
      (pagesOf span).forM fun va => do
        match ← (entryAt (UInt64.ofNat va) : Program _) with
        | some entry =>
          if entry.contains (PageFlags.present ||| PageFlags.user) then visit (UInt64.ofNat va) entry
        | none => pure ()

def cloneWith (visit : Env.Id → Word → PageFlags → Part ErrorCode Unit) : Part ForkError Side := do
  (installHandler .copyOnWrite).adapt ForkError.callFailed
  let child ← fork.adapt ForkError.noChild
  if child.isSelf then return .child
  step (.allocPage child (UInt64.ofNat exceptionPage) dataPage)
  step (.setUpcall child (UInt64.ofNat upcallEntry))
  (forEachUserPage (visit child)).adapt ForkError.callFailed
  step (.setStatus child .runnable)
  return .parent child

def copyFork : Part ForkError Side := cloneWith duplicatePage

def shareFork : Part ForkError Side := cloneWith sharePageOrStack

end Program

end Exokernel
