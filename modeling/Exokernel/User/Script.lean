import Exokernel.User.Library

/-!
# A scripted processor

What a program can ask of its library, as data, and a processor that runs programs against a fixed list of answers
per system call. Its memory is flat and independent of the page mappings, which follow the calls that a program makes
about its own pages. Everything observable is noted.
-/

set_option autoImplicit false

/-! ## Requests to the library -/

namespace Exokernel

inductive Request where
  | copyFork
  | shareFork
  | bareFork
  | copyPage (record : FaultRecord)
  | installHandler (handler : Handler)
  | trampoline
  | exit
  | send (target : Env.Id) (message : Env.Message)
  | receive (page : Option Word)
  | sendQueued (target : Env.Id) (message : Env.Message)
  | receiveQueued (page : Option Word)
  | perform (call : Call)
  | scan
  | getc
  | self
  | yield
  | load (va : Word) (count : Nat)
  | store (va : Word) (data : Bytes)
  | rawCall (number : Word) (arguments : Arguments)
  | entryAt (va : Word)
  | spanAt (va : Word)
  | info (id : Env.Id)
  | waitFor (id : Env.Id)

inductive Answer where
  | nothing
  | int (n : Int)
  | flag (b : Bool)
  | register (w : Word)
  | bytes (b : Bytes)
  | byte (b : Option UInt8)
  | id (i : Env.Id)
  | perm (p : Option PageFlags)
  | info (i : Option Env.Info)
  | checked (r : Except ErrorCode Unit)
  | word (r : Except ErrorCode Word)
  | child (r : Except ErrorCode Env.Id)
  | delivery (r : Except ErrorCode Delivery)
  | side (r : Except ForkError Side)
  | handled (r : Except ForkError Unit)

namespace Request

/-- The program that a request runs. A request that tries again does so at most `patience` times. -/
def program (patience : Nat) : Request → Program Answer
  | copyFork => return .side (← Program.copyFork.run)
  | shareFork => return .side (← Program.shareFork.run)
  | bareFork => return .child (← Program.fork.run)
  | copyPage r => return .handled (← (Program.copyPage r).run)
  | installHandler h => return .checked (← (Program.installHandler h).run)
  | trampoline => do
    Program.trampoline
    return .nothing
  | exit => Program.exit
  | send target m => return .checked (← (Program.send target m patience).run)
  | receive page => return .delivery (← (Program.receive page).run)
  | sendQueued target m => return .checked (← (Program.sendQueued target m).run)
  | receiveQueued page => return .delivery (← (Program.receiveQueued page).run)
  | perform c => return .checked (← (Program.perform c).run)
  | scan => return .word (← (Program.issue .scan).run)
  | getc => return .byte (← Program.getc)
  | self => return .id (← Program.self)
  | yield => do
    Program.yield
    return .nothing
  | load va count => return .bytes (← Program.read va count)
  | store va data => do
    Program.write va data
    return .nothing
  | rawCall number a => return .int (← Program.rawCall number a)
  | entryAt va => return .perm (← Program.entryAt va)
  | spanAt va => return .flag (← Program.spanAt va)
  | info id => return .info (← Program.info id)
  | waitFor id => return .int (← Program.waitFor id 0 patience)

end Request

/-! ## The processor -/

inductive Deed where
  | called (number : Word) (arguments : Arguments) (answer : Int)
  | loaded (va : Word) (count : Nat)
  | stored (va : Word) (data : Bytes)
  | resumed (record : FaultRecord)

structure Script where
  answers : List (Nat × List Int) := []
  pages : Ascending PageFlags := []
  stores : List (Nat × Array UInt8) := []
  handler : Option Handler := none
  handlerSet : Bool := false
  info : Option Env.Info := none
  sp : Word := 0
  deeds : List Deed := []

namespace Script

def note (s : Script) (d : Deed) : Script := { s with deeds := d :: s.deeds }

def takeAnswer (number : Nat) : List (Nat × List Int) → Int × List (Nat × List Int)
  | [] => (0, [])
  | (n, rs) :: rest =>
    if n = number then
      match rs with
      | [] => (0, (n, []) :: rest)
      | r :: rs => (r, (n, rs) :: rest)
    else
      let (r, rest) := takeAnswer number rest
      (r, (n, rs) :: rest)

def mapCall (pages : Ascending PageFlags) (number : Word) (a : Arguments) : Ascending PageFlags :=
  if number = 7 ∧ a.word 0 = 0 then Ascending.insert (a.word 1).toNat ⟨a.word 2⟩ pages
  else if number = 8 ∧ a.word 2 = 0 then Ascending.insert (a.word 3).toNat ⟨a.word 4⟩ pages
  else if number = 9 ∧ a.word 0 = 0 then Ascending.erase (a.word 1).toNat pages
  else pages

def call (s : Script) (number : Word) (a : Arguments) : Int × Script :=
  let (r, answers) := takeAnswer number.toNat s.answers
  (r, { s with answers, pages := mapCall s.pages number a }.note (.called number a r))

def byteAt (s : Script) (va : Nat) : UInt8 :=
  (s.stores.findSome? fun (base, data) => if base ≤ va then data[va - base]? else none).getD 0

def bytesAt (s : Script) (va count : Nat) : Bytes :=
  (List.range count).map fun i => s.byteAt ((va + i) % addressLimit)

def load (s : Script) (va : Word) (count : Nat) : Bytes × Script :=
  (s.bytesAt va.toNat count, s.note (.loaded va count))

def poke (s : Script) (va : Nat) (data : Bytes) : Script :=
  { s with stores := (va, data.toArray) :: s.stores }

def store (s : Script) (va : Word) (data : Bytes) : Script := (s.poke va.toNat data).note (.stored va data)

def entryAt (s : Script) (va : Nat) : Option PageFlags := Ascending.find? (pageBase va) s.pages

def spanAt (s : Script) (va : Nat) : Bool := s.pages.any fun p => spanBase p.1 == spanBase va

def run {α : Type} : Program α → Script → Except Abort α × Script
  | .done a, s => (.ok a, s)
  | .call number a next, s => run (next (s.call number a).1) (s.call number a).2
  | .load va count next, s => run (next (s.load va count).1) (s.load va count).2
  | .store va data next, s => run next (s.store va data)
  | .pageEntry va next, s => run (next (s.entryAt va.toNat)) s
  | .spanPresent va next, s => run (next (s.spanAt va.toNat)) s
  | .envInfo _ next, s => run (next s.info) s
  | .getHandler next, s => run (next s.handler) s
  | .setHandler h next, s => run next { s with handler := some h, handlerSet := true }
  | .stackPointer next, s => run (next s.sp) s
  | .resume r next, s => run next ({ s with sp := r.sp }.note (.resumed r))
  | .abort cause, s => (.error cause, s)

def patience (s : Script) : Nat := s.answers.foldl (fun total p => total + p.2.length) 1

def answer (s : Script) (r : Request) : Except Abort Answer × Script := run (r.program s.patience) s

def takeDeeds (s : Script) : List Deed × Script := (s.deeds.reverse, { s with deeds := [] })

end Script

end Exokernel
