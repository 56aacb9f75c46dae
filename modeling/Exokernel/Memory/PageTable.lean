import Exokernel.Flags
import Exokernel.Layout

/-!
# Page tables

The leaf entries of an address space by page, and the frames that back its page-table pages by span. A page
can be mapped only where a page-table page covers it. Both are finite maps from natural numbers, kept as the list of
their pairs in ascending order of keys.
-/

set_option autoImplicit false

/-! ## Maps with ascending keys -/

namespace Exokernel

abbrev Ascending (α : Type) := List (Nat × α)

namespace Ascending

variable {α : Type}

def find? (key : Nat) : Ascending α → Option α
  | [] => none
  | (k, a) :: rest => if k = key then some a else find? key rest

def has (key : Nat) (m : Ascending α) : Bool := (find? key m).isSome

def insert (key : Nat) (a : α) : Ascending α → Ascending α
  | [] => [(key, a)]
  | (k, b) :: rest =>
    if key < k then (key, a) :: (k, b) :: rest
    else if k = key then (key, a) :: rest
    else (k, b) :: insert key a rest

def erase (key : Nat) : Ascending α → Ascending α
  | [] => []
  | (k, b) :: rest => if k = key then rest else (k, b) :: erase key rest

def values (m : Ascending α) : List α := m.map Prod.snd

@[simp] theorem find?_insert_self (key : Nat) (a : α) (m : Ascending α) :
    find? key (insert key a m) = some a := by
  induction m with
  | nil => simp [insert, find?]
  | cons p rest ih =>
    rw [insert]
    split
    · simp [find?]
    · split
      · simp [find?]
      · next h => simpa [find?, h] using ih

theorem find?_insert_of_ne {key other : Nat} (h : other ≠ key) (a : α) (m : Ascending α) :
    find? other (insert key a m) = find? other m := by
  induction m with
  | nil => simp [insert, find?, Ne.symm h]
  | cons p rest ih =>
    rw [insert]
    split
    · simp [find?, Ne.symm h]
    · split
      · next hk => simp [find?, hk, Ne.symm h]
      · simp [find?, ih]

theorem find?_erase_of_ne {key other : Nat} (h : other ≠ key) (m : Ascending α) :
    find? other (erase key m) = find? other m := by
  induction m with
  | nil => rfl
  | cons p rest ih =>
    rw [erase]
    split
    · next hk => simp [find?, hk, Ne.symm h]
    · simp [find?, ih]

end Ascending

/-! ## Page tables -/

inductive MapError where
  | unaligned
  | outOfRange
  | invalidFlags
  | missingTable
deriving DecidableEq, Inhabited

def MapError.text : MapError → String
  | unaligned => "Unaligned"
  | outOfRange => "OutOfRange"
  | invalidFlags => "InvalidFlags"
  | missingTable => "MissingTable"

def MapError.all : List MapError := [.unaligned, .outOfRange, .invalidFlags, .missingTable]

structure Mapping where
  frame : FrameId
  flags : PageFlags
deriving DecidableEq, Inhabited

structure PageTable where
  /-- The frames of the page-table pages, by first address of their span. -/
  tables : Ascending FrameId := []
  /-- The mapped pages, by address. -/
  entries : Ascending Mapping := []
deriving DecidableEq, Inhabited

namespace PageTable

def validate (va : Nat) (flags : PageFlags) : Except MapError Unit :=
  if !aligned va then .error .unaligned
  else if utop ≤ va then .error .outOfRange
  else if !flags.contains PageFlags.present then .error .invalidFlags
  else .ok ()

def covers (t : PageTable) (va : Nat) : Bool := Ascending.has (spanBase va) t.tables

def install (t : PageTable) (va : Nat) (frame : FrameId) : PageTable :=
  { t with tables := Ascending.insert (spanBase va) frame t.tables }

def lookup (t : PageTable) (va : Nat) : Option Mapping := Ascending.find? (pageBase va) t.entries

def map (t : PageTable) (va : Nat) (m : Mapping) : Except MapError (Option Mapping × PageTable) := do
  validate va m.flags
  if t.covers va then
    return (Ascending.find? va t.entries, { t with entries := Ascending.insert va m t.entries })
  else throw .missingTable

def unmap (t : PageTable) (va : Nat) : Option Mapping × PageTable :=
  (t.lookup va, { t with entries := Ascending.erase (pageBase va) t.entries })

end PageTable

end Exokernel
