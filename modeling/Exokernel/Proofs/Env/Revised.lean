import Exokernel.Proofs.Env.Occupancy

/-!
# Tables revised all over

A change that is not made to one environment but to many is given as a function on environments. Updates are such
changes, and one after the other they are one.
-/

set_option autoImplicit false

namespace Exokernel.Env.Table

variable {t : Table} {f g g' : Env → Env} {i : Nat} {id : Id} {e : Env}

def revise (t : Table) (g : Env → Env) : Table := { t with slots := t.slots.map fun e => if e.isFree then e else g e }

theorem slot?_revise (t : Table) (g : Env → Env) (i : Nat) :
    (t.revise g).slot? i = (t.slot? i).map fun e => if e.isFree then e else g e := by
  simp only [Table.slot?, revise, Array.getElem?_map]

theorem slot?_revise_live (hs : t.slot? i = some e) (hl : e.isFree = false) : (t.revise g).slot? i = some (g e) := by
  rw [slot?_revise, hs, Option.map_some, if_neg (by simp [hl])]

@[simp] theorem capacity_revise : (t.revise g).capacity = t.capacity := by simp [Table.capacity, revise]

theorem ext_slot? {t t' : Table} (hs : ∀ i, t'.slot? i = t.slot? i) (hh : t'.freeHead = t.freeHead)
    (hl : t'.live = t.live) : t' = t := by
  obtain ⟨slots, head, live⟩ := t
  obtain ⟨slots', head', live'⟩ := t'
  obtain rfl : slots' = slots := Array.ext_getElem? hs
  obtain rfl : head' = head := hh
  obtain rfl : live' = live := hl
  rfl

theorem revise_congr (h : ∀ i e, t.slot? i = some e → e.isFree = false → g e = g' e) : t.revise g = t.revise g' := by
  refine ext_slot? (fun i => ?_) rfl rfl
  rw [slot?_revise, slot?_revise]
  cases hs : t.slot? i with
  | none => rfl
  | some e =>
    cases hl : e.isFree with
    | true => simp [hl]
    | false => simp [hl, h i e hs hl]

theorem revise_self (t : Table) : t.revise (fun e => e) = t := by
  refine ext_slot? (fun i => ?_) rfl rfl
  rw [slot?_revise]
  simp

theorem revise_revise (hg : ∀ e, e.isFree = false → (g e).title = e.title) :
    (t.revise g).revise g' = t.revise fun e => g' (g e) := by
  refine ext_slot? (fun i => ?_) rfl rfl
  rw [slot?_revise, slot?_revise, slot?_revise, Option.map_map]
  congr 1
  funext e
  cases hl : e.isFree with
  | true => simp [hl]
  | false => simp [hl, (title_eq.mp (hg e hl)).2.2.1]

theorem touched_revise (hg : ∀ e, e.isFree = false → (g e).title = e.title) : Touched t (t.revise g) := by
  refine ⟨rfl, rfl, fun i => ?_⟩
  rw [slot?_revise, Option.map_map]
  cases hs : t.slot? i with
  | none => rfl
  | some e =>
    cases hl : e.isFree with
    | true => simp [hl]
    | false => simp [hl, hg e hl]

theorem find?_revise (hg : ∀ e, e.isFree = false → (g e).title = e.title) (id : Id) :
    (t.revise g).find? id = (t.find? id).map g := by
  rw [find?, find?, slot?_revise]
  cases hs : t.slot? id.index with
  | none => rfl
  | some e =>
    cases hl : e.isFree with
    | true => simp [hl]
    | false =>
      obtain ⟨hid, -, hfree, -⟩ := title_eq.mp (hg e hl)
      simp only [Option.map_some, hl, Bool.false_eq_true, if_false, hfree, hid, Bool.not_false, Bool.true_and]
      split <;> rfl

theorem update_same (t : Table) (id : Id) : (t.update id fun e => e) = t := by
  cases hf : t.find? id with
  | none => exact update_of_none hf
  | some e =>
    refine ext_slot? (fun i => ?_) freeHead_update live_update
    rw [slot?_update hf]
    split
    · next hi => rw [hi, slot?_of_find? hf]
    · rfl

/-- An update revises whom it names. -/
theorem update_eq_revise (ht : t.Indexed) : t.update id f = t.revise fun e => if e.id = id then f e else e := by
  refine ext_slot? (fun i => ?_) freeHead_update live_update
  rw [slot?_revise]
  cases hf : t.find? id with
  | none =>
    rw [update_of_none hf]
    cases hs : t.slot? i with
    | none => rfl
    | some e =>
      cases hl : e.isFree with
      | true => simp [hl]
      | false =>
        have hne : e.id ≠ id := fun h => by
          rw [← h, ht.find?_of_slot? hs hl] at hf
          cases hf
        simp [hl, hne]
  | some x =>
    rw [slot?_update hf]
    split
    · next hi =>
      rw [hi, slot?_of_find? hf]
      simp [live_of_find? hf, id_of_find? hf]
    · next hi =>
      cases hs : t.slot? i with
      | none => rfl
      | some e =>
        cases hl : e.isFree with
        | true => simp [hl]
        | false =>
          have hne : e.id ≠ id := fun h => hi (h ▸ (ht i e hs hl).symm)
          simp [hl, hne]

theorem update_revise (ht : t.Indexed) (hg : ∀ e, e.isFree = false → (g e).title = e.title) :
    (t.revise g).update id f = t.revise fun e => if e.id = id then f (g e) else g e := by
  rw [update_eq_revise ((touched_revise hg).indexed ht), revise_revise hg]
  refine revise_congr fun _ e _ hl => ?_
  rw [(title_eq.mp (hg e hl)).1]

end Exokernel.Env.Table
