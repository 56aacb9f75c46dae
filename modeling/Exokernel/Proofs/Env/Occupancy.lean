import Exokernel.Proofs.Env.Table

/-!
# Slots that change hands

Occupation takes a free slot and gives it an occupant that nobody could name before. Vacation takes a live
environment away from its slot. As maps from ids, the tables before and after differ in that one id.
-/

set_option autoImplicit false

namespace Exokernel.Env

def fresh (id parent : Id) (kind : Kind) (space : Handle) : Env :=
  { id, parent, kind, status := .runnable, space := some space
    context := Context.start 0 (UInt64.ofNat stackTop) }

def unparkFrom (target : Id) (e : Env) : Env :=
  if e.isParkedOn target then e.unpark ErrorCode.badEnvironment.toWord else e

theorem title_unparkFrom (target : Id) (e : Env) : (e.unparkFrom target).title = e.title := by
  unfold unparkFrom
  split
  · next h =>
    have hf : e.isFree = false := by
      simp only [isParkedOn, Bool.and_eq_true, Bool.not_eq_true'] at h
      exact h.1
    simp [title, unpark, isFree] at hf ⊢
    exact hf
  · rfl

namespace Table

variable {t t' : Table} {id target parent : Id} {kind : Kind} {space : Handle} {e : Env} {index : Nat}

theorem slot?_unparkAll (i : Nat) : (t.unparkAll target).slot? i = (t.slot? i).map (unparkFrom target) := by
  simp only [Table.slot?, unparkAll, Array.getElem?_map]
  rfl

theorem touched_unparkAll : Touched t (t.unparkAll target) := by
  refine ⟨rfl, rfl, fun i => ?_⟩
  rw [slot?_unparkAll, Option.map_map]
  cases t.slot? i with
  | none => rfl
  | some e => exact congrArg some (title_unparkFrom target e)

theorem find?_unparkAll (j : Id) : (t.unparkAll target).find? j = (t.find? j).map (unparkFrom target) := by
  simp only [find?, slot?_unparkAll]
  cases t.slot? j.index with
  | none => rfl
  | some e =>
    obtain ⟨hid, -, hfree, -⟩ := title_eq.mp (title_unparkFrom target e)
    simp only [Option.map_some, hid, hfree]
    split <;> rfl

section vacate

variable (h : t.find? id = some e)
include h

theorem slot?_vacate (i : Nat) : (t.vacate id.index).slot? i =
    if i = id.index then some (e.vacated t.freeHead) else t.slot? i := by
  have hs := slot?_of_find? h
  simp only [vacate, Table.slot?, Array.getElem?_modify]
  by_cases hi : i = id.index
  · subst hi
    rw [if_pos rfl, if_pos rfl]
    exact congrArg (Option.map _) hs
  · rw [if_neg (fun e => hi e.symm), if_neg hi]

theorem find?_vacate (j : Id) : (t.vacate id.index).find? j = if j = id then none else t.find? j := by
  by_cases hi : j.index = id.index
  · have hnone : (t.vacate id.index).find? j = none := by
      simp only [find?, slot?_vacate h, if_pos hi]
      rfl
    rw [hnone]
    split
    · rfl
    · next hj => exact (find?_of_same_slot h hi hj).symm
  · rw [if_neg (fun e : j = id => hi (by rw [e]))]
    simp only [find?, slot?_vacate h, if_neg hi]

theorem liveSlots_vacate : (t.vacate id.index).liveSlots + 1 = t.liveSlots := by
  have ht := tally_modify (fun e => if e.isFree then 0 else 1) (fun e => e.vacated t.freeHead) (slot?_of_find? h)
  have hf := live_of_find? h
  simp only [hf, Bool.false_eq_true, if_false] at ht
  exact ht

theorem Sound.not_mem_free (ht : t.Sound) : id.index ∉ t.free := fun hm => by
  obtain ⟨x, hx, hf⟩ := (ht.mem_free _).mp hm
  rw [slot?_of_find? h] at hx
  obtain rfl := Option.some.inj hx
  rw [live_of_find? h] at hf
  cases hf

theorem links_vacate (ht : t.Sound) :
    (t.vacate id.index).Links (t.vacate id.index).freeHead (id.index :: t.free) := by
  refine .next (by rw [slot?_vacate h, if_pos rfl]) (ht.linked.of_slots fun i hi => ?_)
  rw [slot?_vacate h, if_neg (ne_of_mem_of_not_mem hi (ht.not_mem_free h))]

theorem free_vacate (ht : t.Sound) : (t.vacate id.index).free = id.index :: t.free :=
  (links_vacate h ht).free_eq (List.nodup_cons.mpr ⟨ht.not_mem_free h, ht.nodup⟩)

theorem Sound.vacate (ht : t.Sound) : (t.vacate id.index).Sound where
  capacity := by simpa [Table.capacity, Table.vacate] using ht.capacity
  linked := by
    rw [free_vacate h ht]
    exact links_vacate h ht
  nodup := by
    rw [free_vacate h ht]
    exact List.nodup_cons.mpr ⟨ht.not_mem_free h, ht.nodup⟩
  mem_free i := by
    rw [free_vacate h ht, List.mem_cons, ht.mem_free, slot?_vacate h]
    by_cases hi : i = id.index
    · simp [hi, vacated, isFree]
    · simp [hi]
  count := by
    have hl := liveSlots_vacate h
    show t.live - 1 = _
    rw [ht.count]
    omega
  named i x hx hf := by
    rw [slot?_vacate h] at hx
    split at hx
    · obtain rfl := Option.some.inj hx
      cases hf
    · exact ht.named i x hx hf
  bare i x hx hf := by
    rw [slot?_vacate h] at hx
    split at hx
    · obtain rfl := Option.some.inj hx
      rfl
    · exact ht.bare i x hx hf

end vacate

section occupy

variable (ht : t.Sound) (hfree : t.freeHead = some index)
include ht hfree

theorem Sound.head_free : ∃ e, t.slot? index = some e ∧ e.isFree = true := by
  obtain ⟨e, list, -, hlist, -⟩ := ht.free_of_head hfree
  exact (ht.mem_free index).mp (by simp [hlist])

theorem Sound.head_lt : index < slotLimit := by
  obtain ⟨e, he, -⟩ := ht.head_free hfree
  exact Nat.lt_of_lt_of_le (slot?_lt he) ht.capacity

theorem occupy_id (parent : Id) (kind : Kind) (space : Handle) :
    (t.occupy index parent kind space).1.index = index ∧
    1 ≤ (t.occupy index parent kind space).1.generation ∧
    (t.occupy index parent kind space).1.generation < generationLimit :=
  Id.next_spec _ (ht.head_lt hfree)

theorem slot?_occupy (parent : Id) (kind : Kind) (space : Handle) (i : Nat) :
    (t.occupy index parent kind space).2.slot? i =
    if i = index then some (fresh (t.occupy index parent kind space).1 parent kind space) else t.slot? i := by
  obtain ⟨e, he, -⟩ := ht.head_free hfree
  have hlt : index < t.slots.size := slot?_lt he
  simp only [Table.slot?, occupy, Array.getElem?_setIfInBounds]
  by_cases hi : i = index
  · subst hi
    simp [hlt, fresh]
  · rw [if_neg (fun e => hi e.symm), if_neg hi]

theorem find?_occupy_fresh (parent : Id) (kind : Kind) (space : Handle) :
    t.find? (t.occupy index parent kind space).1 = none := by
  obtain ⟨e, he, hf⟩ := ht.head_free hfree
  simp [find?, (occupy_id ht hfree parent kind space).1, he, hf]

theorem find?_occupy (parent : Id) (kind : Kind) (space : Handle) (j : Id) :
    (t.occupy index parent kind space).2.find? j =
    if j = (t.occupy index parent kind space).1 then
      some (fresh (t.occupy index parent kind space).1 parent kind space)
    else t.find? j := by
  have hid := (occupy_id ht hfree parent kind space).1
  have hself : (t.occupy index parent kind space).2.find? (t.occupy index parent kind space).1 =
      some (fresh (t.occupy index parent kind space).1 parent kind space) := by
    rw [find?_eq_some, slot?_occupy ht hfree, hid, if_pos rfl]
    exact ⟨rfl, rfl, rfl⟩
  by_cases hj : j = (t.occupy index parent kind space).1
  · rw [if_pos hj, hj]
    exact hself
  · rw [if_neg hj]
    by_cases hi : j.index = index
    · obtain ⟨e, he, hf⟩ := ht.head_free hfree
      have hbefore : t.find? j = none := by simp [find?, hi, he, hf]
      rw [hbefore, find?_of_same_slot hself (hi.trans hid.symm) hj]
    · simp only [find?, slot?_occupy ht hfree, if_neg hi]

theorem liveSlots_occupy : (t.occupy index parent kind space).2.liveSlots = t.liveSlots + 1 := by
  obtain ⟨e, he, hf⟩ := ht.head_free hfree
  have h := tally_set (fun e => if e.isFree then 0 else 1)
    (fresh (t.occupy index parent kind space).1 parent kind space) he
  simp only [hf, if_true] at h
  exact h

theorem links_occupy (parent : Id) (kind : Kind) (space : Handle) : ∃ list, t.free = index :: list ∧
    (t.occupy index parent kind space).2.Links (t.occupy index parent kind space).2.freeHead list := by
  obtain ⟨e, list, he, hlist, hlinks⟩ := ht.free_of_head hfree
  refine ⟨list, hlist, ?_⟩
  have hhead : (t.occupy index parent kind space).2.freeHead = e.nextFree := by
    simp only [Table.occupy, he, Option.bind_some]
  have hnot : index ∉ list := (List.nodup_cons.mp (hlist ▸ ht.nodup)).1
  rw [hhead]
  refine hlinks.of_slots fun i hi => ?_
  rw [slot?_occupy ht hfree, if_neg (ne_of_mem_of_not_mem hi hnot)]

theorem free_occupy (parent : Id) (kind : Kind) (space : Handle) :
    t.free = index :: (t.occupy index parent kind space).2.free := by
  obtain ⟨list, hlist, hlinks⟩ := links_occupy ht hfree parent kind space
  rw [hlist, hlinks.free_eq (List.nodup_cons.mp (hlist ▸ ht.nodup)).2]

theorem Sound.occupy : (t.occupy index parent kind space).2.Sound where
  capacity := by simpa [Table.capacity, Table.occupy] using ht.capacity
  linked := by
    obtain ⟨list, hlist, hlinks⟩ := links_occupy ht hfree parent kind space
    rw [List.tail_eq_of_cons_eq ((free_occupy ht hfree parent kind space).symm.trans hlist)]
    exact hlinks
  nodup := (List.nodup_cons.mp (free_occupy ht hfree parent kind space ▸ ht.nodup)).2
  mem_free i := by
    have hfr := free_occupy ht hfree parent kind space
    have hn := ht.nodup
    have hm := ht.mem_free i
    rw [hfr] at hn hm
    rw [slot?_occupy ht hfree]
    by_cases hi : i = index
    · subst hi
      simp [(List.nodup_cons.mp hn).1, fresh, isFree]
    · simpa [hi] using hm
  count := by
    rw [liveSlots_occupy ht hfree, ← ht.count]
    rfl
  named i x hx hf := by
    rw [slot?_occupy ht hfree] at hx
    split at hx
    · next hi =>
      obtain rfl := Option.some.inj hx
      rw [hi]
      exact occupy_id ht hfree parent kind space
    · exact ht.named i x hx hf
  bare i x hx hf := by
    rw [slot?_occupy ht hfree] at hx
    split at hx
    · obtain rfl := Option.some.inj hx
      cases hf
    · exact ht.bare i x hx hf

end occupy

section ofCapacity

variable {n i : Nat} {e : Env}

def vacant (n i : Nat) : Env := { nextFree := if i + 1 < n then some (i + 1) else none }

@[simp] theorem vacant_id (n i : Nat) : (vacant n i).id = .self := rfl

theorem slot?_ofCapacity (n i : Nat) : (ofCapacity n).slot? i =
    if i < min n slotLimit then some (vacant (min n slotLimit) i) else none := by
  simp only [ofCapacity, Table.slot?, List.getElem?_toArray, List.getElem?_map, vacant]
  split
  · next h => rw [List.getElem?_range h]; rfl
  · next h => rw [List.getElem?_eq_none (List.length_range.trans_le (Nat.le_of_not_lt h))]; rfl

theorem vacant_of_slot? (h : (ofCapacity n).slot? i = some e) : e = vacant (min n slotLimit) i := by
  rw [slot?_ofCapacity] at h
  split at h
  · exact (Option.some.inj h).symm
  · cases h

theorem find?_ofCapacity (n : Nat) (id : Id) : (ofCapacity n).find? id = none := by
  cases hf : (ofCapacity n).find? id with
  | none => rfl
  | some e =>
    have hlive := live_of_find? hf
    rw [vacant_of_slot? (slot?_of_find? hf)] at hlive
    cases hlive

@[simp] theorem capacity_ofCapacity (n : Nat) : (ofCapacity n).capacity = min n slotLimit := by
  simp [ofCapacity, Table.capacity]

theorem links_ofCapacity (n : Nat) : ∀ left i, i + left = min n slotLimit →
    (ofCapacity n).Links (if i < min n slotLimit then some i else none) (List.range' i left) := by
  intro left
  induction left with
  | zero =>
    intro i hi
    rw [if_neg (by omega)]
    exact .done
  | succ left ih =>
    intro i hi
    have hlt : i < min n slotLimit := by omega
    rw [if_pos hlt, List.range'_succ]
    exact .next ((slot?_ofCapacity n i).trans (if_pos hlt)) (ih (i + 1) (by omega))

theorem free_ofCapacity (n : Nat) : (ofCapacity n).free = List.range (min n slotLimit) := by
  have h := links_ofCapacity n (min n slotLimit) 0 (Nat.zero_add _)
  rw [← List.range_eq_range'] at h
  exact h.free_eq List.nodup_range

theorem sound_ofCapacity (n : Nat) : (ofCapacity n).Sound where
  capacity := by
    rw [capacity_ofCapacity]
    exact Nat.min_le_right _ _
  linked := by
    rw [free_ofCapacity, List.range_eq_range']
    exact links_ofCapacity n _ 0 (Nat.zero_add _)
  nodup := by
    rw [free_ofCapacity]
    exact List.nodup_range
  mem_free i := by
    rw [free_ofCapacity, List.mem_range, slot?_ofCapacity]
    split <;> simp_all [vacant, isFree]
  count := by
    refine (tally_eq_zero fun i e he => ?_).symm
    rw [vacant_of_slot? he]
    rfl
  named i e he hf := by
    rw [vacant_of_slot? he] at hf
    cases hf
  bare i e he _ := by
    rw [vacant_of_slot? he]
    rfl

end ofCapacity

end Table

end Exokernel.Env
