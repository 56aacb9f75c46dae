import Exokernel.Env.Table
import Exokernel.Proofs.Env.Id
import Exokernel.Proofs.Tally
import Mathlib.Data.List.Nodup

/-!
# Sound environment tables

The links between the slots lead through the free ones, once each, and end. The counter counts the others, and
every environment sits in the slot that its id names. Almost every operation only touches what a table says about
its environments: the occupant of a slot, its space, whether the slot is free and where its link leads stay as they
are. Slots change hands by occupation and vacation alone.
-/

set_option autoImplicit false

namespace Exokernel.Env

def title (e : Env) : Id × Option Handle × Bool × Option Nat := (e.id, e.space, e.isFree, e.nextFree)

theorem title_eq {e e' : Env} : e'.title = e.title ↔
    e'.id = e.id ∧ e'.space = e.space ∧ e'.isFree = e.isFree ∧ e'.nextFree = e.nextFree := by
  simp [title]

theorem title_of_live {e e' : Env} (hi : e'.id = e.id) (hs : e'.space = e.space) (hn : e'.nextFree = e.nextFree)
    (hf : e'.status ≠ .free) (he : e.isFree = false) : e'.title = e.title := by
  apply title_eq.mpr
  rw [he]
  exact ⟨hi, hs, by simp [isFree, hf], hn⟩

theorem map_of_map {α β : Type} {g : Env → α} {g' : Env → β} (hg : ∀ e e', g e' = g e → g' e' = g' e)
    {x x' : Option Env} (h : x'.map g = x.map g) : x'.map g' = x.map g' := by
  cases x with
  | none => rw [Option.map_eq_none_iff.mp h]
  | some e =>
    obtain ⟨e', rfl, he⟩ := Option.map_eq_some_iff.mp h
    exact congrArg some (hg e e' he)

/-! Saving and answering, parking, waking and marking keep the title. -/

theorem title_context {g : Env → Context} (e : Env) (_ : e.isFree = false) :
    ({ e with context := g e } : Env).title = e.title := rfl

theorem title_cleared (e : Env) (_ : e.isFree = false) : ({ e with outbox := none } : Env).title = e.title := rfl

theorem title_owed (e : Env) (_ : e.isFree = false) : ({ e with waiting := e.waiting + 1 } : Env).title = e.title := rfl

theorem title_settled (e : Env) (_ : e.isFree = false) :
    ({ e with waiting := e.waiting - 1 } : Env).title = e.title := rfl

theorem title_runnable (e : Env) (he : e.isFree = false) : ({ e with status := .runnable } : Env).title = e.title :=
  title_of_live rfl rfl rfl (by simp) he

theorem title_woken {g : Env → Context} (e : Env) (he : e.isFree = false) :
    ({ e with context := g e, status := .runnable } : Env).title = e.title :=
  title_of_live rfl rfl rfl (by simp) he

theorem title_suspended {g : Env → Context} (e : Env) (he : e.isFree = false) :
    ({ e with context := g e, status := .notRunnable } : Env).title = e.title :=
  title_of_live rfl rfl rfl (by simp) he

theorem title_parked {p : Parcel} (e : Env) (he : e.isFree = false) :
    ({ e with outbox := some p, status := .notRunnable, cpu := none } : Env).title = e.title :=
  title_of_live rfl rfl rfl (by simp) he

theorem title_dying (e : Env) (he : e.isFree = false) : ({ e with status := .dying } : Env).title = e.title :=
  title_of_live rfl rfl rfl (by simp) he

namespace Table

variable {t t' t'' : Table} {id target : Id} {e e' : Env} {f : Env → Env} {i : Nat}

/-- From `head` the links lead through the slots of `list` and end. -/
inductive Links (t : Table) : Option Nat → List Nat → Prop
  | done : Links t none []
  | next {i : Nat} {e : Env} {list : List Nat} :
    t.slot? i = some e → Links t e.nextFree list → Links t (some i) (i :: list)

def follow (t : Table) : Nat → Option Nat → List Nat
  | steps + 1, some i => i :: t.follow steps ((t.slot? i).bind nextFree)
  | _, _ => []

/-- The free slots, the next one first. -/
def free (t : Table) : List Nat := t.follow t.capacity t.freeHead

def liveSlots (t : Table) : Nat := tally (fun e => if e.isFree then 0 else 1) t.slots

structure Sound (t : Table) : Prop where
  capacity : t.capacity ≤ slotLimit
  linked : t.Links t.freeHead t.free
  nodup : t.free.Nodup
  mem_free : ∀ i, i ∈ t.free ↔ ∃ e, t.slot? i = some e ∧ e.isFree = true
  count : t.live = t.liveSlots
  named : ∀ i e, t.slot? i = some e → e.isFree = false →
    e.id.index = i ∧ 1 ≤ e.id.generation ∧ e.id.generation < generationLimit
  bare : ∀ i e, t.slot? i = some e → e.isFree = true → e.space = none

theorem find?_eq_some : t.find? id = some e ↔ t.slot? id.index = some e ∧ e.isFree = false ∧ e.id = id := by
  unfold find?
  cases hs : t.slot? id.index with
  | none => simp
  | some x =>
    simp only [Bool.and_eq_true, Bool.not_eq_true', beq_iff_eq, Option.ite_none_right_eq_some, Option.some.injEq]
    constructor
    · rintro ⟨⟨hf, hi⟩, rfl⟩
      exact ⟨rfl, hf, hi⟩
    · rintro ⟨rfl, hf, hi⟩
      exact ⟨⟨hf, hi⟩, rfl⟩

theorem id_of_find? (h : t.find? id = some e) : e.id = id := (find?_eq_some.mp h).2.2

theorem find?_unique (h : t.find? id = some e) (h' : t.find? id = some e') : e = e' := Option.some.inj (h.symm.trans h')

theorem slot?_of_find? (h : t.find? id = some e) : t.slot? id.index = some e := (find?_eq_some.mp h).1

theorem live_of_find? (h : t.find? id = some e) : e.isFree = false := (find?_eq_some.mp h).2.1

/-- While an environment lives, no other id of its slot names anybody. -/
theorem find?_of_same_slot {j : Id} (h : t.find? id = some e) (hi : j.index = id.index) (hj : j ≠ id) :
    t.find? j = none := by
  cases hx : t.find? j with
  | none => rfl
  | some x =>
    have hs := slot?_of_find? hx
    rw [hi, slot?_of_find? h] at hs
    obtain rfl := Option.some.inj hs
    exact absurd ((id_of_find? hx).symm.trans (id_of_find? h)) hj

def Indexed (t : Table) : Prop := ∀ i e, t.slot? i = some e → e.isFree = false → e.id.index = i

theorem Sound.indexed (ht : t.Sound) : t.Indexed := fun i e hs hf => (ht.named i e hs hf).1

theorem Indexed.find?_of_slot? (ht : t.Indexed) (hs : t.slot? i = some e) (hf : e.isFree = false) :
    t.find? e.id = some e := find?_eq_some.mpr ⟨(ht i e hs hf).symm ▸ hs, hf, rfl⟩

theorem Sound.find?_of_slot? (ht : t.Sound) (hs : t.slot? i = some e) (hf : e.isFree = false) :
    t.find? e.id = some e := ht.indexed.find?_of_slot? hs hf

theorem get_of_find? (h : t.find? id = some e) : t.get id = .ok e := by simp [get, h]

theorem get_of_find?_none (h : t.find? id = none) : t.get id = .error .badEnvironment := by simp [get, h]

theorem slot?_lt (h : t.slot? i = some e) : i < t.capacity := (Array.getElem?_eq_some_iff.mp h).1

section links

variable {head : Option Nat} {list : List Nat}

theorem Links.of_slots (h : t.Links head list) (hs : ∀ i ∈ list, t'.slot? i = t.slot? i) : t'.Links head list := by
  induction h with
  | done => exact .done
  | next he _ ih =>
    refine .next ((hs _ List.mem_cons_self).trans he) (ih fun i hi => hs i (List.mem_cons_of_mem _ hi))

theorem Links.lt (h : t.Links head list) : ∀ i ∈ list, i < t.capacity := by
  induction h with
  | done => simp
  | next he _ ih => exact List.forall_mem_cons.mpr ⟨slot?_lt he, ih⟩

theorem Links.follow {steps : Nat} (h : t.Links head list) (hl : list.length ≤ steps) : t.follow steps head = list := by
  induction h generalizing steps with
  | done => cases steps <;> rfl
  | next he _ ih =>
    obtain ⟨n, rfl⟩ := Nat.exists_eq_add_one_of_ne_zero (Nat.ne_of_gt (Nat.lt_of_lt_of_le (Nat.succ_pos _) hl))
    rw [Table.follow, he, Option.bind_some, ih (Nat.le_of_succ_le_succ hl)]

theorem Links.free_eq (h : t.Links t.freeHead list) (hn : list.Nodup) : t.free = list := by
  have hsub : list ⊆ List.range t.capacity := fun i hi => List.mem_range.mpr (h.lt i hi)
  exact h.follow ((List.subperm_of_subset hn hsub).length_le.trans_eq List.length_range)

theorem Sound.free_of_head (ht : t.Sound) (h : t.freeHead = some i) :
    ∃ e list, t.slot? i = some e ∧ t.free = i :: list ∧ t.Links e.nextFree list := by
  have hl := ht.linked
  generalize t.free = list at hl
  rw [h] at hl
  cases hl with
  | next he hrest => exact ⟨_, _, he, rfl, hrest⟩

theorem Sound.free_of_head_none (ht : t.Sound) (h : t.freeHead = none) : t.free = [] := by
  have hl := ht.linked
  generalize t.free = list at hl
  rw [h] at hl
  cases hl
  rfl

end links

/-- Slots that agree on something that tells the title agree on it also as a map from ids. -/
theorem find?_of_slots {α : Type} {g : Env → α} (hg : ∀ e e', g e' = g e → e'.title = e.title)
    (hs : ∀ i, (t'.slot? i).map g = (t.slot? i).map g) (hf : t.find? id = some e) :
    ∃ e', t'.find? id = some e' ∧ g e' = g e := by
  have hi := hs id.index
  rw [slot?_of_find? hf] at hi
  obtain ⟨e', hs', he⟩ := Option.map_eq_some_iff.mp hi
  obtain ⟨hid, -, hfree, -⟩ := title_eq.mp (hg e e' he)
  exact ⟨e', find?_eq_some.mpr ⟨hs', hfree.trans (live_of_find? hf), hid.trans (id_of_find? hf)⟩, he⟩

structure Touched (t t' : Table) : Prop where
  head : t'.freeHead = t.freeHead
  live : t'.live = t.live
  titles : ∀ i, (t'.slot? i).map title = (t.slot? i).map title

theorem Touched.refl (t : Table) : Touched t t := ⟨rfl, rfl, fun _ => rfl⟩

theorem Touched.trans (h : Touched t t') (h' : Touched t' t'') : Touched t t'' :=
  ⟨h'.head.trans h.head, h'.live.trans h.live, fun i => (h'.titles i).trans (h.titles i)⟩

theorem Touched.slot?_inv (h : Touched t t') (hs : t'.slot? i = some e') :
    ∃ e, t.slot? i = some e ∧ e'.title = e.title := by
  have ht := h.titles i
  rw [hs] at ht
  cases he : t.slot? i with
  | none => rw [he] at ht; cases ht
  | some e => rw [he] at ht; exact ⟨e, rfl, Option.some.inj ht⟩

theorem Touched.slot? (h : Touched t t') (hs : t.slot? i = some e) :
    ∃ e', t'.slot? i = some e' ∧ e'.title = e.title := by
  have ht := h.titles i
  rw [hs] at ht
  cases he : t'.slot? i with
  | none => rw [he] at ht; cases ht
  | some e' => rw [he] at ht; exact ⟨e', rfl, Option.some.inj ht⟩

theorem Touched.capacity (h : Touched t t') : t'.capacity = t.capacity := by
  have hlt : ∀ i, i < t'.capacity ↔ i < t.capacity := by
    intro i
    constructor
    · intro hi
      obtain ⟨e, he, -⟩ := h.slot?_inv (Array.getElem?_eq_getElem hi)
      exact slot?_lt he
    · intro hi
      obtain ⟨e, he, -⟩ := h.slot? (Array.getElem?_eq_getElem hi)
      exact slot?_lt he
  exact Nat.le_antisymm (Nat.le_of_not_lt fun hl => absurd ((hlt _).mp hl) (lt_irrefl _))
    (Nat.le_of_not_lt fun hl => absurd ((hlt _).mpr hl) (lt_irrefl _))

theorem Touched.follow (h : Touched t t') (steps : Nat) (head : Option Nat) :
    t'.follow steps head = t.follow steps head := by
  induction steps generalizing head with
  | zero => rfl
  | succ steps ih =>
    cases head with
    | none => rfl
    | some i =>
      have ht := congrArg (Option.bind · fun x => x.2.2.2) (h.titles i)
      simp only [Option.bind_map] at ht
      exact congrArg (i :: ·) ((ih _).trans (congrArg (t.follow steps) ht))

theorem Touched.free (h : Touched t t') : t'.free = t.free := by
  rw [Table.free, h.capacity, h.head, h.follow]
  rfl

theorem Touched.links {head : Option Nat} {list : List Nat} (h : Touched t t') (hl : t.Links head list) :
    t'.Links head list := by
  induction hl with
  | done => exact .done
  | next he _ ih =>
    obtain ⟨e', he', htitle⟩ := h.slot? he
    exact .next he' ((title_eq.mp htitle).2.2.2 ▸ ih)

theorem Touched.liveSlots (h : Touched t t') : t'.liveSlots = t.liveSlots := by
  apply tally_eq_tally
  intro i
  have ht := congrArg (Option.map fun x => if x.2.2.1 then 0 else 1) (h.titles i)
  rw [Option.map_map, Option.map_map] at ht
  exact ht

theorem Touched.sound (h : Touched t t') (ht : t.Sound) : t'.Sound where
  capacity := h.capacity ▸ ht.capacity
  linked := by
    rw [h.head, h.free]
    exact h.links ht.linked
  nodup := h.free ▸ ht.nodup
  mem_free i := by
    rw [h.free, ht.mem_free]
    constructor
    · rintro ⟨e, hs, hf⟩
      obtain ⟨e', hs', he⟩ := h.slot? hs
      exact ⟨e', hs', (title_eq.mp he).2.2.1.trans hf⟩
    · rintro ⟨e', hs', hf⟩
      obtain ⟨e, hs, he⟩ := h.slot?_inv hs'
      exact ⟨e, hs, (title_eq.mp he).2.2.1.symm.trans hf⟩
  count := by rw [h.live, h.liveSlots, ht.count]
  named i e' hs' hf := by
    obtain ⟨e, hs, he⟩ := h.slot?_inv hs'
    obtain ⟨hid, -, hfree, -⟩ := title_eq.mp he
    rw [hid]
    exact ht.named i e hs (hfree.symm.trans hf)
  bare i e' hs' hf := by
    obtain ⟨e, hs, he⟩ := h.slot?_inv hs'
    obtain ⟨-, hspace, hfree, -⟩ := title_eq.mp he
    rw [hspace]
    exact ht.bare i e hs (hfree.symm.trans hf)

theorem Touched.indexed (h : Touched t t') (ht : t.Indexed) : t'.Indexed := by
  intro i e' hs' hf
  obtain ⟨e, hs, he⟩ := h.slot?_inv hs'
  obtain ⟨hid, -, hfree, -⟩ := title_eq.mp he
  rw [hid]
  exact ht i e hs (hfree.symm.trans hf)

section update

theorem update_of_none (h : t.find? id = none) : t.update id f = t := by simp [update, h]

theorem slot?_update (h : t.find? id = some e) (i : Nat) :
    (t.update id f).slot? i = if i = id.index then some (f e) else t.slot? i := by
  have hs := slot?_of_find? h
  simp only [update, h, Table.slot?, Array.getElem?_modify]
  by_cases hi : i = id.index
  · subst hi
    rw [if_pos rfl, if_pos rfl]
    exact congrArg (Option.map f) hs
  · rw [if_neg (fun e => hi e.symm), if_neg hi]

@[simp] theorem freeHead_update : (t.update id f).freeHead = t.freeHead := by
  unfold update
  split <;> rfl

@[simp] theorem live_update : (t.update id f).live = t.live := by
  unfold update
  split <;> rfl

@[simp] theorem capacity_update : (t.update id f).capacity = t.capacity := by
  unfold update
  split
  · simp [Table.capacity]
  · rfl

theorem touched_update (hf : ∀ e, e.isFree = false → (f e).title = e.title) : Touched t (t.update id f) := by
  cases h : t.find? id with
  | none => rw [update_of_none h]; exact .refl t
  | some e =>
    refine ⟨freeHead_update, live_update, fun i => ?_⟩
    rw [slot?_update h]
    split
    · next hi => rw [hi, slot?_of_find? h]; exact congrArg some (hf e (live_of_find? h))
    · rfl

/-- The table as a map: an update is seen by the environment that it names and by nobody else. -/
theorem find?_update (hf : ∀ e, e.isFree = false → (f e).title = e.title) (j : Id) :
    (t.update id f).find? j = if j = id then (t.find? id).map f else t.find? j := by
  cases h : t.find? id with
  | none =>
    rw [update_of_none h]
    split
    · next hj => rw [hj, h]; rfl
    · rfl
  | some e =>
    obtain ⟨hid, -, hfree, -⟩ := title_eq.mp (hf e (live_of_find? h))
    have hn : (f e).id = id := hid.trans (id_of_find? h)
    have hl : (f e).isFree = false := hfree.trans (live_of_find? h)
    have hself : (t.update id f).find? id = some (f e) := by
      rw [find?_eq_some, slot?_update h, if_pos rfl]
      exact ⟨rfl, hl, hn⟩
    by_cases hj : j = id
    · rw [if_pos hj, hj]
      exact hself
    · rw [if_neg hj]
      by_cases hi : j.index = id.index
      · rw [find?_of_same_slot h hi hj, find?_of_same_slot hself hi hj]
      · simp only [find?, slot?_update h, if_neg hi]

theorem find?_update_self (hf : ∀ e, e.isFree = false → (f e).title = e.title) (he : t.find? id = some e) :
    (t.update id f).find? id = some (f e) := by
  rw [find?_update hf, if_pos rfl, he]
  rfl

theorem find?_update_of_ne {j : Id} (hf : ∀ e, e.isFree = false → (f e).title = e.title) (hj : j ≠ id) :
    (t.update id f).find? j = t.find? j := by
  rw [find?_update hf, if_neg hj]

theorem tally_update (g : Env → Nat) (h : t.find? id = some e) :
    tally g (t.update id f).slots + g e = tally g t.slots + g (f e) := by
  simp only [update, h]
  exact tally_modify g f (slot?_of_find? h)

end update

end Table

end Exokernel.Env
