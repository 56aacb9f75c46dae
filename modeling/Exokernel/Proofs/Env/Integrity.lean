import Exokernel.Proofs.Ipc.Upkeep
import Exokernel.Proofs.Memory.Conservation

/-!
# Integrity of the environment table

A run starts with an empty table and carries out operations in any order, with ids that may be live, stale or
made up. The generation of a slot counts its allocations. As long as generations last, ids are therefore issued
once, and an id whose environment is gone stays without one.
-/

set_option autoImplicit false

namespace Exokernel

open Env (Id Kind Status Message)
open Env.Table

inductive TableOp where
  | allocate (parent : Id) (kind : Kind)
  | free (id : Id)
  | destroy (id : Id) (cpu : Cpu)
  | setStatus (id : Id) (status : Status)
  | transfer (sender target : Id) (message : Message)
  | trySend (caller target : Id) (message : Message)
  | receive (caller : Id) (dstva : Word)
  | sendQueued (caller target : Id) (message : Message)
  | receiveQueued (caller : Id) (dstva : Word) (start : Nat)
  | dispatch (cpu : Cpu) (id : Id)
  | edit (op : Memory.Op)

namespace TableOp

def Allowed (k : Kernel) : TableOp → Prop
  | edit op => op.Edits ∧ op.Allowed k.memory
  | _ => True

def quiet {ε α : Type} (o : Outcome Kernel ε α) : Except Panic (Option Id × Kernel) := o.after.map fun k => (none, k)

def run (k : Kernel) : TableOp → Except Panic (Option Id × Kernel)
  | allocate parent kind =>
    match Kernel.allocate parent kind k with
    | .done id k => .ok (some id, k)
    | .refused _ k => .ok (none, k)
    | .halted p => .error p
  | free id => quiet (Kernel.free id k)
  | destroy id cpu => quiet (Kernel.destroy id cpu k)
  | setStatus id status => quiet (Kernel.setStatus id status k)
  | transfer sender target message => quiet (Kernel.transfer sender target message k)
  | trySend caller target message => quiet (Kernel.trySend caller target message k)
  | receive caller dstva => quiet (Kernel.receive caller dstva k)
  | sendQueued caller target message => quiet (Kernel.sendQueued caller target message k)
  | receiveQueued caller dstva start => quiet (Kernel.receiveQueued caller dstva start k)
  | dispatch cpu id => quiet (Kernel.dispatch cpu id k : Outcome Kernel EnvError Unit)
  | edit op => (op.run k.memory).map fun memory => (none, { k with memory })

end TableOp

inductive TableRun (k : Kernel) : List Id → Kernel → Prop
  | start : TableRun k [] k
  | step {issued : List Id} {k₁ k₂ : Kernel} {new : Option Id} (op : TableOp) :
    TableRun k issued k₁ → op.Allowed k₁ → op.run k₁ = .ok (new, k₂) → TableRun k (new.toList ++ issued) k₂

def allocations (i : Nat) (issued : List Id) : Nat := issued.countP fun id => id.index == i

namespace TableOp

variable {n : Nat} {k k' : Kernel} {new : Option Id}

theorem quiet_eq {ε α : Type} {o : Outcome Kernel ε α} {P : Kernel → Prop}
    (ho : o.Meets (fun _ => P) (fun _ => P) fun _ => True) (h : quiet o = .ok (new, k')) : new = none ∧ P k' := by
  cases o with
  | done a s => cases h; exact ⟨rfl, ho⟩
  | refused e s => cases h; exact ⟨rfl, ho⟩
  | halted p => cases h

/-- An operation issues nothing and keeps the occupants, or gives a free slot the next occupant. -/
theorem run_cases (hi : Intact n k.envs k.memory) {op : TableOp} (ha : op.Allowed k) (h : op.run k = .ok (new, k')) :
    Intact n k'.envs k'.memory ∧
      ((new = none ∧ Keeps k.envs k'.envs) ∨
        ∃ index parent kind space, k.envs.freeHead = some index ∧
          new = some (k.envs.occupy index parent kind space).1 ∧
          k'.envs = (k.envs.occupy index parent kind space).2) := by
  have hquiet : ∀ {ε α : Type} {x : Action Kernel ε α}, Kernel.Upholds n (fun _ => True) x →
      quiet (x k) = .ok (new, k') → Intact n k'.envs k'.memory ∧ new = none ∧ Keeps k.envs k'.envs := by
    intro ε α x hx hq
    obtain ⟨hn, hu⟩ := quiet_eq (hx k hi) hq
    exact ⟨hu.intact, hn, hu.keeps⟩
  cases op with
  | allocate parent kind =>
    have hs : (Kernel.allocate parent kind k).Meets _ _ _ := Kernel.allocate_spec (H := fun _ => True) hi
    simp only [run] at h
    cases hr : Kernel.allocate parent kind k with
    | done id k₁ =>
      rw [hr] at hs h
      cases h
      obtain ⟨index, space, hfree, hid, he, hi', -⟩ := hs
      exact ⟨hi', .inr ⟨index, parent, kind, space, hfree, by rw [hid], he⟩⟩
    | refused e k₁ =>
      rw [hr] at hs h
      cases h
      exact ⟨hs.1, .inl ⟨rfl, hs.2.1 ▸ .refl _⟩⟩
    | halted p =>
      rw [hr] at h
      cases h
  | free id => exact (hquiet Kernel.upholds_free h).imp_right .inl
  | destroy id cpu => exact (hquiet Kernel.upholds_destroy h).imp_right .inl
  | setStatus id status => exact (hquiet Kernel.upholds_setStatus h).imp_right .inl
  | transfer sender target message => exact (hquiet Kernel.upholds_transfer h).imp_right .inl
  | trySend caller target message => exact (hquiet Kernel.upholds_trySend h).imp_right .inl
  | receive caller dstva => exact (hquiet Kernel.upholds_receive h).imp_right .inl
  | sendQueued caller target message => exact (hquiet (Kernel.upholds_sendQueued trivial) h).imp_right .inl
  | receiveQueued caller dstva start => exact (hquiet (Kernel.upholds_receiveQueued trivial) h).imp_right .inl
  | dispatch cpu id =>
    simp only [run, Kernel.dispatch_apply] at h
    cases h
    have ht := Kernel.touched_dispatch k.envs (k.currentOf cpu) cpu id
    exact ⟨hi.touched ht, .inl ⟨rfl, ht.keeps⟩⟩
  | edit op =>
    simp only [run] at h
    cases hr : op.run k.memory with
    | error p => rw [hr] at h; cases h
    | ok m =>
      rw [hr] at h
      cases h
      obtain ⟨hs, hk⟩ := Memory.Op.run_edit hi.memory ha.1 ha.2 hr
      exact ⟨hi.kept hs hk, .inl ⟨rfl, .refl _⟩⟩

end TableOp

namespace TableRun

variable {n slots frames : Nat} {k k₁ k₂ : Kernel} {issued later : List Id}

theorem append (h₁ : TableRun k issued k₁) (h₂ : TableRun k₁ later k₂) : TableRun k (later ++ issued) k₂ := by
  induction h₂ with
  | start => exact h₁
  | step op _ ha hr ih =>
    rw [List.append_assoc]
    exact .step op ih ha hr

theorem intact (h : TableRun k issued k₁) (hi : Intact n k.envs k.memory) : Intact n k₁.envs k₁.memory := by
  induction h with
  | start => exact hi
  | step op _ ha hr ih => exact (TableOp.run_cases ih ha hr).1

/-- A slot that got no occupant along the way kept the one it had, and stayed free if it was. -/
theorem slot_cases (h : TableRun k later k₁) (hi : Intact n k.envs k.memory) {i : Nat} {e₁ : Env}
    (hs : k₁.envs.slot? i = some e₁) :
    ∃ e, k.envs.slot? i = some e ∧
      ((∃ id ∈ later, id.index = i) ∨ e₁.id = e.id ∧ (e.isFree = true → e₁.isFree = true)) := by
  induction h generalizing e₁ with
  | start => exact ⟨e₁, hs, .inr ⟨rfl, fun hf => hf⟩⟩
  | step op hrun ha hr ih =>
    obtain ⟨-, hc⟩ := TableOp.run_cases (hrun.intact hi) ha hr
    rcases hc with ⟨rfl, hk⟩ | ⟨index, parent, kind, space, hfree, rfl, he⟩
    · have hid := hk.ids i
      rw [hs] at hid
      obtain ⟨e₂, hs₂, hid₂⟩ := Option.map_eq_some_iff.mp hid.symm
      obtain ⟨e, hse, hcase⟩ := ih hs₂
      refine ⟨e, hse, hcase.imp (fun h => h) fun ⟨hid', hf⟩ => ⟨hid₂.symm.trans hid', fun h => ?_⟩⟩
      exact hk.free i e₂ e₁ hs₂ hs (hf h)
    · have ht := (hrun.intact hi).table
      have hix := (occupy_id ht hfree parent kind space).1
      rw [he, slot?_occupy ht hfree] at hs
      by_cases hi' : i = index
      · obtain ⟨e₂, hs₂, -⟩ := ht.head_free hfree
        obtain ⟨e, hse, -⟩ := ih (hi' ▸ hs₂)
        exact ⟨e, hse, .inl ⟨_, by simp, hix.trans hi'.symm⟩⟩
      · rw [if_neg hi'] at hs
        obtain ⟨e, hse, hcase⟩ := ih hs
        refine ⟨e, hse, hcase.imp_left fun ⟨id, hm, hid⟩ => ⟨id, by simp [hm], hid⟩⟩

end TableRun

structure Ledger (t : Env.Table) (issued : List Id) : Prop where
  slots : ∀ i e, t.slot? i = some e → e.id.generation = allocations i issued
  ids : ∀ id ∈ issued, 1 ≤ id.generation ∧ id.generation ≤ allocations id.index issued
  nodup : issued.Nodup

theorem allocations_cons (i : Nat) (id : Id) (issued : List Id) :
    allocations i (id :: issued) = allocations i issued + if id.index = i then 1 else 0 := by
  simp [allocations, List.countP_cons]

theorem allocations_append (i : Nat) (later issued : List Id) :
    allocations i (later ++ issued) = allocations i later + allocations i issued := List.countP_append

theorem allocations_pos {i : Nat} {id : Id} {issued : List Id} (h : id ∈ issued) (hi : id.index = i) :
    0 < allocations i issued := List.countP_pos_iff.mpr ⟨id, h, by simp [hi]⟩

namespace Ledger

variable {t t' : Env.Table} {issued : List Id} {index : Nat} {parent : Id} {kind : Kind}
  {space : Handle}

theorem keeps (h : Ledger t issued) (hk : Keeps t t') : Ledger t' issued := by
  refine ⟨fun i e' hs => ?_, h.ids, h.nodup⟩
  have hid := hk.ids i
  rw [hs] at hid
  obtain ⟨e, hse, he⟩ := Option.map_eq_some_iff.mp hid.symm
  rw [← he]
  exact h.slots i e hse

theorem occupy (h : Ledger t issued) (ht : t.Sound) (hfree : t.freeHead = some index)
    (hfew : allocations index issued + 1 < Env.generationLimit) :
    Ledger (t.occupy index parent kind space).2 ((t.occupy index parent kind space).1 :: issued) := by
  obtain ⟨hix, hpos, -⟩ := occupy_id ht hfree parent kind space
  obtain ⟨last, hlast, -⟩ := ht.head_free hfree
  have hgen : (t.occupy index parent kind space).1.generation = allocations index issued + 1 := by
    have hl := h.slots index last hlast
    simp only [Env.Table.occupy, hlast, Option.map_some, Option.getD_some]
    rw [Env.Id.generation_next (ht.head_lt hfree) (by omega), hl]
  refine ⟨fun i e hs => ?_, fun id hm => ?_, List.nodup_cons.mpr ⟨fun hm => ?_, h.nodup⟩⟩
  · rw [slot?_occupy ht hfree] at hs
    rw [allocations_cons, hix]
    split at hs
    · next hi =>
      obtain rfl := Option.some.inj hs
      rw [if_pos hi.symm, hi]
      exact hgen
    · next hi =>
      rw [if_neg (fun e => hi e.symm)]
      exact h.slots i e hs
  · rcases List.mem_cons.mp hm with rfl | hm
    · refine ⟨hpos, ?_⟩
      rw [hix, allocations_cons, if_pos hix]
      omega
    · obtain ⟨h1, h2⟩ := h.ids id hm
      refine ⟨h1, ?_⟩
      rw [allocations_cons]
      omega
  · have hle := (h.ids _ hm).2
    rw [hix] at hle
    omega

end Ledger

theorem ledger_start (slots : Nat) : Ledger (.ofCapacity slots) [] :=
  ⟨fun i e hs => by rw [vacant_of_slot? hs, vacant_id]; rfl, by simp, List.nodup_nil⟩

theorem TableRun.ledger {n : Nat} {k k₁ : Kernel} {issued : List Id} (h : TableRun k issued k₁)
    (hi : Intact n k.envs k.memory) (hl : Ledger k.envs [])
    (hfew : ∀ i, allocations i issued < Env.generationLimit - 1) : Ledger k₁.envs issued := by
  induction h with
  | start => exact hl
  | step op hrun ha hr ih =>
    obtain ⟨-, hc⟩ := TableOp.run_cases (hrun.intact hi) ha hr
    rcases hc with ⟨rfl, hk⟩ | ⟨index, parent, kind, space, hfree, rfl, he⟩
    · exact (ih hfew).keeps hk
    · have hbefore : ∀ i, allocations i _ < Env.generationLimit - 1 := fun i => by
        have h := hfew i
        rw [allocations_append] at h
        exact Nat.lt_of_le_of_lt (Nat.le_add_left _ _) h
      rw [he]
      have hb := hbefore index
      exact (ih hbefore).occupy (hrun.intact hi).table hfree (by omega)

/-- What a table and its memory promise in every state. -/
structure Integral (k : Kernel) : Prop where
  free_list : ∃ list, k.envs.Links k.envs.freeHead list ∧ list.Nodup ∧
    ∀ i, i ∈ list ↔ ∃ e, k.envs.slot? i = some e ∧ e.status = .free
  live : k.envs.live = k.envs.toList.length
  ids : ∀ i e, k.envs.slot? i = some e → e.status ≠ .free →
    e.id.index = i ∧ 1 ≤ e.id.generation ∧ e.id.raw.toNat ≤ 2 ^ 31 - 1 ∧ e.id ≠ .self ∧
      Env.Id.ofWord? e.id.toWord = some e.id
  distinct : ∀ i j e e', k.envs.slot? i = some e → k.envs.slot? j = some e' → e.status ≠ .free → e'.status ≠ .free →
    i ≠ j → e.id ≠ e'.id ∧ e.space ≠ e'.space
  owns : ∀ i e, k.envs.slot? i = some e → e.status ≠ .free → ∃ h, e.space = some h ∧ (k.memory.space? h).isSome
  bare : ∀ i e, k.envs.slot? i = some e → e.status = .free → e.space = none

theorem isFree_iff {e : Env} : e.isFree = true ↔ e.status = .free := by simp [Env.isFree]

theorem not_isFree_iff {e : Env} : e.isFree = false ↔ e.status ≠ .free := by simp [Env.isFree]

theorem liveSlots_eq_length (t : Env.Table) : t.liveSlots = t.toList.length := by
  rw [liveSlots, tally, Env.Table.toList]
  induction t.slots.toList with
  | nil => rfl
  | cons e l ih =>
    rw [List.map_cons, List.sum_cons, ih, List.filter_cons]
    cases hf : e.isFree with
    | true => simp
    | false => simp [Nat.add_comm]

theorem Intact.integral {n : Nat} {k : Kernel} (hi : Intact n k.envs k.memory) : Integral k where
  free_list := ⟨_, hi.table.linked, hi.table.nodup, fun i => by simp only [hi.table.mem_free, isFree_iff]⟩
  live := hi.table.count.trans (liveSlots_eq_length _)
  ids i e hs hf := by
    obtain ⟨hix, hpos, hlt⟩ := hi.table.named i e hs (not_isFree_iff.mpr hf)
    have hraw := Env.Id.raw_lt hlt
    exact ⟨hix, hpos, by omega, Env.Id.ne_self hpos, Env.Id.ofWord?_toWord hlt⟩
  distinct i j e e' hs hs' hf hf' hne := by
    have hix := (hi.table.named i e hs (not_isFree_iff.mpr hf)).1
    have hjx := (hi.table.named j e' hs' (not_isFree_iff.mpr hf')).1
    refine ⟨fun h => hne ?_, fun h => hne ?_⟩
    · rw [← hix, ← hjx, h]
    · exact hi.distinct i j e e' hs hs' (not_isFree_iff.mpr hf) (not_isFree_iff.mpr hf') h
  owns i e hs hf := hi.owns i e hs (not_isFree_iff.mpr hf)
  bare i e hs hf := hi.table.bare i e hs (isFree_iff.mpr hf)

/-- An id that was issued and names nobody any more never names anybody again. -/
theorem find?_of_gone {n : Nat} {k₁ k₂ : Kernel} {issued later : List Id} {id : Id} (h : TableRun k₁ later k₂)
    (hi : Intact n k₁.envs k₁.memory) (hl₁ : Ledger k₁.envs issued) (hl₂ : Ledger k₂.envs (later ++ issued))
    (hid : id ∈ issued) (hgone : k₁.envs.find? id = none) : k₂.envs.find? id = none := by
  cases hf : k₂.envs.find? id with
  | none => rfl
  | some e₂ =>
    have hid₂ := id_of_find? hf
    obtain ⟨e₁, hs₁, hcase⟩ := h.slot_cases hi (slot?_of_find? hf)
    rcases hcase with ⟨id', hm, hix⟩ | ⟨hsame, hfree⟩
    · -- The slot was allocated again, so its generation has passed that of the old id.
      have hgen := hl₂.slots _ e₂ (slot?_of_find? hf)
      have hle := (hl₁.ids id hid).2
      have hpos := allocations_pos hm hix
      rw [hid₂, allocations_append] at hgen
      omega
    · have hlive : e₁.isFree = false := by
        by_contra hfr
        have h2 := hfree (by simpa using hfr)
        rw [live_of_find? hf] at h2
        cases h2
      have hfound : k₁.envs.find? id = some e₁ := find?_eq_some.mpr ⟨hs₁, hlive, hsame.symm.trans hid₂⟩
      rw [hgone] at hfound
      cases hfound

/-- Whatever the operations, the table and the spaces stay consistent; and as long as no slot runs out of
generations, ids are issued once and an id that was freed is refused for good. -/
theorem table_integrity {slots frames : Nat} {k₀ k₁ k₂ : Kernel} {issued later : List Id}
    (he : k₀.envs = .ofCapacity slots) (hm : k₀.memory = .ofFrames frames) (h₁ : TableRun k₀ issued k₁)
    (h₂ : TableRun k₁ later k₂) (hfew : ∀ i, allocations i (later ++ issued) < 2 ^ 21 - 1) :
    Integral k₂ ∧ (later ++ issued).Nodup ∧
      ∀ id ∈ issued, k₁.envs.find? id = none → id ∉ later ∧ k₂.envs.get id = .error .badEnvironment ∧
        ∀ caller checked, k₂.envs.resolve id caller checked = .error .badEnvironment ∧
          k₂.envs.lookup id caller checked = .error .badEnvironment := by
  have hi₀ : Intact frames k₀.envs k₀.memory := by
    rw [he, hm]
    exact intact_start slots frames
  have hl₀ : Ledger k₀.envs [] := he ▸ ledger_start slots
  have hi₁ := h₁.intact hi₀
  have hl₁ : Ledger k₁.envs issued := h₁.ledger hi₀ hl₀ fun i => by
    have h := hfew i
    rw [allocations_append] at h
    exact Nat.lt_of_le_of_lt (Nat.le_add_left _ _) h
  have hl₂ : Ledger k₂.envs (later ++ issued) := (h₁.append h₂).ledger hi₀ hl₀ hfew
  refine ⟨(h₂.intact hi₁).integral, hl₂.nodup, fun id hid hgone => ⟨fun hlater => ?_, ?_, fun caller checked => ?_⟩⟩
  · exact List.disjoint_of_nodup_append hl₂.nodup hlater hid
  · exact get_of_find?_none (find?_of_gone h₂ hi₁ hl₁ hl₂ hid hgone)
  · have hget := get_of_find?_none (find?_of_gone h₂ hi₁ hl₁ hl₂ hid hgone)
    have hself := Env.Id.not_isSelf (hl₁.ids id hid).1
    have hlookup : k₂.envs.lookup id caller checked = .error .badEnvironment := by
      simp [Env.Table.lookup, hself, hget, bind, Except.bind]
    exact ⟨by rw [Env.Table.resolve, hlookup]; rfl, hlookup⟩

def oneSlot (e : Env) (freeHead : Option Nat) (live : Nat) (memory : Memory) : Kernel where
  envs := { slots := #[e], freeHead, live }
  memory := memory
  current := #[]
  journal := { limit := .error }

/-- The slot is allocated, freed and allocated again: the first id stays refused. -/
theorem table_integrity_reissue :
    ∃ k₀ k₁ k₂ : Kernel, k₀.envs = .ofCapacity 1 ∧ k₀.memory = .ofFrames 2 ∧ TableRun k₀ [⟨0x400⟩] k₁ ∧
      TableRun k₁ [⟨0x800⟩] k₂ ∧ k₁.envs.find? ⟨0x400⟩ = none ∧ Integral k₂ ∧
      k₂.envs.get ⟨0x400⟩ = .error .badEnvironment := by
  let used : Memory :=
    { spaces := #[some { root := ⟨0⟩ }]
      frames := { frames := #[{ refs := 1, inUse := true }, {}], free := [1] } }
  let unused : Memory := { spaces := #[none], frames := .ofSize 2, invalidations := 1 }
  let k₀ := oneSlot {} (some 0) 0 (.ofFrames 2)
  let k₁ := oneSlot (.fresh ⟨0x400⟩ .self .user ⟨0⟩) none 1 used
  let k₂ := oneSlot { id := ⟨0x400⟩ } (some 0) 0 unused
  let k₃ := oneSlot (.fresh ⟨0x800⟩ .self .user ⟨0⟩) none 1 { used with invalidations := 1 }
  have r₁ : TableOp.run k₀ (.allocate .self .user) = .ok (some ⟨0x400⟩, k₁) := by decide +kernel
  have r₂ : TableOp.run k₁ (.free ⟨0x400⟩) = .ok (none, k₂) := by decide +kernel
  have r₃ : TableOp.run k₂ (.allocate .self .user) = .ok (some ⟨0x800⟩, k₃) := by decide +kernel
  have h₁ : TableRun k₀ [⟨0x400⟩] k₂ := .step (.free _) (.step (.allocate _ _) .start trivial r₁) trivial r₂
  have h₂ : TableRun k₂ [⟨0x800⟩] k₃ := .step (.allocate _ _) .start trivial r₃
  have hfew : ∀ i, allocations i [⟨0x800⟩, ⟨0x400⟩] < 2 ^ 21 - 1 := fun i =>
    Nat.lt_of_le_of_lt List.countP_le_length (by decide)
  have hgone : k₂.envs.find? ⟨0x400⟩ = none := by decide +kernel
  have he : k₀.envs = .ofCapacity 1 := rfl
  have hm : k₀.memory = .ofFrames 2 := rfl
  obtain ⟨hint, -, hstale⟩ := table_integrity he hm h₁ h₂ hfew
  exact ⟨k₀, k₂, k₃, he, hm, h₁, h₂, hgone, hint, (hstale _ (by simp) hgone).2.1⟩

end Exokernel
