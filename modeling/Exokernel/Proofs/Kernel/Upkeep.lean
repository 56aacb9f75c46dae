import Exokernel.Kernel.Scheduler
import Exokernel.Proofs.Kernel.Intact

/-!
# Operations that keep environments and spaces together

Apart from allocation no operation gives a slot a new occupant. An action upholds the table and the memory when it
leaves them fitting together under that restriction, whether it is done or refused; such actions compose.

A dispatch promotes its environment and makes room by demoting the one that ran before.
-/

set_option autoImplicit false

namespace Exokernel

open Env Memory

namespace Env.Table

variable {t t' t'' : Table} {id : Id} {e : Env}

structure Keeps (t t' : Table) : Prop where
  ids : ∀ i, (t'.slot? i).map Env.id = (t.slot? i).map Env.id
  free : ∀ i e e', t.slot? i = some e → t'.slot? i = some e' → e.isFree = true → e'.isFree = true

theorem Keeps.refl (t : Table) : Keeps t t :=
  ⟨fun _ => rfl, fun i e e' h h' hf => by rw [h] at h'; exact Option.some.inj h' ▸ hf⟩

theorem Keeps.trans (h : Keeps t t') (h' : Keeps t' t'') : Keeps t t'' := by
  refine ⟨fun i => (h'.ids i).trans (h.ids i), fun i e e'' he he'' hf => ?_⟩
  have hi := h.ids i
  rw [he] at hi
  cases hx : t'.slot? i with
  | none => rw [hx] at hi; cases hi
  | some e' => exact h'.free i e' e'' hx he'' (h.free i e e' he hx hf)

theorem Touched.keeps (h : Touched t t') : Keeps t t' := by
  refine ⟨fun i => ?_, fun i e e' he he' hf => ?_⟩
  · have ht := congrArg (Option.map Prod.fst) (h.titles i)
    rwa [Option.map_map, Option.map_map] at ht
  · obtain ⟨x, hx, htitle⟩ := h.slot?_inv he'
    rw [he] at hx
    obtain rfl := Option.some.inj hx
    exact (title_eq.mp htitle).2.2.1.trans hf

theorem keeps_vacate (h : t.find? id = some e) : Keeps t (t.vacate id.index) := by
  have hs := slot?_vacate h
  refine ⟨fun i => ?_, fun i x x' hx hx' hf => ?_⟩
  · rw [hs]
    split
    · next hi => rw [hi, slot?_of_find? h]; rfl
    · rfl
  · rw [hs] at hx'
    split at hx'
    · obtain rfl := Option.some.inj hx'
      rfl
    · rw [hx] at hx'
      exact Option.some.inj hx' ▸ hf

def withdrawn (t : Table) (id : Id) : Option Parcel → Table
  | none => t
  | some p => (t.update id fun e => { e with outbox := none }).update p.target fun x =>
      { x with waiting := x.waiting - 1 }

def settledFor (t : Table) (id : Id) : Table :=
  if 0 < ((t.find? id).map Env.waiting).getD 0 then t.unparkAll id else t

def wokenFor (t : Table) (id : Id) : List Id :=
  if 0 < ((t.find? id).map Env.waiting).getD 0 then t.parkedOn id else []

def released (t : Table) (id : Id) (e : Env) : Table := ((t.withdrawn id e.outbox).settledFor id).vacate id.index

theorem touched_withdrawn (t : Table) (id : Id) (o : Option Parcel) : Touched t (t.withdrawn id o) := by
  cases o with
  | none => exact .refl t
  | some p =>
    have h₁ : Touched t (t.update id fun e => { e with outbox := none }) := touched_update fun _ _ => rfl
    exact h₁.trans (touched_update fun _ _ => rfl)

theorem touched_settledFor (t : Table) (id : Id) : Touched t (t.settledFor id) := by
  unfold settledFor
  split
  · exact touched_unparkAll
  · exact .refl t

theorem Touched.find? (h : Touched t t') (hf : t.find? id = some e) :
    ∃ e', t'.find? id = some e' ∧ e'.title = e.title := find?_of_slots (fun _ _ he => he) h.titles hf

theorem Touched.find?_inv {e' : Env} (h : Touched t t') (hf : t'.find? id = some e') :
    ∃ e, t.find? id = some e ∧ e'.title = e.title := by
  obtain ⟨e, he, htitle⟩ := find?_of_slots (fun _ _ he => he) (fun i => (h.titles i).symm) hf
  exact ⟨e, he, htitle.symm⟩

theorem touched_settled (t : Table) (id : Id) (o : Option Parcel) : Touched t ((t.withdrawn id o).settledFor id) :=
  (touched_withdrawn t id o).trans (touched_settledFor _ id)

theorem keeps_released (h : t.find? id = some e) : Keeps t (t.released id e) := by
  have ht := touched_settled t id e.outbox
  obtain ⟨e', hf, -⟩ := ht.find? h
  exact ht.keeps.trans (keeps_vacate hf)

section released

variable {d e' y : Env} {j : Id}

theorem find?_withdrawn_of_ne {o : Option Parcel} (he : t.find? j = some e) (hj : j ≠ id) :
    ∃ waiting, (t.withdrawn id o).find? j = some { e with waiting } := by
  cases o with
  | none => exact ⟨e.waiting, he⟩
  | some p =>
    have hout := (find?_update_of_ne title_cleared hj).trans he
    by_cases hp : j = p.target
    · rw [withdrawn, ← hp]
      exact ⟨e.waiting - 1, find?_update_self title_settled hout⟩
    · exact ⟨e.waiting, (find?_update_of_ne title_settled hp).trans hout⟩

variable (hd : t.find? id = some d)
include hd

theorem find?_released (j : Id) :
    (t.released id d).find? j = if j = id then none else ((t.withdrawn id d.outbox).settledFor id).find? j := by
  obtain ⟨d', hd', -⟩ := (touched_settled t id d.outbox).find? hd
  rw [released, find?_vacate hd']

theorem free_released (ht : t.Sound) : (t.released id d).free = id.index :: t.free := by
  have hs := touched_settled t id d.outbox
  obtain ⟨d', hd', -⟩ := hs.find? hd
  rw [released, free_vacate hd' (hs.sound ht), hs.free]

theorem find?_released_self : (t.released id d).find? id = none := (find?_released hd id).trans (if_pos rfl)

theorem find?_released_of_withdrawn (hy : (t.withdrawn id d.outbox).find? j = some y) (hj : j ≠ id) :
    (t.released id d).find? j = some
      (if 0 < (((t.withdrawn id d.outbox).find? id).map Env.waiting).getD 0 then y.unparkFrom id else y) := by
  rw [find?_released hd, if_neg hj, settledFor]
  split
  · rw [find?_unparkAll, hy, Option.map_some]
  · exact hy

theorem find?_released_of_ne (he : t.find? j = some e) (hj : j ≠ id) :
    ∃ waiting, (t.released id d).find? j = some { e with waiting } ∨ e.isParkedOn id = true ∧
      (t.released id d).find? j = some (({ e with waiting } : Env).unpark ErrorCode.badEnvironment.toWord) := by
  obtain ⟨waiting, hw⟩ := find?_withdrawn_of_ne (o := d.outbox) he hj
  rw [find?_released_of_withdrawn hd hw hj, unparkFrom]
  refine ⟨waiting, ?_⟩
  split
  · split
    · next hp => exact .inr ⟨hp, rfl⟩
    · exact .inl rfl
  · exact .inl rfl

theorem released_inv (he' : (t.released id d).find? j = some e') : ∃ e, t.find? j = some e ∧ j ≠ id := by
  rw [find?_released hd] at he'
  split at he'
  · cases he'
  · next hj =>
    have ht := touched_settled t id d.outbox
    obtain ⟨e, he, -⟩ := ht.find?_inv he'
    exact ⟨e, he, hj⟩

end released

end Env.Table

open Env.Table

def Journal.wakings (j : Journal) (target : Id) (woken : List Id) : Journal :=
  woken.foldl (fun j s => j.record (.woken s target)) j

structure Upheld (n : Nat) (k k' : Kernel) : Prop where
  intact : Intact n k'.envs k'.memory
  keeps : Keeps k.envs k'.envs
  current : k'.current = k.current

theorem Upheld.trans {n : Nat} {k k' k'' : Kernel} (h : Upheld n k k') (h' : Upheld n k' k'') : Upheld n k k'' :=
  ⟨h'.intact, h.keeps.trans h'.keeps, h'.current.trans h.current⟩

namespace Kernel

variable {ε ε' α β : Type} {n : Nat} {H : Panic → Prop} {k : Kernel} {id : Env.Id} {e : Env}

def Upholds (n : Nat) (H : Panic → Prop) (x : Action Kernel ε α) : Prop :=
  ∀ k, Intact n k.envs k.memory → (x k).Meets (fun _ => Upheld n k) (fun _ => Upheld n k) H

theorem upheld_of_touched (hi : Intact n k.envs k.memory) {t : Table} (ht : Touched k.envs t) :
    Upheld n k { k with envs := t } := ⟨hi.touched ht, ht.keeps, rfl⟩

theorem upholds_pure (a : α) : Upholds n H (pure a : Action Kernel ε α) := fun _ hi => ⟨hi, .refl _, rfl⟩

theorem upholds_ofExcept (r : Except ε α) : Upholds n H (.ofExcept r : Action Kernel ε α) := fun _ hi => by
  cases r with
  | ok a => exact ⟨hi, .refl _, rfl⟩
  | error e => exact ⟨hi, .refl _, rfl⟩

theorem upholds_bind {x : Action Kernel ε α} {f : α → Action Kernel ε β} (hx : Upholds n H x)
    (hf : ∀ a, Upholds n H (f a)) : Upholds n H (x >>= f) := fun k hi =>
  Action.meets_bind ((hx k hi).mono (fun _ _ h => h) (fun _ _ h => h) fun _ h => h) fun a k₁ h₁ =>
    (hf a k₁ h₁.intact).mono (fun _ _ h => h₁.trans h) (fun _ _ h => h₁.trans h) fun _ h => h

theorem upholds_state_bind {f : Kernel → Action Kernel ε β} (hf : ∀ k, Upholds n H (f k)) :
    Upholds n H (.state >>= f) := fun k hi => hf k k hi

theorem upholds_guard {c : Prop} [Decidable c] {e : ε} {f : Unit → Action Kernel ε β} (hf : Upholds n H (f ())) :
    Upholds n H (if c then (.refuse e : Action Kernel ε Unit) >>= f else f ()) := by
  split
  · exact fun _ hi => ⟨hi, .refl _, rfl⟩
  · exact hf

theorem upholds_attempt {x : Action Kernel ε α} (hx : Upholds n H x) :
    Upholds n H (x.attempt : Action Kernel ε' (Except ε α)) := fun k hi => Action.meets_attempt (hx k hi)

theorem upholds_mapError {x : Action Kernel ε α} {g : ε → ε'} (hx : Upholds n H x) :
    Upholds n H (x.mapError g) := fun k hi => Action.meets_mapError (hx k hi)

theorem upholds_record (v : Event) : Upholds n H (record v : Action Kernel ε Unit) := fun _ hi => ⟨hi, .refl _, rfl⟩

theorem upholds_readEnv : Upholds n H (readEnv id) := fun k hi => upholds_ofExcept _ k hi

theorem upholds_updateEnv {f : Env → Env} (hf : ∀ e, e.isFree = false → (f e).title = e.title) :
    Upholds n H (updateEnv id f : Action Kernel ε Unit) := fun _ hi => upheld_of_touched hi (touched_update hf)

theorem withdraw_apply (id : Env.Id) (e : Env) (k : Kernel) :
    withdraw id e k = .done () { k with envs := k.envs.withdrawn id e.outbox } := by
  unfold withdraw withdrawn
  cases e.outbox with
  | none => rfl
  | some p => rfl

theorem wakeSenders_apply (id : Env.Id) (k : Kernel) : wakeSenders id k = .done () { k with
    envs := k.envs.unparkAll id, journal := k.journal.wakings id (k.envs.parkedOn id) } :=
  forM_record _ _ { k with envs := k.envs.unparkAll id }

theorem surrender_done (hi : Intact n k.envs k.memory) (hf : k.envs.find? id = some e) :
    ∃ m, (do
      let e ← readEnv id
      if let some owned := e.space then
        if let .error _ ← (onMemory (Memory.destroy owned)).attempt then record (.spaceGone id)
      record (.freed id e.runs)
      setEnvs fun t => t.vacate id.index : Action Kernel EnvError Unit) k = .done () { k with
        envs := k.envs.vacate id.index, memory := m, journal := k.journal.record (.freed id e.runs) } ∧
      Intact n (k.envs.vacate id.index) m ∧ ∃ h, e.space = some h ∧ Memory.destroy h k.memory = .done () m := by
  obtain ⟨h, he, hl⟩ := hi.space_of_find? hf
  obtain ⟨m, hd, hs, hlive, hcount⟩ := destroy_done hi.memory hl
  have hx : ((onMemory (Memory.destroy h)).attempt : Action Kernel EnvError _) k =
      .done (.ok ()) { k with memory := m } := by
    rw [Action.attempt, onMemory_done hd]
  rw [readEnv_bind hf]
  simp only [he]
  rw [Action.bind_done hx]
  exact ⟨m, rfl, hi.vacate hf he hs hlive hcount, h, rfl, hd⟩

/-- Freeing a live environment never fails: its space is there to be destroyed, and nothing else is recorded. -/
theorem free_records (hi : Intact n k.envs k.memory) (hf : k.envs.find? id = some e) :
    ∃ m e', ((k.envs.withdrawn id e.outbox).settledFor id).find? id = some e' ∧
      free id k = .done () { k with
        envs := k.envs.released id e
        memory := m
        journal := (k.journal.wakings id ((k.envs.withdrawn id e.outbox).wokenFor id)).record (.freed id e'.runs) } ∧
      Intact n (k.envs.released id e) m ∧ ∃ h, e.space = some h ∧ Memory.destroy h k.memory = .done () m := by
  have h₁ := touched_withdrawn k.envs id e.outbox
  obtain ⟨e₁, hf₁, -⟩ := h₁.find? hf
  have h₂ := h₁.trans (touched_settledFor (k.envs.withdrawn id e.outbox) id)
  obtain ⟨e₂, hf₂, he₂⟩ := h₂.find? hf
  have hi₂ := hi.touched h₂
  rw [← (title_eq.mp he₂).2.1]
  rw [free, readEnv_bind hf, Action.bind_done (withdraw_apply id e k), readEnv_bind hf₁]
  by_cases hw : 0 < e₁.waiting
  · have ht : (k.envs.withdrawn id e.outbox).settledFor id = (k.envs.withdrawn id e.outbox).unparkAll id := by
      rw [settledFor, hf₁]
      exact if_pos hw
    have hwoken : (k.envs.withdrawn id e.outbox).wokenFor id = (k.envs.withdrawn id e.outbox).parkedOn id := by
      rw [wokenFor, hf₁]
      exact if_pos hw
    rw [if_pos hw, Action.bind_done (wakeSenders_apply id { k with envs := k.envs.withdrawn id e.outbox })]
    rw [released, ht, hwoken]
    rw [ht] at hi₂ hf₂
    obtain ⟨m, hd, hm⟩ := surrender_done (k := { k with
      envs := (k.envs.withdrawn id e.outbox).unparkAll id
      journal := k.journal.wakings id ((k.envs.withdrawn id e.outbox).parkedOn id) }) hi₂ hf₂
    exact ⟨m, e₂, hf₂, hd, hm⟩
  · have ht : (k.envs.withdrawn id e.outbox).settledFor id = k.envs.withdrawn id e.outbox := by
      rw [settledFor, hf₁]
      exact if_neg hw
    have hwoken : (k.envs.withdrawn id e.outbox).wokenFor id = [] := by
      rw [wokenFor, hf₁]
      exact if_neg hw
    rw [if_neg hw, released, ht, hwoken]
    rw [ht] at hi₂ hf₂
    obtain ⟨m, hd, hm⟩ := surrender_done (k := { k with envs := k.envs.withdrawn id e.outbox }) hi₂ hf₂
    exact ⟨m, e₂, hf₂, hd, hm⟩

theorem free_done (hi : Intact n k.envs k.memory) (hf : k.envs.find? id = some e) :
    ∃ m j, free id k = .done () { k with envs := k.envs.released id e, memory := m, journal := j } ∧
      Intact n (k.envs.released id e) m ∧ ∃ h, e.space = some h ∧ Memory.destroy h k.memory = .done () m := by
  obtain ⟨m, e', -, hd, hm⟩ := free_records hi hf
  exact ⟨m, _, hd, hm⟩

theorem free_none (hf : k.envs.find? id = none) : free id k = .refused .badEnvironment k := by
  rw [free, readEnv_bind_none hf]

theorem upholds_free : Upholds n H (free id) := fun k hi => by
  cases hf : k.envs.find? id with
  | none =>
    rw [free_none hf]
    exact ⟨hi, .refl _, rfl⟩
  | some e =>
    obtain ⟨m, j, hd, hi', -⟩ := free_done hi hf
    rw [hd]
    exact ⟨hi', keeps_released hf, rfl⟩

theorem upholds_destroy {cpu : Cpu} : Upholds n H (destroy id cpu) := by
  refine upholds_bind upholds_readEnv fun e => ?_
  split
  · refine upholds_bind (upholds_updateEnv fun e hf => ?_) fun _ =>
      upholds_bind (upholds_record _) fun _ => upholds_pure _
    simp [title, isFree] at hf ⊢
    exact hf
  · exact upholds_bind upholds_free fun _ => upholds_pure _

theorem setStatus_done {status : Env.Status} (hf : k.envs.find? id = some e) (hs : status ≠ .free) :
    setStatus id status k = .done () { k with envs := k.envs.update id fun e =>
      { e with status, cpu := if status = .running then e.cpu else none } } := by
  rw [setStatus, if_neg hs, readEnv_bind hf]
  rfl

theorem upholds_setStatus {status : Env.Status} : Upholds n H (setStatus id status) := by
  rw [setStatus]
  split
  · exact upholds_free
  · next hs =>
    refine upholds_bind upholds_readEnv fun _ => upholds_updateEnv fun e hf => ?_
    simp [title, isFree] at hf ⊢
    simp [hs, hf]

/-- An allocation is refused without a trace in the table, or occupies the slot at the head of the free list. -/
theorem allocate_spec {parent : Env.Id} {kind : Env.Kind} (hi : Intact n k.envs k.memory) :
    (allocate parent kind k).Meets
      (fun id k' => ∃ index space, k.envs.freeHead = some index ∧
        id = (k.envs.occupy index parent kind space).1 ∧
        k'.envs = (k.envs.occupy index parent kind space).2 ∧ Intact n k'.envs k'.memory ∧
        k'.current = k.current)
      (fun _ k' => Intact n k'.envs k'.memory ∧ k'.envs = k.envs ∧ k'.current = k.current) H := by
  rw [allocate, Action.state_bind]
  cases hfree : k.envs.freeHead with
  | none => exact ⟨hi, rfl, rfl⟩
  | some index =>
    have hc : ((onMemory Memory.create).mapError (fun _ => EnvError.outOfMemory) k).Meets
        (fun space k' => ∃ m, k' = { k with memory := m } ∧
          Intact n (k.envs.occupy index parent kind space).2 m)
        (fun _ k' => Intact n k'.envs k'.memory ∧ k'.envs = k.envs ∧ k'.current = k.current) H := by
      apply Action.meets_mapError
      apply Action.meets_onPart
      refine (balanced_create hi.memory).mono (fun space m hm => ?_) (fun _ m hm => ?_) fun p hp => ?_
      · exact ⟨m, rfl, hi.occupy hfree hm.1 hm.2.1 hm.2.2.1 hm.2.2.2⟩
      · exact ⟨hi.kept hm.1 hm.2, rfl, rfl⟩
      · exact absurd hp hi.not_crowded
    refine Action.meets_bind hc fun space k₁ h₁ => ?_
    obtain ⟨m, rfl, hi₁⟩ := h₁
    exact ⟨index, space, rfl, rfl, rfl, hi₁, rfl⟩

end Kernel

/-! ## Dispatching in closed form -/

namespace Kernel

variable {ε : Type} {k : Kernel} {cpu : Cpu} {id : Env.Id} {e : Env}

def promoted (cpu : Cpu) (e : Env) : Env := { e with status := .running, runs := e.runs + 1, cpu := some cpu }

def madeRoom (t : Env.Table) (last : Option Env.Id) (id : Env.Id) : Env.Table :=
  match last with
  | none => t
  | some last => if last ≠ id then t.update last demoted else t

theorem title_demoted (e : Env) : (demoted e).title = e.title := by
  unfold demoted
  split
  · next h => simp [Env.title, Env.isFree, h]
  · rfl

theorem title_promoted {e : Env} (hf : e.isFree = false) : (promoted cpu e).title = e.title :=
  Env.title_of_live rfl rfl rfl (by simp [promoted]) hf

theorem touched_madeRoom (t : Env.Table) (last : Option Env.Id) (id : Env.Id) : Touched t (madeRoom t last id) := by
  cases last with
  | none => exact .refl t
  | some last =>
    by_cases h : last ≠ id
    · simp only [madeRoom, if_pos h]
      exact touched_update fun e _ => title_demoted e
    · simp only [madeRoom, if_neg h]
      exact .refl t

theorem dispatch_apply (cpu : Cpu) (id : Env.Id) (k : Kernel) :
    (dispatch cpu id : Action Kernel ε Unit) k = .done ()
      { k with
        envs := (madeRoom k.envs (k.currentOf cpu) id).update id (promoted cpu)
        current := k.current.setIfInBounds cpu.index (some id)
        progress := k.progress + 1
        journal := k.journal.record (.dispatched cpu id) } := by
  unfold dispatch
  rw [Action.state_bind]
  cases k.currentOf cpu with
  | none => rfl
  | some last =>
    by_cases h : last ≠ id
    · simp only [madeRoom, if_pos h]
      rfl
    · simp only [madeRoom, if_neg h]
      rfl

theorem touched_dispatch (t : Env.Table) (last : Option Env.Id) (cpu : Cpu) (id : Env.Id) :
    Touched t ((madeRoom t last id).update id (promoted cpu)) :=
  (touched_madeRoom t last id).trans (touched_update fun _ hf => title_promoted hf)

end Kernel

end Exokernel
