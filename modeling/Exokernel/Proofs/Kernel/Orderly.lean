import Exokernel.Proofs.Env.Waiting
import Exokernel.Proofs.Kernel.Scheduled

/-!
# Orderly kernels

A kernel is orderly when its environments fit its spaces, its table fits the seats, and its counts of parked
senders are right. The lemmas below say what the operations on single environments do to an orderly kernel.
-/

set_option autoImplicit false

namespace Exokernel

open Env (Id Kind Status)
open Env.Table

structure Orderly (n : Nat) (k : Kernel) (b : Seats) (x : Option Id) : Prop where
  intact : Intact n k.envs k.memory
  scheduled : Scheduled k.envs k.current b x
  counted : k.envs.Counted

def Env.core (e : Env) : Env :=
  { e with runs := 0, upcall := 0, context := {}, mailbox := { receiving := e.mailbox.receiving } }

section core

variable {e e' : Env} (h : e'.core = e.core)
include h

theorem title_of_core : e'.title = e.title := by
  show e'.core.title = e.core.title
  rw [h]

theorem stance_of_core : e'.stance = e.stance := by
  show e'.core.stance = e.core.stance
  rw [h]

theorem waiting_of_core : e'.waiting = e.waiting := by
  show e'.core.waiting = e.core.waiting
  rw [h]

theorem outbox_of_core : e'.outbox = e.outbox := by
  show e'.core.outbox = e.core.outbox
  rw [h]

end core

section kinds

variable {t : Env.Table} {id : Id} {f : Env → Env}

theorem kinds_update (htitle : ∀ e, e.isFree = false → (f e).title = e.title) (hkind : ∀ e, (f e).kind = e.kind)
    (j : Id) : ((t.update id f).find? j).map Env.kind = (t.find? j).map Env.kind := by
  rw [find?_update htitle]
  split
  · next hj =>
    rw [hj, Option.map_map]
    congr 1
    funext e
    exact hkind e
  · rfl

theorem kinds_unparkAll (j : Id) : ((t.unparkAll id).find? j).map Env.kind = (t.find? j).map Env.kind := by
  rw [find?_unparkAll, Option.map_map]
  congr 1
  funext e
  simp only [Function.comp, Env.unparkFrom]
  split <;> rfl

theorem kinds_withdrawn (o : Option Env.Parcel) (j : Id) :
    ((t.withdrawn id o).find? j).map Env.kind = (t.find? j).map Env.kind := by
  cases o with
  | none => rfl
  | some p =>
    rw [Env.Table.withdrawn, kinds_update, kinds_update]
    all_goals intros; rfl

theorem kinds_settledFor (j : Id) : ((t.settledFor id).find? j).map Env.kind = (t.find? j).map Env.kind := by
  unfold Env.Table.settledFor
  split
  · exact kinds_unparkAll j
  · rfl

end kinds

theorem Scheduled.withdrawn {t : Env.Table} {current : Array (Option Id)} {b : Seats} {x : Option Id} (id : Id)
    (o : Option Env.Parcel) (h : Scheduled t current b x) : Scheduled (t.withdrawn id o) current b x := by
  cases o with
  | none => exact h
  | some p => exact h.clearOutbox.touch (fun _ _ => rfl) fun _ => rfl

theorem Scheduled.settledFor {t : Env.Table} {current : Array (Option Id)} {b : Seats} (id : Id)
    (h : Scheduled t current b none) : Scheduled (t.settledFor id) current b none := by
  unfold Env.Table.settledFor
  split
  · exact h.unparkAll
  · exact h

namespace Orderly

variable {n : Nat} {k k' : Kernel} {b b' : Seats} {x : Option Id} {id : Id} {e : Env} {f : Env → Env} {c : Cpu}

theorem congr (h : Orderly n k b x) (hi : Intact n k'.envs k'.memory) (he : k'.envs = k.envs)
    (hc : k'.current = k.current) : Orderly n k' b x := by
  refine ⟨hi, ?_, ?_⟩
  · rw [he, hc]
    exact h.scheduled
  · rw [he]
    exact h.counted

theorem touch (h : Orderly n k b x) (hc : ∀ e, (f e).core = e.core) :
    Orderly n { k with envs := k.envs.update id f } b x where
  intact := h.intact.touched (touched_update fun e _ => title_of_core (hc e))
  scheduled := h.scheduled.touch (fun e _ => title_of_core (hc e)) fun e => stance_of_core (hc e)
  counted := h.counted.touch (fun e _ => title_of_core (hc e)) (fun e => waiting_of_core (hc e)) fun e =>
    outbox_of_core (hc e)

theorem update (h : Orderly n k b x) (hf : k.envs.find? id = some e)
    (htitle : ∀ e, e.isFree = false → (f e).title = e.title) (hkind : (f e).kind = e.kind)
    (hw : ∀ e, (f e).waiting = e.waiting) (ho : ∀ e, (f e).outbox = e.outbox) (hb : SameOthers id b b')
    (hfit : Fit b' x (f e)) (hseat : ∀ c, b' c = some id → Seated k.current c id (f e)) :
    Orderly n { k with envs := k.envs.update id f } b' x where
  intact := h.intact.touched (touched_update htitle)
  scheduled := h.scheduled.update hf htitle hkind hb hfit hseat
  counted := h.counted.touch htitle hw ho

/-- A live environment that is not idle can be freed, unless it sits at some CPU. -/
theorem freed (h : Orderly n k b none) (hf : k.envs.find? id = some e) (hk : e.kind ≠ .idle)
    (hb : SameOthers id b b') (hseat : ∀ c, b' c ≠ some id) :
    ∃ m j, Kernel.free id k = .done () { k with envs := k.envs.released id e, memory := m, journal := j } ∧
      Orderly n { k with envs := k.envs.released id e, memory := m, journal := j } b' none := by
  obtain ⟨m, j, hd, hi, -⟩ := Kernel.free_done h.intact hf
  refine ⟨m, j, hd, hi, ?_, counted_released h.counted hf⟩
  have h₁ := (h.scheduled.withdrawn id e.outbox).settledFor id
  have ht := touched_settled k.envs id e.outbox
  obtain ⟨e₂, hf₂, -⟩ := ht.find? hf
  have hk₂ : e₂.kind = e.kind := by
    have hkinds : (((k.envs.withdrawn id e.outbox).settledFor id).find? id).map Env.kind =
        (k.envs.find? id).map Env.kind :=
      (kinds_settledFor id).trans (kinds_withdrawn e.outbox id)
    rw [hf₂, hf] at hkinds
    exact Option.some.inj hkinds
  rw [← hk₂] at hk
  exact h₁.vacate hf₂ hk hb hseat

end Orderly

end Exokernel
