import Exokernel.Proofs.Kernel.Rotation
import Exokernel.Proofs.Trap.Meddling

/-!
# Passing a CPU on

A pass changes nothing but who runs: environments look the same before and after it once they are at rest. A
program that can run is resumed, or somebody from whom the scan has less far to go to it.
-/

set_option autoImplicit false

namespace Exokernel

open Env (Id Kind Status)
open Env.Table

def Env.resting (e : Env) : Env :=
  { e.core with status := if e.status = .running then .runnable else e.status, cpu := none }

def Rested (t t' : Env.Table) : Prop := ∀ id, (t'.find? id).map Env.resting = (t.find? id).map Env.resting

variable {ε : Type} {n : Nat} {b : Seats} {c : Cpu} {caller id last j : Id} {k : Kernel} {e e' : Env}
  {t t' t'' : Env.Table} {f : Env → Env} {x : Option Id} {live : Context} {d : Nat}

theorem resting_of_core (h : e'.core = e.core) : e'.resting = e.resting := by
  show e'.core.resting = e.core.resting
  rw [h]

theorem resting_demoted (e : Env) : (Kernel.demoted e).resting = e.resting := by
  unfold Kernel.demoted
  split
  · next hr => simp [Env.resting, Env.core, hr]
  · rfl

theorem resting_promoted (h : e.status = .runnable ∨ e.status = .running) :
    (Kernel.promoted c e).resting = e.resting := by
  rcases h with h | h
  · simp [Kernel.promoted, Env.resting, Env.core, h]
  · simp [Kernel.promoted, Env.resting, Env.core, h]

theorem Rested.refl (t : Env.Table) : Rested t t := fun _ => rfl

theorem Rested.trans (h : Rested t t') (h' : Rested t' t'') : Rested t t'' := fun id => (h' id).trans (h id)

theorem Rested.find? (h : Rested t t') (hf : t.find? id = some e) :
    ∃ e', t'.find? id = some e' ∧ e'.resting = e.resting := by
  have hid := h id
  rw [hf] at hid
  exact Option.map_eq_some_iff.mp hid

theorem rested_touch (hc : ∀ e, (f e).core = e.core) : Rested t (t.update id f) := by
  intro j
  have htitle : ∀ e, e.isFree = false → (f e).title = e.title := fun e _ => title_of_core (hc e)
  rw [find?_update htitle]
  split
  · next hj =>
    rw [hj, Option.map_map]
    congr 1
    funext e
    exact resting_of_core (hc e)
  · rfl

theorem rested_dispatched (hf : k.envs.find? id = some e) (hr : e.status = .runnable ∨ e.status = .running) :
    Rested k.envs (k.dispatched c id).envs := by
  intro j
  rw [Kernel.find?_dispatched hf]
  by_cases hj : j = id
  · rw [if_pos hj, hj, hf]
    exact congrArg some (resting_promoted hr)
  · rw [if_neg hj, Option.map_map]
    congr 1
    funext y
    simp only [Function.comp]
    split
    · exact resting_demoted y
    · rfl

theorem parts_of_resting (h : e'.resting = e.resting) : e'.id = e.id ∧ e'.parent = e.parent ∧ e'.kind = e.kind ∧
    e'.mailbox.receiving = e.mailbox.receiving ∧ e'.outbox = e.outbox := by
  have hid : e'.resting.id = e.resting.id := by rw [h]
  have hparent : e'.resting.parent = e.resting.parent := by rw [h]
  have hkind : e'.resting.kind = e.resting.kind := by rw [h]
  have hmail : e'.resting.mailbox.receiving = e.resting.mailbox.receiving := by rw [h]
  have hout : e'.resting.outbox = e.resting.outbox := by rw [h]
  exact ⟨hid, hparent, hkind, hmail, hout⟩

theorem status_of_resting (h : e'.resting = e.resting) :
    (if e'.status = .running then .runnable else e'.status) = if e.status = .running then .runnable else e.status := by
  have hs : e'.resting.status = e.resting.status := by rw [h]
  exact hs

namespace Kernel

theorem rested_saved : Rested k.envs (k.saved id live).envs := by
  have hcore : ∀ y : Env, ({ y with context := live } : Env).core = y.core := fun _ => rfl
  exact rested_touch hcore

theorem stays_dispatched (hf : k.envs.find? id = some e) (hk : e.kind ≠ .idle) : Stays c id (k.dispatched c id) := by
  refine ⟨promoted c e, ?_, rfl, rfl, hk⟩
  rw [find?_dispatched hf, if_pos rfl]

/-- A pass resumes a candidate, or somebody from whom the next scan has less far to go to it. -/
theorem reschedule_toward (live : Context) (h : Orderly n k b x) (hs : LastHere k b c) (hc : c.index < k.current.size)
    (hf : k.envs.find? id = some e) (hr : e.status = .runnable) (hk : e.kind ≠ .idle)
    (hd : d < k.envs.capacity) (hi : (k.scanStart c + d) % k.envs.capacity = id.index) :
    ∃ j ctx, (reschedule c live : Action Kernel ε (Exit × Context)) k = .done (.resume j, ctx) (k.dispatched c j) ∧
      Orderly n (k.dispatched c j) (Function.update b c (some j)) x ∧ Stays c j (k.dispatched c j) ∧
      Rested k.envs (k.dispatched c j).envs ∧
      (j = id ∨ (k.dispatched c j).envs.find? id = some e ∧
        ∃ d', d' < d ∧ (j.index + 1 + d') % k.envs.capacity = id.index) := by
  have hcand : e.isCandidate = true := by simp [Env.isCandidate, hr, hk]
  obtain ⟨j, hp, hcase⟩ := pick_toward h.intact.table.indexed hf hcand hd hi
  obtain ⟨y, hy, hry, hky⟩ := pick_spec h.intact.table.indexed hp
  refine ⟨j, y.context, reschedule_of_run live (schedule_of_pick hp) hy,
    h.dispatched hs hc hy (.inl hry) (fun hi => absurd hi hky), stays_dispatched hy hky,
    rested_dispatched hy (.inl hry), ?_⟩
  by_cases hj : j = id
  · exact .inl hj
  · refine .inr ⟨?_, hcase.resolve_left hj⟩
    have hdem : demoted e = e := by
      rw [demoted, if_neg]
      rw [hr]
      decide
    rw [find?_dispatched hy, if_neg (Ne.symm hj), hf, Option.map_some, hdem, ite_self]

/-- The timer trap of a program takes its CPU toward a candidate. -/
theorem trap_toward (h : Orderly n k b x) (hmode : live.mode = .user) (ht : live.number = Trap.timer)
    (hb : b c = some caller) (hst : Stays c caller k) (hc : c.index < k.current.size) (hf : k.envs.find? id = some e)
    (hr : e.status = .runnable) (hk : e.kind ≠ .idle) (hd : d < k.envs.capacity)
    (hi : (caller.index + 1 + d) % k.envs.capacity = id.index) :
    ∃ j ctx k', (trap c live : Action Kernel ε (Exit × Context)) k = .done (.resume j, ctx) k' ∧
      Orderly n k' (Function.update b c (some j)) x ∧ Stays c j k' ∧ Rested k.envs k'.envs ∧
      k'.current.size = k.current.size ∧ k'.envs.capacity = k.envs.capacity ∧
      (j = id ∨ k'.envs.find? id = some e ∧ ∃ d', d' < d ∧ (j.index + 1 + d') % k'.envs.capacity = id.index) := by
  obtain ⟨y, hrun, hid, hy⟩ := runningOn_of_seat h hb
  obtain rfl := hid
  have hyr : y.status = .running := by
    obtain ⟨y', hy', hr', -⟩ := hst
    rw [hy] at hy'
    exact Option.some.inj hy' ▸ hr'
  have hlive : y.status ≠ .dying := by rw [hyr]; decide
  have hl : k.currentOf c = some y.id := h.scheduled.lastOn_of_seat hb
  have hne : id ≠ y.id := by
    rintro rfl
    obtain rfl := find?_unique hy hf
    rw [hyr] at hr
    cases hr
  have hf₁ : (k.saved y.id live).envs.find? id = some e := (find?_saved_of_ne hne).trans hf
  have hcap : (k.saved y.id live).envs.capacity = k.envs.capacity := capacity_update
  have hstart : (k.saved y.id live).scanStart c = y.id.index + 1 := by
    have hl₁ : (k.saved y.id live).currentOf c = some y.id := hl
    rw [scanStart, hl₁]
  have hs : LastHere (k.saved y.id live) b c := by
    intro i z hi' _ _
    rw [show (k.saved y.id live).currentOf c = some y.id from hl] at hi'
    exact hi' ▸ hb
  have hsaved : Orderly n (k.saved y.id live) b x := orderly_saved h
  obtain ⟨j, ctx, hresched, ho, hstj, hrest, hcase⟩ := reschedule_toward (ε := ε) live hsaved hs hc
    hf₁ hr hk (by rw [hcap]; exact hd) (by rw [hcap, hstart]; exact hi)
  have hthere : ¬((k.saved y.id live).envs.find? y.id).isNone = true := by simp [find?_saved hy]
  have hcap' : ((k.saved y.id live).dispatched c j).envs.capacity = k.envs.capacity :=
    (touched_dispatch _ _ _ _).capacity.trans hcap
  refine ⟨j, ctx, _, ?_, ho, hstj, rested_saved.trans hrest, Array.size_setIfInBounds, hcap', ?_⟩
  · rw [trap_running hmode hrun hlive, Action.bind_done (handle_timer ht), leave, Action.state_bind]
    simp only [if_neg hthere, if_true]
    exact hresched
  · rw [hcap']
    rw [hcap] at hcase
    exact hcase

end Kernel

end Exokernel
