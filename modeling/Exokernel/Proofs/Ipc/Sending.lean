import Exokernel.Proofs.Ipc.Blocking

/-!
# Sending

A delivery wakes its target, which was blocked. A sender whose target does not receive gets the error back, or
parks. A receive blocks its caller.
-/

set_option autoImplicit false

namespace Exokernel

open Env (Id Kind Status Message Parcel)
open Env.Table Kernel

variable {n : Nat} {b : Seats} {current : Array (Option Id)} {c : Cpu} {caller sender target id : Id}
  {k k' : Kernel} {e : Env} {f : Env → Env} {x : Option Id} {msg : Message}

namespace Kernel

/-- A delivery to an environment that receives, which is then runnable. -/
theorem deliver_spec (h : OnCpu n b current caller k) (hb : b c = some caller) (hf : k.envs.find? target = some e)
    (hr : e.mailbox.receiving = true) :
    ((do
      transfer sender target msg
      updateEnv target fun e => { e with status := .runnable } : Action Kernel IpcError Unit) k).Meets
      (fun _ => OnCpu n b current caller) (fun _ => OnCpu n b current caller) fun _ => False := by
  have hfit := h.orderly.scheduled.fit target e hf
  have hne : caller ≠ target := by
    rintro rfl
    obtain ⟨-, -, -, hr', -⟩ := h.caller_spec hb hf
    rw [hr] at hr'
    cases hr'
  refine Action.meets_bind ((transfer_spec h.orderly.intact).mono (fun _ _ h => h) (fun _ k₁ h₁ => ?_) fun _ h => h)
    fun _ k₁ ⟨hu, perm, he⟩ => ?_
  · exact h.congr h₁.1.intact h₁.2 h₁.1.current
  · have ho : Orderly n k₁ b none := h.orderly.delivered hu.intact he hu.current
    have hf₁ : k₁.envs.find? target = some (delivered sender msg.value perm e) := by
      rw [he, find?_update title_delivered, if_pos rfl, hf]
      rfl
    have h₂ := ho.wake Env.context hf₁ (hfit.calm (by simp) (.inl hr)) rfl (hfit.single (by simp) hr)
    refine ⟨h₂, hu.current.trans h.current, ?_⟩
    show ∃ e, (k₁.envs.update target _).find? caller = some e ∧ _
    rw [find?_update Env.title_runnable, if_neg hne, he, find?_update title_delivered, if_neg hne]
    exact h.running

theorem resolveTarget_spec (h : OnCpu n b current caller k) :
    (resolveTarget caller target k).Meets (fun _ k' => k' = k) (fun _ => OnCpu n b current caller) fun _ => False := by
  rw [resolveTarget, Action.state_bind]
  cases (k.envs.resolve target (some caller) false).mapError IpcError.ofEnv with
  | ok id => rfl
  | error e => exact h

theorem trySend_spec (h : OnCpu n b current caller k) (hb : b c = some caller) :
    (trySend caller target msg k).Meets (fun _ => OnCpu n b current caller) (fun _ => OnCpu n b current caller)
      fun _ => False := by
  refine Action.meets_bind (resolveTarget_spec h) fun t k₁ hk => ?_
  subst hk
  rw [Action.state_bind]
  cases k₁.validateSource caller msg with
  | error cause => exact h
  | ok offer =>
    rw [Action.lift_ok_bind]
    cases hf : k₁.envs.find? t with
    | none =>
      rw [readEnv_mapError_bind_none _ hf]
      exact h
    | some e =>
      rw [readEnv_mapError_bind _ hf]
      cases hr : e.mailbox.receiving with
      | false => exact h
      | true => exact deliver_spec h hb hf hr

theorem receive_spec {dstva : Word} (h : OnCpu n b current caller k) (hb : b c = some caller) :
    (receive caller dstva k).Meets (fun _ => OffCpu n b current c) (fun _ => OnCpu n b current caller)
      fun _ => False := by
  rw [receive]
  cases validateDestination dstva with
  | error cause => exact h
  | ok u =>
    rw [Action.lift_ok_bind]
    exact ((Scanning.of_onCpu h hb).block hb).unrefused

theorem sendQueued_spec (h : OnCpu n b current caller k) (hb : b c = some caller) :
    (sendQueued caller target msg k).Meets (fun r => Ends n b current c caller (r = .parked))
      (fun _ => OnCpu n b current caller) fun _ => False := by
  refine Action.meets_bind (resolveTarget_spec h) fun t k₁ hk => ?_
  subst hk
  split
  · exact h
  · next hne =>
    dsimp only
    rw [Action.state_bind]
    cases k₁.validateSource caller msg with
    | error cause => exact h
    | ok offer =>
      rw [Action.lift_ok_bind]
      cases hf : k₁.envs.find? t with
      | none =>
        rw [readEnv_mapError_bind_none _ hf]
        exact h
      | some e =>
        rw [readEnv_mapError_bind _ hf]
        by_cases hr : e.mailbox.receiving = true
        · rw [if_pos hr, ← bind_assoc]
          refine Action.meets_bind (deliver_spec h hb hf hr) fun _ k₂ h₂ => ?_
          exact .inl h₂
        · have hw := h.orderly.counted.waiting_le h.orderly.intact.table hf
          have hroom : e.waiting + 1 < countLimit := by
            simp only [Env.slotLimit, countLimit] at *
            omega
          obtain ⟨y, hy, -⟩ := h.running
          have hy₁ : (k₁.envs.update t fun e => { e with waiting := e.waiting + 1 }).find? caller = some y := by
            rw [find?_update, if_neg (Ne.symm hne), hy]
            exact fun _ _ => rfl
          rw [if_neg hr, addWaiting, if_pos hroom, updateEnv_bind, readEnv_mapError_bind _ hy₁]
          have hpark := h.park msg hb hy (Ne.symm hne)
          exact .inr ⟨rfl, hpark.orderly.congr hpark.orderly.intact rfl rfl, hpark.current⟩

end Kernel

end Exokernel
