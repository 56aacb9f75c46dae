import Exokernel.Ipc
import Exokernel.Proofs.Kernel.Upkeep

/-!
# Messages keep environments and spaces together

A page that a message hands over is mapped at its sender, hence its frame is in use. Message operations change
mailboxes, outboxes and statuses, never who owns what.
-/

set_option autoImplicit false

namespace Exokernel.Kernel

open Env Env.Table Memory

variable {n : Nat} {H : Panic → Prop} {k : Kernel} {caller sender target : Env.Id} {e receiver : Env}
  {msg : Message} {offer : Option PageOffer}

theorem lookup_used {space : Handle} {va : Nat} {mapping : Mapping} (hm : Settled n k.memory)
    (h : k.memory.lookup space va = .ok (some mapping)) : k.memory.frames.used mapping.frame = true := by
  unfold Memory.lookup at h
  rcases space_cases k.memory space with ⟨s, hs, hok⟩ | ⟨-, herr⟩
  · rw [hok] at h
    have hl : s.table.lookup va = some mapping := Except.ok.inj h
    exact hm.used_of_mem hs (List.mem_cons_of_mem _ (PageTable.lookup_mem_frames hl))
  · rw [herr] at h
    cases h

theorem validateSource_used {o : PageOffer} (hm : Settled n k.memory)
    (h : k.validateSource sender msg = .ok (some o)) : k.memory.frames.used o.mapping.frame = true := by
  unfold validateSource at h
  split at h
  · cases h
  · split at h
    · cases h
    · cases hs : k.spaceOf sender with
      | error e => rw [hs] at h; cases h
      | ok space =>
        rw [hs] at h
        cases hl : k.memory.lookup space msg.srcva.toNat with
        | error e =>
          simp only [Except.mapError, bind, Except.bind, hl] at h
          cases h
        | ok r =>
          cases r with
          | none =>
            simp only [Except.mapError, bind, Except.bind, hl] at h
            cases h
          | some mapping =>
            have hu := lookup_used hm hl
            simp only [Except.mapError, bind, Except.bind, hl] at h
            split at h
            · cases h
            · split at h
              · cases h
              · cases h
                exact hu

theorem acceptPage_spec (hi : Intact n k.envs k.memory)
    (hu : ∀ o, offer = some o → k.memory.frames.used o.mapping.frame = true) :
    (acceptPage receiver offer k).Meets (fun _ k' => Upheld n k k' ∧ k'.envs = k.envs)
      (fun _ k' => Upheld n k k' ∧ k'.envs = k.envs) H := by
  have hself : Upheld n k k ∧ k.envs = k.envs := ⟨⟨hi, .refl _, rfl⟩, rfl⟩
  cases offer with
  | none => exact hself
  | some o =>
    rw [acceptPage]
    split
    · cases receiver.space with
      | none => exact hself
      | some space =>
        refine Action.meets_bind (Action.meets_mapError ?_) fun _ k₁ h₁ => h₁
        apply Action.meets_onPart
        exact (balanced_insert hi.memory (hu o rfl)).mono (fun _ m ⟨hs, hk, _⟩ => ⟨⟨hi.kept hs hk, .refl _, rfl⟩, rfl⟩)
          (fun _ m ⟨hs, hk⟩ => ⟨⟨hi.kept hs hk, .refl _, rfl⟩, rfl⟩) fun p hp => absurd hp hi.not_crowded
    · exact hself

def delivered (sender : Env.Id) (value : Word) (perm : PageFlags) (e : Env) : Env :=
  { e with mailbox := { e.mailbox with receiving := false, sender, value, perm } }

theorem title_delivered {value : Word} {perm : PageFlags} (e : Env) (_ : e.isFree = false) :
    (delivered sender value perm e).title = e.title := rfl

/-- A transfer ends in a delivery or leaves every environment as it was. -/
theorem transfer_spec (hi : Intact n k.envs k.memory) :
    (transfer sender target msg k).Meets
      (fun _ k' => Upheld n k k' ∧ ∃ perm, k'.envs = k.envs.update target (delivered sender msg.value perm))
      (fun _ k' => Upheld n k k' ∧ k'.envs = k.envs) H := by
  have hself : Upheld n k k := ⟨hi, .refl _, rfl⟩
  rw [transfer, Action.state_bind]
  cases hv : k.validateSource sender msg with
  | error e => exact ⟨hself, rfl⟩
  | ok offer =>
    rw [Action.lift_ok_bind]
    cases hf : k.envs.find? target with
    | none =>
      rw [readEnv_mapError_bind_none _ hf]
      exact ⟨hself, rfl⟩
    | some receiver =>
      rw [readEnv_mapError_bind _ hf]
      refine Action.meets_bind (acceptPage_spec hi fun o ho => validateSource_used hi.memory (ho ▸ hv))
        fun perm k₁ ⟨h₁, he₁⟩ => ?_
      rw [updateEnv_bind]
      have ht : Touched k₁.envs (k₁.envs.update target (delivered sender msg.value perm)) :=
        touched_update fun _ _ => rfl
      exact ⟨h₁.trans ⟨h₁.intact.touched ht, ht.keeps, rfl⟩, perm, by rw [he₁]; rfl⟩

theorem upholds_transfer : Upholds n H (transfer sender target msg) := fun _ hi =>
  (transfer_spec hi).mono (fun _ _ h => h.1) (fun _ _ h => h.1) fun _ h => h

theorem upholds_resolveTarget : Upholds n H (resolveTarget caller target) :=
  upholds_state_bind fun _ => upholds_ofExcept _

theorem upholds_liftM {α : Type} (r : Except IpcError α) : Upholds n H (liftM r : Action Kernel IpcError α) :=
  upholds_ofExcept r

theorem upholds_trySend : Upholds n H (trySend caller target msg) := by
  refine upholds_bind upholds_resolveTarget fun target => upholds_state_bind fun k => ?_
  refine upholds_bind (upholds_liftM _) fun _ => upholds_bind (upholds_mapError upholds_readEnv) fun e => ?_
  exact upholds_guard (upholds_bind upholds_transfer fun _ => upholds_updateEnv title_runnable)

theorem upholds_blockInReceive {dstva : Word} : Upholds n H (blockInReceive caller dstva) := by
  refine upholds_bind (upholds_mapError upholds_readEnv) fun _ => upholds_updateEnv fun e hf => ?_
  simp only [title, isFree] at hf ⊢
  rw [hf]
  rfl

theorem upholds_receive {dstva : Word} : Upholds n H (receive caller dstva) :=
  upholds_bind (upholds_liftM _) fun _ => upholds_blockInReceive

theorem upholds_addWaiting (hH : H .addOverflow) : Upholds n H (addWaiting target e) := by
  rw [addWaiting]
  split
  · exact upholds_updateEnv fun _ _ => rfl
  · exact fun _ _ => hH

theorem upholds_sendQueued (hH : H .addOverflow) : Upholds n H (sendQueued caller target msg) := by
  refine upholds_bind upholds_resolveTarget fun target => ?_
  refine upholds_guard (upholds_state_bind fun k => upholds_bind (upholds_liftM _) fun _ => ?_)
  refine upholds_bind (upholds_mapError upholds_readEnv) fun e => ?_
  split
  · exact upholds_bind upholds_transfer fun _ => upholds_bind (upholds_updateEnv title_runnable)
      fun _ => upholds_pure _
  · refine upholds_bind (upholds_addWaiting hH) fun _ => upholds_bind (upholds_mapError upholds_readEnv) fun _ => ?_
    refine upholds_bind (upholds_updateEnv fun e hf => ?_) fun _ => upholds_bind (upholds_record _) fun _ =>
      upholds_pure _
    simp only [title, isFree] at hf ⊢
    rw [hf]
    rfl

theorem upholds_takeParked {index : Nat} : Upholds n H (takeParked index target) := by
  refine upholds_state_bind fun k => ?_
  split
  · exact upholds_pure _
  · split
    · exact upholds_pure _
    · split
      · exact upholds_bind (upholds_updateEnv fun _ _ => rfl) fun _ => upholds_pure _
      · exact upholds_pure _

theorem upholds_fetch {index : Nat} : Upholds n H (fetch caller index) := by
  refine upholds_bind upholds_takeParked fun r => ?_
  split
  · exact upholds_pure _
  · refine upholds_bind (upholds_updateEnv fun _ _ => rfl) fun _ => ?_
    refine upholds_bind (upholds_attempt upholds_transfer) fun result => ?_
    refine upholds_bind (upholds_updateEnv title_woken) fun _ => ?_
    cases result with
    | ok u => exact upholds_pure _
    | error cause => exact upholds_bind (upholds_record _) fun _ => upholds_pure _

theorem upholds_fetchFrom (hH : H .addOverflow) (start count done : Nat) :
    Upholds n H (fetchFrom caller start count done) := by
  induction count generalizing done with
  | zero => exact upholds_pure _
  | succ count ih =>
    rw [fetchFrom]
    split
    · refine upholds_state_bind fun k => upholds_bind upholds_fetch fun r => ?_
      cases r with
      | some sender => exact upholds_pure _
      | none => exact ih (done + 1)
    · exact fun _ _ => hH

theorem upholds_receiveQueued (hH : H .addOverflow) {dstva : Word} {start : Nat} :
    Upholds n H (receiveQueued caller dstva start) := by
  refine upholds_bind (upholds_liftM _) fun _ => upholds_bind (upholds_mapError upholds_readEnv) fun e => ?_
  have hblock : Upholds n H (do
      blockInReceive caller dstva
      return ReceiveOutcome.blocked) := upholds_bind upholds_blockInReceive fun _ => upholds_pure _
  split
  · refine upholds_bind (upholds_updateEnv fun _ _ => rfl) fun _ => upholds_state_bind fun k => ?_
    refine upholds_bind (upholds_fetchFrom hH _ _ _) fun r => ?_
    cases r with
    | some sender => exact upholds_pure _
    | none => exact hblock
  · exact hblock

end Exokernel.Kernel
