import Exokernel.Proofs.Ipc.Deeds
import Exokernel.Proofs.Ipc.Sending

/-!
# Fetching from parked senders

A fetch takes over the message of a sender and lets the sender run again, whether the transfer succeeds or not. The
scan ends with a message, or with its caller blocked.
-/

set_option autoImplicit false

namespace Exokernel

open Env (Id Kind Status Message Parcel)
open Env.Table Kernel

variable {n : Nat} {b : Seats} {current : Array (Option Id)} {c : Cpu} {caller sender target id : Id}
  {k k' : Kernel} {e : Env} {f : Env → Env} {x : Option Id} {msg : Message}

def Dropped (caller sender : Id) (t : Env.Table) : Prop :=
  sender ≠ caller ∧
    ∃ e, t.find? sender = some e ∧ e.status = .notRunnable ∧ e.mailbox.receiving = false ∧ e.outbox = none

namespace Scanning

/-- The message of a parked sender is taken over, and the sender is no longer counted. -/
theorem settle (h : Scanning n b current caller k) (hf : k.envs.find? sender = some e)
    (hp : e.isParkedOn caller = true) (ho : e.outbox.isSome = true) :
    Scanning n b current caller
        { k with envs := (k.envs.update sender fun e => { e with outbox := none }).update caller fun e =>
          { e with waiting := e.waiting - 1 } } ∧
      Dropped caller sender ((k.envs.update sender fun e => { e with outbox := none }).update caller fun e =>
          { e with waiting := e.waiting - 1 }) := by
  obtain ⟨y, hy, hr, hk, hoy⟩ := h.running
  have hne : sender ≠ caller := by
    rintro rfl
    obtain rfl := find?_unique hf hy
    rw [hoy] at ho
    cases ho
  have hfit := h.orderly.scheduled.fit sender e hf
  have hx : some caller ≠ some e.id := by
    rw [id_of_find? hf]
    intro h'
    exact hne (Option.some.inj h').symm
  have hcalm : e.mailbox.receiving = false := by
    cases hr' : e.mailbox.receiving with
    | false => rfl
    | true =>
      rw [hfit.single hx hr'] at ho
      cases ho
  constructor
  · refine ⟨⟨?_, ?_, h.orderly.counted.settle hf hp⟩, h.current, ?_⟩
    · exact h.orderly.intact.touched ((touched_update Env.title_cleared).trans (touched_update Env.title_settled))
    · exact h.orderly.scheduled.clearOutbox.touch Env.title_settled fun _ => rfl
    · refine ⟨{ y with waiting := y.waiting - 1 }, ?_, hr, hk, hoy⟩
      rw [find?_update Env.title_settled, if_pos rfl, find?_update Env.title_cleared, if_neg (Ne.symm hne), hy]
      rfl
  · refine ⟨hne, { e with outbox := none }, ?_, hfit.calm hx (.inr ho), hcalm, rfl⟩
    rw [find?_update Env.title_settled, if_neg hne, find?_update Env.title_cleared, if_pos rfl, hf]
    rfl

/-- After a transfer to the caller it receives no more; a transfer that fails changes nothing. -/
theorem transfer (h : Scanning n b current caller k) (hd : Dropped caller sender k.envs) :
    (Kernel.transfer sender caller msg k).Meets
      (fun _ k' => Scanning n b current caller k' ∧ Dropped caller sender k'.envs ∧
        ∀ e, k'.envs.find? caller = some e → e.mailbox.receiving = false)
      (fun _ k' => Scanning n b current caller k' ∧ Dropped caller sender k'.envs) fun _ => False := by
  refine (transfer_spec h.orderly.intact).mono (fun _ k₁ ⟨hu, perm, he⟩ => ?_) (fun _ k₁ ⟨hu, he⟩ => ?_) fun _ h => h
  · obtain ⟨y, hy, hr, hk, ho⟩ := h.running
    obtain ⟨hne, z, hz, hblocked⟩ := hd
    have hself : k₁.envs.find? caller = some (delivered sender msg.value perm y) := by
      rw [he, find?_update title_delivered, if_pos rfl, hy]
      rfl
    refine ⟨⟨h.orderly.delivered hu.intact he hu.current, hu.current.trans h.current, _, hself, hr, hk, ho⟩,
      ⟨hne, z, ?_, hblocked⟩, fun e he' => ?_⟩
    · rw [he, find?_update title_delivered, if_neg hne, hz]
    · obtain rfl := find?_unique hself he'
      rfl
  · constructor
    · refine ⟨h.orderly.congr hu.intact he hu.current, hu.current.trans h.current, ?_⟩
      rw [he]
      exact h.running
    · rw [he]
      exact hd

theorem awaken (g : Env → Context) (h : Scanning n b current caller k) (hd : Dropped caller sender k.envs) :
    Scanning n b current caller
        { k with envs := k.envs.update sender fun e => { e with context := g e, status := .runnable } } ∧
      (k.envs.update sender fun e => { e with context := g e, status := .runnable }).find? caller =
        k.envs.find? caller := by
  obtain ⟨hne, z, hz, hs, hr, ho⟩ := hd
  have hsame : (k.envs.update sender fun e => { e with context := g e, status := .runnable }).find? caller =
      k.envs.find? caller := by rw [find?_update Env.title_woken, if_neg (Ne.symm hne)]
  refine ⟨⟨h.orderly.wake g hz hs hr ho, h.current, ?_⟩, hsame⟩
  show ∃ e, (k.envs.update sender _).find? caller = some e ∧ _
  rw [hsame]
  exact h.running

end Scanning

namespace Kernel

/-- A fetch keeps the scan going, or ends it with a message. -/
theorem fetch_spec {index : Nat} (h : Scanning n b current caller k) :
    (fetch caller index k).Meets
      (fun r k' => Scanning n b current caller k' ∧ (r.isSome = true → OnCpu n b current caller k'))
      (fun _ _ => False) fun _ => False := by
  rcases takeParked_cases index h.orderly.intact.table with ht | ⟨sender, e, p, ht, hf, hp, ho⟩
  · rw [fetch, Action.bind_done ht]
    exact ⟨h, fun h' => by cases h'⟩
  · rw [fetch, Action.bind_done ht]
    simp only
    rw [updateEnv_bind]
    obtain ⟨h₁, hd₁⟩ := h.settle hf hp (by rw [ho]; rfl)
    refine Action.meets_attempt_bind (h₁.transfer hd₁) (fun u k₂ h₂ => ?_) fun cause k₂ h₂ => ?_
    · obtain ⟨h₂, hd₂, hn⟩ := h₂
      obtain ⟨h₃, hsame⟩ := h₂.awaken (fun e => e.context.setAnswer (fetchAnswer (.ok u))) hd₂
      refine ⟨h₃, fun _ => h₃.redeem ?_⟩
      intro e he
      rw [hsame] at he
      exact hn e he
    · obtain ⟨h₂, hd₂⟩ := h₂
      obtain ⟨h₃, -⟩ := h₂.awaken (fun e => e.context.setAnswer (fetchAnswer (.error cause))) hd₂
      exact ⟨⟨h₃.orderly.congr h₃.orderly.intact rfl rfl, h₃.current, h₃.running⟩, fun h' => by cases h'⟩

/-- The scan ends with a message, or with the caller still scanning. -/
theorem fetchFrom_spec (start count done : Nat) (hroom : start + done + count ≤ addressLimit)
    (h : Scanning n b current caller k) :
    (fetchFrom caller start count done k).Meets
      (fun r k' => Scanning n b current caller k' ∧ (r.isSome = true → OnCpu n b current caller k'))
      (fun _ _ => False) fun _ => False := by
  induction count generalizing done k with
  | zero => exact ⟨h, fun h' => by cases h'⟩
  | succ count ih =>
    have hlt : start + done < addressLimit := by omega
    rw [fetchFrom, if_pos hlt, Action.state_bind]
    refine Action.meets_bind (fetch_spec h) fun r k₁ h₁ => ?_
    cases r with
    | some sender => exact h₁
    | none => exact ih (done + 1) (by omega) h₁.1

theorem receiveQueued_spec {dstva : Word} {start : Nat} (h : OnCpu n b current caller k) (hb : b c = some caller)
    (hstart : start ≤ Env.slotLimit) :
    (receiveQueued caller dstva start k).Meets (fun r => Ends n b current c caller (r = .blocked))
      (fun _ => OnCpu n b current caller) fun _ => False := by
  have hblock : ∀ k, Scanning n b current caller k → ((do
      blockInReceive caller dstva
      return ReceiveOutcome.blocked : Action Kernel IpcError ReceiveOutcome) k).Meets
      (fun r => Ends n b current c caller (r = .blocked))
      (fun _ => OnCpu n b current caller) fun _ => False := by
    intro k hk
    refine Action.meets_bind (hk.block hb).unrefused fun _ k₁ h₁ => ?_
    exact .inr ⟨rfl, h₁⟩
  rw [receiveQueued]
  cases validateDestination dstva with
  | error cause => exact h
  | ok u =>
    rw [Action.lift_ok_bind]
    obtain ⟨e, hf, -⟩ := h.running
    rw [readEnv_mapError_bind _ hf]
    have hscan := Scanning.of_onCpu h hb
    by_cases hw : 0 < e.waiting
    · rw [if_pos hw, updateEnv_bind, Action.state_bind]
      have h₁ : Scanning n b current caller { k with envs := k.envs.update caller fun e =>
          { e with mailbox := { e.mailbox with receiving := true, dstva } } } :=
        hscan.edit fun _ => ⟨rfl, rfl, rfl, rfl, rfl, rfl, rfl⟩
      have hcap := h₁.orderly.intact.table.capacity
      refine Action.meets_bind (fetchFrom_spec start _ 0 ?_ h₁).unrefused fun r k₂ h₂ => ?_
      · simp only [Env.slotLimit, addressLimit] at *
        omega
      · cases r with
        | some sender => exact .inl (h₂.2 rfl)
        | none => exact hblock k₂ h₂.1
    · rw [if_neg hw]
      exact hblock k hscan

end Kernel

end Exokernel
