import Exokernel.Proofs.Memory.Exchanging
import Exokernel.Proofs.Post.Receiving

/-!
# Two ways to send

To an environment that is blocked in receive, a polled and a queued send come to the same: both are refused for the same
cause, or both put the message into its mailbox and leave the same state. What they leave is given in full.
-/

set_option autoImplicit false

namespace Exokernel

open Env (Id Message)
open Env.Table

namespace Kernel

variable {n : Nat} {k k' : Kernel} {s r target : Id} {S R : Env} {msg : Message} {offer : Option PageOffer}
  {cause : IpcError} {perm : PageFlags} {m : Memory}

def WantsPage (msg : Message) (dstva : Word) : Prop := msg.srcva.toNat < utop ∧ dstva.toNat < utop

instance (msg : Message) (dstva : Word) : Decidable (WantsPage msg dstva) := inferInstanceAs (Decidable (_ ∧ _))

def shownPerm (msg : Message) (dstva : Word) : PageFlags := if WantsPage msg dstva then msg.perm else .empty

def PageMoves (m : Memory) (S R : Env) (msg : Message) (m' : Memory) : Prop :=
  ∃ own other mapping taken, S.space = some own ∧ R.space = some other ∧
    m.mapping? own msg.srcva.toNat = some mapping ∧
    m.Installed m' other R.mailbox.dstva.toNat
      { frame := mapping.frame, flags := msg.perm ||| PageFlags.present ||| PageFlags.user } ∧
    m.Exchanged m' other R.mailbox.dstva.toNat mapping.frame taken

structure Conveyed (k : Kernel) (s r : Id) (S R : Env) (msg : Message) (k' : Kernel) : Prop where
  receiver : k'.envs.find? r = some { R with
    status := .runnable
    mailbox := { R.mailbox with
      receiving := false
      sender := s
      value := msg.value
      perm := shownPerm msg R.mailbox.dstva } }
  others : ∀ j, j ≠ r → k'.envs.find? j = k.envs.find? j
  bare : ¬WantsPage msg R.mailbox.dstva → k'.memory = k.memory
  page : WantsPage msg R.mailbox.dstva → PageMoves k.memory S R msg k'.memory
  rest : k' = { k with
    envs := (k.envs.update r (delivered s msg.value (shownPerm msg R.mailbox.dstva))).update r fun e =>
      { e with status := .runnable }
    memory := k'.memory
    journal := k.journal.record (.delivered s r msg.value (shownPerm msg R.mailbox.dstva)) }

theorem offer_wanted {dstva : Word} (hv : k.validateSource s msg = .ok offer) :
    (offer = none ∨ utop ≤ dstva.toNat) ↔ ¬WantsPage msg dstva := by
  rw [offer_of_srcva hv, WantsPage]
  omega

theorem wantsPage_of_offer {o : PageOffer} {dstva : Word} (hv : k.validateSource s msg = .ok (some o))
    (hd : dstva.toNat < utop) : WantsPage msg dstva := by
  refine Decidable.not_not.mp fun hno => ?_
  rcases (offer_wanted hv).mpr hno with hnone | hle
  · cases hnone
  · omega

/-- A message that is handed over is conveyed. -/
theorem conveyed_of_handOver (hp : Proper n k.envs k.memory) (hS : k.envs.find? s = some S)
    (hR : k.envs.find? r = some R) (hv : k.validateSource s msg = .ok offer)
    (hh : handOver R.space R.mailbox.dstva offer k.memory = .done perm m) : Conveyed k s r S R msg { k with
      envs := (k.envs.update r (delivered s msg.value perm)).update r fun e => { e with status := .runnable }
      memory := m
      journal := k.journal.record (.delivered s r msg.value perm) } := by
  have hreceiver : ((k.envs.update r (delivered s msg.value perm)).update r fun e =>
      { e with status := .runnable }).find? r = some { delivered s msg.value perm R with status := .runnable } :=
    find?_update_self Env.title_runnable (find?_update_self title_delivered hR)
  have hothers : ∀ j, j ≠ r → ((k.envs.update r (delivered s msg.value perm)).update r fun e =>
      { e with status := .runnable }).find? j = k.envs.find? j := fun j hj =>
    (find?_update_of_ne Env.title_runnable hj).trans (find?_update_of_ne title_delivered hj)
  rcases handOver_inv hh with ⟨hbare, rfl, rfl⟩ | ⟨o, other, rfl, hd, hspace, rfl, hi⟩
  · have hno := (offer_wanted hv).mp hbare
    have hshown : shownPerm msg R.mailbox.dstva = .empty := if_neg hno
    rw [← hshown] at hreceiver hothers ⊢
    exact ⟨hreceiver, hothers, fun _ => rfl, fun hw => absurd hw hno, rfl⟩
  · obtain ⟨hperm, x, own, hx, hown, hmapping, -⟩ := validateSource_some hv
    cases find?_unique hS hx
    have hw := wantsPage_of_offer hv hd
    have hshown : shownPerm msg R.mailbox.dstva = o.perm := (if_pos hw).trans hperm.symm
    have hmemory := hp.intact.memory
    have hinstalled := Memory.insert_installs hmemory.pool hp.clear hi
    obtain ⟨taken, hexchanged⟩ := Memory.insert_exchanges hmemory hp.clear hi
    rw [hperm] at hinstalled
    rw [← hshown] at hreceiver hothers ⊢
    exact ⟨hreceiver, hothers, fun hno => absurd hw hno,
      fun _ => ⟨own, other, o.mapping, taken, hown, hspace, hmapping, hinstalled, hexchanged⟩, rfl⟩

theorem resolveTarget_resolved (h : k.envs.resolve target (some s) false = .ok r) :
    resolveTarget s target k = .done r k ∧ ∃ R, k.envs.find? r = some R := by
  refine ⟨?_, ?_⟩
  · rw [resolveTarget, Action.state_bind, h]
    rfl
  · rw [Env.Table.resolve] at h
    cases hl : k.envs.lookup target (some s) false with
    | error e =>
      rw [hl] at h
      cases h
    | ok R =>
      rw [hl] at h
      cases h
      exact ⟨R, lookup_found hl⟩

section resolved

variable (ht : k.envs.Sound) (h : k.envs.resolve target (some s) false = .ok r)
include ht h

theorem trySend_resolved : trySend s target msg k = trySend s r msg k := by
  obtain ⟨hdone, R, hR⟩ := resolveTarget_resolved h
  rw [trySend, trySend, Action.bind_done hdone, Action.bind_done (resolveTarget_live ht hR)]

theorem sendQueued_resolved : sendQueued s target msg k = sendQueued s r msg k := by
  obtain ⟨hdone, R, hR⟩ := resolveTarget_resolved h
  rw [sendQueued, sendQueued, Action.bind_done hdone, Action.bind_done (resolveTarget_live ht hR)]

end resolved

section polled

variable (ht : k.envs.Sound) (hR : k.envs.find? r = some R)
include ht hR

theorem trySend_rejected (hv : k.validateSource s msg = .error cause) : trySend s r msg k = .refused cause k := by
  rw [trySend, Action.bind_done (resolveTarget_live ht hR), Action.state_bind, hv, Action.lift_error_bind]

theorem trySend_ignored (hv : k.validateSource s msg = .ok offer) (hr : R.mailbox.receiving = false) :
    trySend s r msg k = .refused .notReceiving k := by
  rw [trySend, Action.bind_done (resolveTarget_live ht hR), Action.state_bind, hv, Action.lift_ok_bind,
    readEnv_mapError_bind _ hR, hr]
  rfl

theorem trySend_hands (hv : k.validateSource s msg = .ok offer) (hr : R.mailbox.receiving = true) :
    trySend s r msg k = match handOver R.space R.mailbox.dstva offer k.memory with
      | .done perm m => .done () { k with
          envs := (k.envs.update r (delivered s msg.value perm)).update r fun e => { e with status := .runnable }
          memory := m
          journal := k.journal.record (.delivered s r msg.value perm) }
      | .refused cause m => .refused cause { k with memory := m }
      | .halted p => .halted p := by
  rw [trySend, Action.bind_done (resolveTarget_live ht hR), Action.state_bind, hv, Action.lift_ok_bind,
    readEnv_mapError_bind _ hR, hr]
  simp only [Bool.not_true, Bool.false_eq_true, if_false]
  rw [Action.bind_apply, transfer_apply hv hR]
  cases handOver R.space R.mailbox.dstva offer k.memory with
  | done perm m => rfl
  | refused cause m => rfl
  | halted p => rfl

end polled

/-- Both sends are refused for the same cause, with no trace but a failure on demand, or both convey the message. -/
def SendsAgree (k : Kernel) (s r : Id) (S R : Env) (msg : Message) (polled : Outcome Kernel IpcError Unit)
    (queued : Outcome Kernel IpcError SendOutcome) : Prop :=
  (∃ cause m, k.memory.Spent m ∧ polled = .refused cause { k with memory := m } ∧
      queued = .refused cause { k with memory := m }) ∨
    ∃ k', polled = .done () k' ∧ queued = .done .delivered k' ∧ Conveyed k s r S R msg k'

theorem sends_agree (hp : Proper n k.envs k.memory) (hS : k.envs.find? s = some S) (hR : k.envs.find? r = some R)
    (hr : R.mailbox.receiving = true) (hne : r ≠ s) :
    SendsAgree k s r S R msg (trySend s r msg k) (sendQueued s r msg k) := by
  have ht := hp.intact.table
  cases hv : k.validateSource s msg with
  | error cause =>
    exact .inl ⟨cause, k.memory, .refl _, trySend_rejected ht hR hv, sendQueued_rejected ht hne.symm hR hv⟩
  | ok offer =>
    have heffect := handOver_effect R.space R.mailbox.dstva hp hv
    rw [SendsAgree, trySend_hands ht hR hv hr, sendQueued_hands ht hne.symm hR hv hr]
    cases hh : handOver R.space R.mailbox.dstva offer k.memory with
    | done perm m => exact .inr ⟨_, rfl, rfl, conveyed_of_handOver hp hS hR hv hh⟩
    | refused cause m => exact .inl ⟨cause, m, heffect.of_refused hh, rfl, rfl⟩
    | halted q => exact (heffect.of_halted hh).elim

/-- To whoever receives, other than the caller itself, a polled and a queued send come to the same: they are refused
alike, with nothing changed but a failure on demand that has happened, or they leave the same state, in which the
receiver has the message and runs again, and nothing else is different but the page that moved if both ends wanted one.
A polled send of what may be offered is refused while its target does not receive, and changes nothing. -/
theorem polled_and_queued_sends_agree (hk : k.Reachable) (hS : k.envs.find? s = some S)
    (h : k.envs.resolve target (some s) false = .ok r) (msg : Message) : ∃ R, k.envs.find? r = some R ∧
      (R.mailbox.receiving = true → r ≠ s →
        SendsAgree k s r S R msg (trySend s target msg k) (sendQueued s target msg k)) ∧
      (R.mailbox.receiving = false → ∀ offer, k.validateSource s msg = .ok offer →
        trySend s target msg k = .refused .notReceiving k) := by
  obtain ⟨n, hp⟩ := hk.proper
  have ht := hp.intact.table
  obtain ⟨-, R, hR⟩ := resolveTarget_resolved h
  rw [trySend_resolved ht h, sendQueued_resolved ht h]
  exact ⟨R, hR, fun hr hne => sends_agree hp hS hR hr hne, fun hr offer hv => trySend_ignored ht hR hv hr⟩

def replaceable : Kernel :=
  ((boot pairConfig {} {}).toOption.bind (Demand.replay · [.step (.create .user), .step (.create .user),
    .step (.load ⟨0x401⟩ 0x200000 (PageFlags.present ||| PageFlags.user)),
    .step (.load ⟨0x402⟩ 0x300000 (PageFlags.present ||| PageFlags.user)), asking])).get (by decide +kernel)

theorem reachable_replaceable : replaceable.Reachable := .of_replay (Option.some_get _).symm

theorem resolve_replaceable : replaceable.envs.resolve ⟨0x402⟩ (some ⟨0x401⟩) false = .ok ⟨0x402⟩ := by
  have hresolved : (replaceable.envs.resolve ⟨0x402⟩ (some ⟨0x401⟩) false).toOption = some ⟨0x402⟩ := by
    decide +kernel
  cases hr : replaceable.envs.resolve ⟨0x402⟩ (some ⟨0x401⟩) false with
  | error e => simp [hr, Except.toOption] at hresolved
  | ok r => simpa [hr, Except.toOption] using hresolved

theorem polled_and_queued_sends_agree_replacing : ∃ k' S R, replaceable.Reachable ∧
    replaceable.envs.find? ⟨0x401⟩ = some S ∧ replaceable.envs.find? ⟨0x402⟩ = some R ∧
    replaceable.envs.resolve ⟨0x402⟩ (some ⟨0x401⟩) false = .ok ⟨0x402⟩ ∧ R.mailbox.receiving = true ∧
    trySend ⟨0x401⟩ ⟨0x402⟩ { value := 7, srcva := 0x200000, perm := PageFlags.user } replaceable = .done () k' ∧
    sendQueued ⟨0x401⟩ ⟨0x402⟩ { value := 7, srcva := 0x200000, perm := PageFlags.user } replaceable =
      .done .delivered k' ∧
    Conveyed replaceable ⟨0x401⟩ ⟨0x402⟩ S R { value := 7, srcva := 0x200000, perm := PageFlags.user } k' := by
  let S := (replaceable.envs.find? ⟨0x401⟩).get (by decide +kernel)
  have hS : replaceable.envs.find? ⟨0x401⟩ = some S := (Option.some_get _).symm
  have hdone : (trySend ⟨0x401⟩ ⟨0x402⟩ { value := 7, srcva := 0x200000, perm := PageFlags.user }
      replaceable).result?.isSome = true := by decide +kernel
  have hreceiving : (replaceable.envs.find? ⟨0x402⟩).map (fun e => e.mailbox.receiving) = some true := by
    decide +kernel
  obtain ⟨R, hR, hagree, -⟩ := polled_and_queued_sends_agree reachable_replaceable hS resolve_replaceable
    { value := 7, srcva := 0x200000, perm := PageFlags.user }
  rw [hR] at hreceiving
  have hr : R.mailbox.receiving = true := Option.some.inj hreceiving
  rcases hagree hr (by decide) with ⟨cause, m, -, hpolled, -⟩ | ⟨k', hpolled, hqueued, hconveyed⟩
  · rw [hpolled] at hdone
    cases hdone
  · exact ⟨k', S, R, reachable_replaceable, hS, hR, resolve_replaceable, hr, hpolled, hqueued, hconveyed⟩

end Kernel

end Exokernel
