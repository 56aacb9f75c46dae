import Exokernel.Proofs.Ipc.Upkeep
import Exokernel.Proofs.Kernel.Deeds

/-!
# What message operations do

A transfer is refused without a trace or puts the message into the mailbox of its target, together with the offered
page if both ends want one. A queued receive wakes the senders whose transfers fail one after the other, and ends
with the first transfer that succeeds or with its caller blocked.
-/

set_option autoImplicit false

namespace Exokernel

open Env Env.Table Memory

namespace Env.Table

def relieved (t : Table) (caller sender : Id) : Table :=
  (t.update sender fun e => { e with outbox := none }).update caller fun e => { e with waiting := e.waiting - 1 }

def woken (t : Table) (sender : Id) (answer : Word) : Table :=
  t.update sender fun e => { e with context := e.context.setAnswer answer, status := .runnable }

variable {t : Table} {caller sender : Id} {answer : Word}

theorem touched_relieved : Touched t (t.relieved caller sender) := by
  have h₁ : Touched t (t.update sender fun e => { e with outbox := none }) := touched_update fun _ _ => rfl
  exact h₁.trans (touched_update fun _ _ => rfl)

theorem touched_woken : Touched t (t.woken sender answer) := touched_update title_woken

end Env.Table

namespace Kernel

variable {n : Nat} {k : Kernel} {caller sender target : Env.Id} {e receiver : Env} {msg : Message}

theorem touched_delivered {t : Env.Table} {value : Word} {perm : PageFlags} :
    Touched t (t.update target (delivered sender value perm)) := touched_update fun _ _ => rfl

def Offers (t : Env.Table) (m : Memory) (sender : Env.Id) (msg : Message) (offer : Option PageOffer) : Prop :=
  ∀ k : Kernel, k.envs = t → k.memory = m → k.validateSource sender msg = .ok offer

theorem offers_of_valid {offer : Option PageOffer} (h : k.validateSource sender msg = .ok offer) :
    Offers k.envs k.memory sender msg offer := by
  intro k' he hm
  rw [← h]
  simp only [validateSource, spaceOf, he, hm]

inductive Handed (t : Env.Table) (m : Memory) (sender : Env.Id) (receiver : Env) (msg : Message) :
    PageFlags → Memory → Prop
  | bare {offer : Option PageOffer} : Offers t m sender msg offer →
      (offer = none ∨ utop ≤ receiver.mailbox.dstva.toNat) → Handed t m sender receiver msg .empty m
  | page {offer : PageOffer} {space : Handle} {m' : Memory} : Offers t m sender msg (some offer) →
      receiver.mailbox.dstva.toNat < utop → receiver.space = some space →
      Memory.insert space offer.mapping.frame receiver.mailbox.dstva.toNat
        (offer.perm ||| PageFlags.present ||| PageFlags.user) m = .done () m' →
      Handed t m sender receiver msg offer.perm m'

/-- What a checked offer promises: its mapping stands in the sender's space and admits the permission. -/
theorem validateSource_some {offer : PageOffer} (h : k.validateSource sender msg = .ok (some offer)) :
    offer.perm = msg.perm ∧ ∃ e space, k.envs.find? sender = some e ∧ e.space = some space ∧
      k.memory.mapping? space msg.srcva.toNat = some offer.mapping ∧
      (msg.perm.contains PageFlags.writable = true → offer.mapping.flags.contains PageFlags.writable = true) := by
  unfold validateSource at h
  split at h
  · cases h
  · split at h
    · cases h
    · cases hf : k.envs.find? sender with
      | none =>
        simp only [spaceOf, get_of_find?_none hf, bind, Except.bind, Except.mapError] at h
        cases h
      | some e =>
        cases hs : e.space with
        | none =>
          simp only [spaceOf, get_of_find? hf, bind, Except.bind, hs, Except.mapError] at h
          cases h
        | some space =>
          simp only [spaceOf, get_of_find? hf, bind, Except.bind, hs, Except.mapError] at h
          cases hl : k.memory.lookup space msg.srcva.toNat with
          | error cause =>
            rw [hl] at h
            cases h
          | ok r =>
            rw [hl] at h
            cases r with
            | none => cases h
            | some mapping =>
              simp only at h
              split at h
              · cases h
              · split at h
                · cases h
                · next hw =>
                  cases h
                  refine ⟨rfl, e, space, rfl, hs, mapping?_of_lookup hl, fun hp => ?_⟩
                  simpa [hp] using hw

theorem acceptPage_effect {offer : Option PageOffer} (hp : Proper n k.envs k.memory)
    (hv : k.validateSource sender msg = .ok offer) :
    (acceptPage receiver offer k).Meets
      (fun perm k' => ∃ m, k' = { k with memory := m } ∧ Handed k.envs k.memory sender receiver msg perm m)
      (fun _ k' => ∃ m, k' = { k with memory := m } ∧ k.memory.Spent m) (fun _ => False) := by
  cases offer with
  | none => exact ⟨k.memory, rfl, .bare (offers_of_valid hv) (.inl rfl)⟩
  | some o =>
    rw [acceptPage]
    split
    · next hd =>
      cases hs : receiver.space with
      | none => exact ⟨k.memory, rfl, .refl _⟩
      | some space =>
        have hi := insert_effect space o.mapping.frame receiver.mailbox.dstva.toNat
          (o.perm ||| PageFlags.present ||| PageFlags.user) hp.intact.memory.pool hp.clear
        refine Action.meets_bind (P := fun _ k' => ∃ m, k' = { k with memory := m } ∧
          Memory.insert space o.mapping.frame receiver.mailbox.dstva.toNat
            (o.perm ||| PageFlags.present ||| PageFlags.user) k.memory = .done () m)
          (Action.meets_mapError (Action.meets_onPart ?_)) fun _ k₁ h₁ => ?_
        · cases hm : Memory.insert space o.mapping.frame receiver.mailbox.dstva.toNat
            (o.perm ||| PageFlags.present ||| PageFlags.user) k.memory with
          | done u m => exact ⟨m, rfl, rfl⟩
          | refused cause m => exact ⟨m, rfl, hi.of_refused hm⟩
          | halted p =>
            have hu := validateSource_used hp.intact.memory hv
            exact hp.intact.not_crowded ((balanced_insert hp.intact.memory hu).of_halted hm)
        · obtain ⟨m, rfl, hm⟩ := h₁
          exact ⟨m, rfl, .page (offers_of_valid hv) hd hs hm⟩
    · next hd => exact ⟨k.memory, rfl, .bare (offers_of_valid hv) (.inr (Nat.not_lt.mp hd))⟩

theorem transfer_effect (sender target : Env.Id) (msg : Message) (hp : Proper n k.envs k.memory) :
    (transfer sender target msg k).Meets
      (fun _ k' => ∃ receiver perm m j, k.envs.find? target = some receiver ∧
        Handed k.envs k.memory sender receiver msg perm m ∧
        k' = { k with envs := k.envs.update target (delivered sender msg.value perm), memory := m, journal := j })
      (fun _ k' => ∃ m, k' = { k with memory := m } ∧ k.memory.Spent m) (fun _ => False) := by
  have hself : ∃ m, k = { k with memory := m } ∧ k.memory.Spent m := ⟨k.memory, rfl, .refl _⟩
  rw [transfer, Action.state_bind]
  cases hv : k.validateSource sender msg with
  | error e => exact hself
  | ok offer =>
    rw [Action.lift_ok_bind]
    cases hf : k.envs.find? target with
    | none =>
      rw [readEnv_mapError_bind_none _ hf]
      exact hself
    | some receiver =>
      rw [readEnv_mapError_bind _ hf]
      refine Action.meets_bind (acceptPage_effect hp hv) fun perm k₁ h₁ => ?_
      obtain ⟨m, rfl, hm⟩ := h₁
      exact ⟨receiver, perm, m, _, rfl, hm, rfl⟩

theorem Handed.proper {t : Env.Table} {m m' : Memory} {perm : PageFlags} (hp : Proper n t m)
    (h : Handed t m sender receiver msg perm m') : Proper n t m' := by
  cases h with
  | bare => exact hp
  | page ho _ _ hd =>
    have hv := ho { envs := t, memory := m, current := #[] } rfl rfl
    exact hp.inserted (validateSource_used hp.intact.memory hv) hd

/-- A parked message is taken over as it is. -/
theorem takeParked_cases (index : Nat) (ht : k.envs.Sound) :
    takeParked index caller k = .done none k ∨
      ∃ sender e p, takeParked index caller k =
          .done (some (sender, p)) { k with envs := k.envs.update sender fun e => { e with outbox := none } } ∧
        k.envs.find? sender = some e ∧ e.isParkedOn caller = true ∧ e.outbox = some p := by
  rw [takeParked, Action.state_bind]
  cases hs : k.envs.slot? index with
  | none => exact .inl rfl
  | some e =>
    cases ho : e.outbox with
    | none =>
      left
      simp only [ho]
      rfl
    | some p =>
      by_cases hp : e.isParkedOn caller = true
      · right
        have hlive : e.isFree = false := by
          simp only [Env.isParkedOn, Bool.and_eq_true, Bool.not_eq_true'] at hp
          exact hp.1
        simp only [ho, if_pos hp]
        exact ⟨e.id, e, p, rfl, ht.find?_of_slot? hs hlive, hp, ho⟩
      · left
        simp only [ho, if_neg hp]
        rfl

theorem target_of_parkedOn {p : Parcel} (hp : e.isParkedOn caller = true) (ho : e.outbox = some p) :
    p.target = caller := by
  simp only [Env.isParkedOn, ho, Option.any_some, Bool.and_eq_true, beq_iff_eq] at hp
  exact hp.2

inductive Fetches (caller : Env.Id) (t₀ : Env.Table) (m₀ : Memory) : Env.Table → Memory → Prop
  | none : Fetches caller t₀ m₀ t₀ m₀
  | failed {t : Env.Table} {m m' : Memory} {sender : Env.Id} {e : Env} {p : Parcel} (cause : IpcError) :
      Fetches caller t₀ m₀ t m → t.find? sender = some e → e.outbox = some p → p.target = caller → m.Spent m' →
      Fetches caller t₀ m₀ ((t.relieved caller sender).woken sender cause.code.toWord) m'

inductive Fetched (caller : Env.Id) (t₀ : Env.Table) (m₀ : Memory) (sender : Env.Id) : Env.Table → Memory → Prop
  | mk {t : Env.Table} {m m' : Memory} {e receiver : Env} {p : Parcel} {perm : PageFlags} :
      Fetches caller t₀ m₀ t m → t.find? sender = some e → e.outbox = some p → p.target = caller →
      (t.relieved caller sender).find? caller = some receiver →
      Handed (t.relieved caller sender) m sender receiver p.toMessage perm m' →
      Fetched caller t₀ m₀ sender
        (((t.relieved caller sender).update caller (delivered sender p.value perm)).woken sender 0) m'

section fetches

variable {t t₀ : Env.Table} {m m₀ : Memory}

theorem Fetches.touched (h : Fetches caller t₀ m₀ t m) : Touched t₀ t := by
  induction h with
  | none => exact .refl t₀
  | failed cause _ _ _ _ _ ih => exact ih.trans (touched_relieved.trans touched_woken)

theorem Fetches.spent (h : Fetches caller t₀ m₀ t m) : m₀.Spent m := by
  induction h with
  | none => exact .refl m₀
  | failed cause _ _ _ _ hs ih => exact ih.trans hs

theorem Fetches.proper (hp : Proper n t₀ m₀) (h : Fetches caller t₀ m₀ t m) : Proper n t m :=
  (hp.touched h.touched).spent h.spent

theorem Fetched.touched (h : Fetched caller t₀ m₀ sender t m) : Touched t₀ t := by
  obtain ⟨hf, -⟩ := h
  exact hf.touched.trans (touched_relieved.trans (touched_delivered.trans touched_woken))

theorem Fetched.proper (hp : Proper n t₀ m₀) (h : Fetched caller t₀ m₀ sender t m) : Proper n t m := by
  obtain ⟨hf, -, -, -, -, hh⟩ := h
  exact (hh.proper ((hf.proper hp).touched touched_relieved)).touched (touched_delivered.trans touched_woken)

def Beyond (k : Kernel) (t : Env.Table) (m : Memory) (k' : Kernel) : Prop :=
  ∃ j, k' = { k with envs := t, memory := m, journal := j }

def Scans (caller : Env.Id) (k : Kernel) (found : Option Env.Id) (k' : Kernel) : Prop :=
  ∃ t m, Beyond k t m k' ∧ match found with
    | none => Fetches caller k.envs k.memory t m
    | some sender => Fetched caller k.envs k.memory sender t m

theorem fetch_effect {index : Nat} {k₀ : Kernel} (h₀ : Proper n k₀.envs k₀.memory)
    (hs : Scans caller k₀ none k) :
    (fetch caller index k).Meets (fun r => Scans caller k₀ r) (fun _ _ => False) (fun _ => False) := by
  obtain ⟨t, m, ⟨j, rfl⟩, hf⟩ := hs
  have hp := hf.proper h₀
  rcases takeParked_cases (k := { k₀ with envs := t, memory := m, journal := j }) index hp.intact.table with
    ht | ⟨sender, e, p, ht, he, hpark, ho⟩
  · rw [fetch, Action.bind_done ht]
    exact ⟨t, m, ⟨j, rfl⟩, hf⟩
  · have hcaller := target_of_parkedOn hpark ho
    rw [fetch, Action.bind_done ht]
    simp only
    rw [updateEnv_bind]
    have hp₁ : Proper n (t.relieved caller sender) m := hp.touched touched_relieved
    have htransfer := transfer_effect sender caller p.toMessage
      (k := { k₀ with envs := t.relieved caller sender, memory := m, journal := j }) hp₁
    refine Action.meets_attempt_bind htransfer (fun _ k₂ h₂ => ?_) fun cause k₂ h₂ => ?_
    · obtain ⟨receiver, perm, m', j', hr, hh, rfl⟩ := h₂
      exact ⟨_, m', ⟨j', rfl⟩, .mk hf he ho hcaller hr hh⟩
    · obtain ⟨m', rfl, hm⟩ := h₂
      exact ⟨_, m', ⟨_, rfl⟩, .failed cause hf he ho hcaller hm⟩

/-- A scan halts only where the next slot has no address. -/
theorem fetchFrom_scans {k₀ : Kernel} (caller : Env.Id) (start count done : Nat) (h₀ : Proper n k₀.envs k₀.memory)
    (hs : Scans caller k₀ none k) : (fetchFrom caller start count done k).Meets (fun r => Scans caller k₀ r)
      (fun _ _ => False) (fun _ => addressLimit < start + done + count) := by
  induction count generalizing done k with
  | zero => exact hs
  | succ count ih =>
    rw [fetchFrom]
    split
    · rw [Action.state_bind]
      refine Action.meets_bind ((fetch_effect h₀ hs).mono (fun _ _ h => h) (fun _ _ h => h) fun _ h => h.elim)
        fun r k₁ h₁ => ?_
      cases r with
      | some sender => exact h₁
      | none => exact (ih (done + 1) h₁).mono (fun _ _ h => h) (fun _ _ h => h) fun _ h => by omega
    · next hle =>
      show addressLimit < start + done + (count + 1)
      omega

theorem fetchFrom_effect {k₀ : Kernel} (caller : Env.Id) (start count done : Nat)
    (hroom : start + done + count ≤ addressLimit) (h₀ : Proper n k₀.envs k₀.memory) (hs : Scans caller k₀ none k) :
    (fetchFrom caller start count done k).Meets (fun r => Scans caller k₀ r) (fun _ _ => False) (fun _ => False) :=
  (fetchFrom_scans caller start count done h₀ hs).mono (fun _ _ h => h) (fun _ _ h => h) fun _ h => by omega

end fetches

end Kernel

end Exokernel
