import Exokernel.Proofs.Syscall.Sharing

/-!
# Who is blocked cannot run

An environment that is blocked in a message operation is not runnable, and is blocked in one operation only. Calls
keep to this, whoever makes them, except the one that makes a blocked child runnable.
-/

set_option autoImplicit false

namespace Exokernel

open Env (Id Kind Status Message Parcel)
open Env.Table

/-- A blocked environment is not runnable, and waits for one thing at a time. -/
structure Env.Coherent (e : Env) : Prop where
  status : Blocked e → e.status = .notRunnable
  single : ¬(e.mailbox.receiving = true ∧ e.outbox.isSome = true)

def Env.Table.Coherent (t : Env.Table) : Prop := ∀ id e, t.find? id = some e → e.Coherent

variable {n : Nat} {act : Option (Id × Call)} {cpu : Cpu} {caller id j sender : Id} {call : Call}
  {t t' : Env.Table} {m m' : Memory} {c d e e' : Env} {f : Env → Env} {msg : Message} {perm : PageFlags}

theorem not_blocked : ¬Blocked e ↔ e.mailbox.receiving = false ∧ e.outbox = none := by
  rw [Blocked, not_or, Bool.not_eq_true, Bool.not_eq_true, Option.isSome_eq_false_iff, Option.isNone_iff_eq_none]

theorem coherent_of_idle (h : ¬Blocked e) : e.Coherent := ⟨fun hb => absurd hb h, fun hb => h (.inl hb.1)⟩

theorem coherent_of_receiving (hs : e.status = .notRunnable) (ho : e.outbox = none) : e.Coherent :=
  ⟨fun _ => hs, fun hb => by simp [ho] at hb⟩

theorem coherent_of_parked (hs : e.status = .notRunnable) (hr : e.mailbox.receiving = false) : e.Coherent :=
  ⟨fun _ => hs, fun hb => by simp [hr] at hb⟩

theorem Env.Coherent.congr (h : e.Coherent) (hr : e'.mailbox.receiving = e.mailbox.receiving)
    (ho : e'.outbox = e.outbox) (hs : e'.status = e.status) : e'.Coherent := by
  refine ⟨fun hb => ?_, ?_⟩
  · rw [Blocked, hr, ho] at hb
    exact hs.trans (h.status hb)
  · rw [hr, ho]
    exact h.single

theorem Env.Coherent.idle (h : e.Coherent) (hs : e.status ≠ .notRunnable) : ¬Blocked e :=
  fun hb => hs (h.status hb)

theorem Bystander.coherent (h : Bystander act t t' e e') (he : e.Coherent) : e'.Coherent := by
  cases h with
  | left => exact he.congr rfl rfl rfl
  | delivered perm _ _ _ hr =>
    have ho : e.outbox = none := by
      by_contra ho
      exact he.single ⟨hr, Option.isSome_iff_ne_none.mpr ho⟩
    exact coherent_of_idle (not_blocked.mpr ⟨rfl, ho⟩)
  | woken answer ho =>
    have hr : e.mailbox.receiving = false := by
      by_contra hr
      exact he.single ⟨by simpa using hr, by simp [ho]⟩
    exact coherent_of_idle (not_blocked.mpr ⟨hr, rfl⟩)

theorem coherent_released (h : t.Coherent) (hd : t.find? id = some d) : (t.released id d).Coherent := by
  intro j e' hj
  obtain ⟨e, he, hb⟩ : ∃ e, t.find? j = some e ∧ Bystander none t (t.released id d) e e' := bystander_of_released hd hj
  exact hb.coherent (h j e he)

theorem coherent_update (h : t.Coherent) (hf : ∀ e, e.isFree = false → (f e).title = e.title)
    (hc : ∀ e, t.find? id = some e → (f e).Coherent) : (t.update id f).Coherent := by
  intro j e' hj
  rw [find?_update hf] at hj
  split at hj
  · obtain ⟨e, he, rfl⟩ := Option.map_eq_some_iff.mp hj
    exact hc e he
  · exact h j e' hj

theorem coherent_context {g : Env → Context} (h : t.Coherent) :
    (t.update id fun e => { e with context := g e }).Coherent :=
  coherent_update h (fun _ _ => rfl) fun _ he => (h _ _ he).congr rfl rfl rfl

section fresh

variable {index : Nat} {parent : Id} {kind : Kind} {space : Handle}

theorem coherent_occupy (h : t.Coherent) (ht : t.Sound) (hfree : t.freeHead = some index) :
    (t.occupy index parent kind space).2.Coherent := by
  intro j e' hj
  rw [find?_occupy ht hfree] at hj
  split at hj
  · cases hj
    exact coherent_of_idle (not_blocked.mpr ⟨rfl, rfl⟩)
  · exact h j e' hj

end fresh

namespace Kernel

theorem Fetches.caller_free {dstva : Word} (h : Fetches caller (t.update caller (Env.scanning dstva)) m t' m')
    (hc : t.find? caller = some c) (ho : c.outbox = .none) (he : t'.find? caller = some e) : e.outbox = .none := by
  cases hp : e.outbox with
  | none => rfl
  | some p =>
    obtain ⟨y, hy, hyp⟩ := Holds.of_eased (Holds.of_eased ⟨e, he, hp⟩ h.eased) eased_scanning
    cases hc.symm.trans hy
    cases ho.symm.trans hyp

/-- The caller of a fetch that succeeds is not blocked any more. -/
theorem Fetched.caller_idle {dstva : Word} (h : Fetched caller (t.update caller (Env.scanning dstva)) m sender t' m')
    (hc : t.find? caller = some c) (ho : c.outbox = none) (he : t'.find? caller = some e) : ¬Blocked e := by
  cases h with
  | @mk t₁ _ _ s receiver p perm hf hs hso _ hr _ =>
    have hne : caller ≠ sender := by
      rintro rfl
      cases hso.symm.trans (hf.caller_free hc ho hs)
    cases ((find?_update_of_ne Env.title_woken hne).trans (find?_update_self title_delivered hr)).symm.trans he
    refine not_blocked.mpr ⟨rfl, ?_⟩
    show receiver.outbox = none
    cases hp : receiver.outbox with
    | none => rfl
    | some q =>
      obtain ⟨x, hx, hxp⟩ := Holds.of_eased (x := none) ⟨receiver, hr, hp⟩ eased_relieved
      cases (hf.caller_free hc ho hx).symm.trans hxp

end Kernel

theorem coherent_scanned {dstva : Word} (h : t.Coherent) (ht : Touched (t.update caller (Env.scanning dstva)) t')
    (hr : ∀ e, (t.update caller (Env.scanning dstva)).find? j = some e →
      ∃ e', t'.find? j = some e' ∧ Kernel.Relieved caller e e')
    (hj : j ≠ caller) (he : t'.find? j = some e') : e'.Coherent := by
  obtain ⟨e, hs, -⟩ := ht.find?_inv he
  obtain ⟨y, hy, hrel⟩ := hr e hs
  cases he.symm.trans hy
  have hb : Bystander (some (caller, .receiveQueued dstva)) t t' e e' := hrel.bystander
  exact hb.coherent (h j e ((find?_scanning hj).symm.trans hs))

/-- A delivery ends the only operation that its receiver was blocked in. -/
theorem coherent_sent (h : t.Coherent) (hf : t.find? e.id = some e) (hr : e.mailbox.receiving = true) :
    ((t.update e.id (Kernel.delivered caller msg.value perm)).update e.id fun e =>
      { e with status := .runnable }).Coherent := by
  have hidle : ¬Blocked (Kernel.delivered caller msg.value perm e) := by
    refine not_blocked.mpr ⟨rfl, ?_⟩
    by_contra ho
    exact (h _ e hf).single ⟨hr, Option.isSome_iff_ne_none.mpr ho⟩
  have hfirst : (t.update e.id (Kernel.delivered caller msg.value perm)).Coherent := by
    refine coherent_update h Kernel.title_delivered fun y hy => ?_
    cases hf.symm.trans hy
    exact coherent_of_idle hidle
  refine coherent_update hfirst Env.title_runnable fun y hy => ?_
  cases (find?_update_self Kernel.title_delivered hf).symm.trans hy
  exact coherent_of_idle hidle

/-- A blocked environment whose status is set, but not to one that lets it run, stays out of the way. -/
theorem coherent_reset {status : Status} {g : Env → Option Cpu} (h : t.Coherent)
    (hl : t.lookup id (some caller) true = .ok e) (hlive : ¬(status = .free ∨ status = .dying))
    (hrun : status ≠ .running) (hr : ¬Rouses t caller (.setStatus id status)) :
    (t.update e.id fun e => { e with status, cpu := g e }).Coherent := by
  refine coherent_update h (fun _ hf => Env.title_of_live rfl rfl rfl (fun h => hlive (.inl h)) hf) fun y hy => ?_
  cases (lookup_found hl).symm.trans hy
  by_cases hb : Blocked e
  · have hstatus : status = .notRunnable := by
      cases status with
      | free => exact absurd (.inl rfl) hlive
      | dying => exact absurd (.inr rfl) hlive
      | running => exact absurd rfl hrun
      | notRunnable => rfl
      | runnable => exact absurd ⟨rfl, e, hl, hb⟩ hr
    exact ⟨fun _ => hstatus, (h _ e hy).single⟩
  · exact coherent_of_idle hb

/-- Calls of whoever is not blocked keep all coherent, unless they rouse somebody. -/
theorem Effect.coherent (hp : Proper n t m) (h : Effect cpu caller t m call t' m') (hcoh : t.Coherent)
    (hc : t.find? caller = some c) (hn : ¬Blocked c) (hr : ¬Rouses t caller call)
    (hs : ∀ id, call ≠ .setStatus id .running) : t'.Coherent := by
  obtain ⟨hrecv, hout⟩ := not_blocked.mp hn
  cases h with
  | quiet => exact hcoh
  | @marked _ d hd helse =>
    refine coherent_update hcoh Env.title_dying fun e he => ?_
    cases hd.spec.1.symm.trans he
    exact coherent_of_idle ((hcoh _ d he).idle (by rw [helse.1]; decide))
  | freed hd => exact coherent_released hcoh hd.spec.1
  | forked _ hfree _ =>
    refine coherent_update (coherent_occupy hcoh hp.intact.table hfree) Env.title_suspended fun e he => ?_
    exact ⟨fun _ => rfl, (coherent_occupy hcoh hp.intact.table hfree _ e he).single⟩
  | reset hl hlive _ => exact coherent_reset hcoh hl hlive (fun hrun => hs _ (congrArg (Call.setStatus _) hrun)) hr
  | allocated => exact hcoh
  | mapped => exact hcoh
  | unmapped => exact hcoh
  | entered => exact coherent_update hcoh (fun _ _ => rfl) fun e he => (hcoh _ e he).congr rfl rfl rfl
  | sent _ hl hreceiving _ => exact coherent_sent hcoh (lookup_found hl) hreceiving
  | @parked target msg receiver hl hne _ =>
    have hfirst : (t.update receiver.id fun e => { e with waiting := e.waiting + 1 }).Coherent :=
      coherent_update hcoh Env.title_owed fun e he => (hcoh _ e he).congr rfl rfl rfl
    refine coherent_update hfirst Env.title_parked fun e he => ?_
    cases ((find?_update_of_ne Env.title_owed (Ne.symm hne)).trans hc).symm.trans he
    exact coherent_of_parked rfl hrecv
  | blocked =>
    refine coherent_update hcoh Kernel.title_blocking fun e he => ?_
    cases hc.symm.trans he
    exact coherent_of_receiving rfl hout
  | @starved dstva t₁ _ hf =>
    intro j e' hj
    rw [find?_update Kernel.title_blocking] at hj
    split at hj
    · obtain ⟨e, he, rfl⟩ := Option.map_eq_some_iff.mp hj
      have ho : e.outbox = none := hf.caller_free hc hout he
      exact coherent_of_receiving rfl ho
    · next hne => exact coherent_scanned hcoh hf.touched (fun e he => hf.relieved he hne) hne hj
  | fetched hf =>
    intro j e' hj
    by_cases hne : j = caller
    · subst hne
      exact coherent_of_idle (hf.caller_idle hc hout hj)
    · exact coherent_scanned hcoh hf.touched (fun e he => hf.relieved he hne) hne hj

end Exokernel
