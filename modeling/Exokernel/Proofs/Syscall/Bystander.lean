import Exokernel.Proofs.Syscall.Effect

/-!
# What calls do to others

An environment that makes no call itself changes in few ways: a message for it is delivered, or it is woken from its
own send because that message was fetched or its target is gone; and it counts one sender more or less. Its parent
may rule it besides: destroy it, set its status or its upcall.
-/

set_option autoImplicit false

namespace Exokernel

open Env (Id Kind Status Message Parcel)
open Env.Table

def Answers (act : Option (Id × Call)) (t t' : Env.Table) (target : Id) : Prop :=
  (∃ dstva, act = some (target, .receiveQueued dstva)) ∨
    (∃ x, t.find? target = some x) ∧ t'.find? target = none

inductive Awaited (act : Option (Id × Call)) (t t' : Env.Table) (e : Env) : Nat → Prop
  | same : Awaited act t t' e e.waiting
  | more {caller target : Id} {msg : Message} {y : Env} : act = some (caller, .sendQueued target msg) →
      t.lookup target (some caller) false = .ok e → t'.find? caller = some y →
      y.outbox = some { msg with target := e.id } → Awaited act t t' e (e.waiting + 1)
  | less {id : Id} {x : Env} {p : Parcel} : t.find? id = some x → t'.find? id = none → x.outbox = some p →
      p.target = e.id → Awaited act t t' e (e.waiting - 1)

inductive Bystander (act : Option (Id × Call)) (t t' : Env.Table) (e : Env) : Env → Prop
  | left {waiting : Nat} : Awaited act t t' e waiting → Bystander act t t' e { e with waiting }
  | delivered {caller target : Id} {call : Call} {msg : Message} (perm : PageFlags) : act = some (caller, call) →
      call.message? = some (target, msg) → t.lookup target (some caller) false = .ok e →
      e.mailbox.receiving = true →
      Bystander act t t' e { e with
        status := .runnable
        mailbox := { e.mailbox with receiving := false, sender := caller, value := msg.value, perm } }
  | woken {waiting : Nat} {p : Parcel} (answer : Word) : e.outbox = some p → Answers act t t' p.target →
      Awaited act t t' e waiting →
      Bystander act t t' e { e with
        status := .runnable, context := e.context.setAnswer answer, waiting, outbox := none }

inductive Ruled (cpu : Cpu) (caller : Id) (call : Call) (t : Env.Table) (e : Env) : Option Env → Prop
  | gone : Destroys t caller e call → Ruled cpu caller call t e none
  | marked : Destroys t caller e call → Kernel.Elsewhere cpu e →
      Ruled cpu caller call t e (some { e with status := .dying })
  | reset {id : Id} {status : Status} : call = .setStatus id status → t.lookup id (some caller) true = .ok e →
      ¬(status = .free ∨ status = .dying) → ¬(e.status = .running ∧ e.cpu ≠ some cpu) →
      Ruled cpu caller call t e (some { e with status, cpu := if status = .running then e.cpu else none })
  | entered {id : Id} {entry : Word} : call = .setUpcall id entry → t.lookup id (some caller) true = .ok e →
      Ruled cpu caller call t e (some { e with upcall := entry })

variable {n : Nat} {act : Option (Id × Call)} {cpu : Cpu} {caller id j : Id} {call : Call} {t t' : Env.Table}
  {m m' : Memory} {d e e' : Env} {f : Env → Env}

theorem Bystander.unchanged : Bystander act t t' e e := .left .same

section released

/-- Whoever was parked on an environment that is gone is woken, and who had its message waiting counts one less. -/
theorem bystander_released (hd : t.find? id = some d) (he : t.find? j = some e) (hj : j ≠ id) :
    ∃ e', (t.released id d).find? j = some e' ∧ Bystander act t (t.released id d) e e' := by
  have hgone : (t.released id d).find? id = none := find?_released_self hd
  have hw : ∃ waiting, (t.withdrawn id d.outbox).find? j = some { e with waiting } ∧
      Awaited act t (t.released id d) e waiting := by
    cases ho : d.outbox with
    | none => exact ⟨e.waiting, he, .same⟩
    | some p =>
      have hout := (find?_update_of_ne Env.title_cleared hj).trans he
      by_cases hp : j = p.target
      · subst hp
        exact ⟨e.waiting - 1, find?_update_self Env.title_settled hout, .less hd hgone ho (id_of_find? he).symm⟩
      · exact ⟨e.waiting, (find?_update_of_ne Env.title_settled hp).trans hout, .same⟩
  obtain ⟨waiting, hw, hcount⟩ := hw
  refine ⟨_, find?_released_of_withdrawn hd hw hj, ?_⟩
  split
  · unfold Env.unparkFrom
    split
    · next hp =>
      cases ho : e.outbox with
      | none => simp [Env.isParkedOn, ho] at hp
      | some p =>
        have htarget : p.target = id := Kernel.target_of_parkedOn hp ho
        exact .woken _ ho (.inr ⟨⟨d, by rw [htarget, hd]⟩, by rw [htarget, hgone]⟩) hcount
    · exact .left hcount
  · exact .left hcount

theorem bystander_of_released (hd : t.find? id = some d) (he : (t.released id d).find? j = some e') :
    ∃ e, t.find? j = some e ∧ Bystander act t (t.released id d) e e' := by
  obtain ⟨e, hf, hne⟩ := released_inv hd he
  obtain ⟨y, hy, hb⟩ : ∃ y, (t.released id d).find? j = some y ∧ Bystander act t (t.released id d) e y :=
    bystander_released hd hf hne
  obtain rfl := find?_unique hy he
  exact ⟨e, hf, hb⟩

end released

namespace Kernel

def Relieved (caller : Env.Id) (e e' : Env) : Prop :=
  e' = e ∨ ∃ p answer, e.outbox = some p ∧ p.target = caller ∧
    e' = { e with status := .runnable, context := e.context.setAnswer answer, outbox := none }

theorem find?_relieved {sender : Env.Id} (hj : j ≠ caller) : (t.relieved caller sender).find? j =
    if j = sender then (t.find? sender).map fun e => { e with outbox := none } else t.find? j := by
  rw [relieved, find?_update_of_ne Env.title_settled hj, find?_update Env.title_cleared]

/-- One more sender is relieved and woken, whatever was done to `caller` in between. -/
theorem Relieved.step {sender : Env.Id} {y : Env} {p : Parcel} (answer : Word) (h : Relieved caller e e')
    (he' : t.find? j = some e') (hj : j ≠ caller) (hs : t.find? sender = some y) (ho : y.outbox = some p)
    (hp : p.target = caller) (ht : t'.find? j = (t.relieved caller sender).find? j) :
    ∃ e'', (t'.woken sender answer).find? j = some e'' ∧ Relieved caller e e'' := by
  rw [find?_relieved hj] at ht
  by_cases hjs : j = sender
  · subst hjs
    obtain rfl := find?_unique he' hs
    rw [if_pos rfl, he'] at ht
    refine ⟨_, find?_update_self Env.title_woken ht, .inr ?_⟩
    rcases h with rfl | ⟨p', a, -, -, rfl⟩
    · exact ⟨p, answer, ho, hp, rfl⟩
    · cases ho
  · rw [if_neg hjs] at ht
    exact ⟨e', (find?_update_of_ne Env.title_woken hjs).trans (ht.trans he'), h⟩

theorem Fetches.relieved (h : Fetches caller t m t' m') (he : t.find? j = some e) (hj : j ≠ caller) :
    ∃ e', t'.find? j = some e' ∧ Relieved caller e e' := by
  induction h with
  | none => exact ⟨e, he, .inl rfl⟩
  | failed cause _ hs ho hp _ ih =>
    obtain ⟨e₁, he₁, hr⟩ := ih
    exact hr.step _ he₁ hj hs ho hp rfl

theorem Fetched.relieved {sender : Env.Id} (h : Fetched caller t m sender t' m') (he : t.find? j = some e)
    (hj : j ≠ caller) : ∃ e', t'.find? j = some e' ∧ Relieved caller e e' := by
  obtain ⟨hf, hs, ho, hp, -, -⟩ := h
  obtain ⟨e₁, he₁, hr⟩ := hf.relieved he hj
  exact hr.step _ he₁ hj hs ho hp (find?_update_of_ne title_delivered hj)

theorem Relieved.bystander {dstva : Word} (h : Relieved caller e e') :
    Bystander (some (caller, .receiveQueued dstva)) t t' e e' := by
  rcases h with rfl | ⟨p, answer, ho, hp, rfl⟩
  · exact .unchanged
  · exact .woken answer ho (.inl ⟨dstva, by rw [hp]⟩) .same

end Kernel

section effect

theorem ruled_or_other {cpu : Cpu} {y : Env} (hy : t.find? y.id = some y ∧ (y.id = caller ∨ y.parent = caller))
    (htitle : ∀ e, e.isFree = false → (f e).title = e.title) (he : t.find? j = some e) (hj : j ≠ caller)
    (hr : Ruled cpu caller call t y (some (f y))) :
    (∃ e', (t.update y.id f).find? j = some e' ∧ Bystander act t (t.update y.id f) e e') ∨
      e.parent = caller ∧ Ruled cpu caller call t e ((t.update y.id f).find? j) := by
  by_cases hjy : j = y.id
  · subst hjy
    obtain rfl := find?_unique he hy.1
    refine .inr ⟨hy.2.resolve_left hj, ?_⟩
    rw [find?_update_self htitle he]
    exact hr
  · exact .inl ⟨e, (find?_update_of_ne htitle hjy).trans he, .unchanged⟩

/-- Whoever is not the caller is a bystander of the call, or a child that it rules. -/
theorem Effect.bystander (hp : Proper n t m) (hc : t.find? caller = some d) (h : Effect cpu caller t m call t' m')
    (he : t.find? j = some e) (hj : j ≠ caller) :
    (∃ e', t'.find? j = some e' ∧ Bystander (some (caller, call)) t t' e e') ∨
      e.parent = caller ∧ Ruled cpu caller call t e (t'.find? j) := by
  have hsame : (∃ e', t.find? j = some e' ∧ Bystander (some (caller, call)) t t e e') ∨
      e.parent = caller ∧ Ruled cpu caller call t e (t.find? j) := .inl ⟨e, he, .unchanged⟩
  cases h with
  | quiet => exact hsame
  | marked hd hm =>
    exact ruled_or_other hd.spec Env.title_dying he hj (.marked hd hm)
  | @freed _ d _ _ hd _ _ _ =>
    obtain ⟨hf, hor⟩ := hd.spec
    by_cases hjd : j = d.id
    · subst hjd
      obtain rfl := find?_unique he hf
      refine .inr ⟨hor.resolve_left hj, ?_⟩
      rw [find?_released_self hf]
      exact .gone hd
    · exact .inl (bystander_released hf he hjd)
  | @forked parent index space _ hparent hfree _ =>
    have hne : j ≠ (t.occupy index caller .user space).1 := by
      rintro rfl
      rw [find?_occupy_fresh hp.intact.table hfree] at he
      cases he
    refine .inl ⟨e, ?_, .unchanged⟩
    rw [find?_update_of_ne Env.title_suspended hne, find?_occupy hp.intact.table hfree, if_neg hne, he]
  | reset hl hs hr =>
    exact ruled_or_other (lookup_spec hl) (fun _ hf => Env.title_of_live rfl rfl rfl (fun h => hs (.inl h)) hf) he hj
      (.reset rfl hl hs hr)
  | allocated => exact hsame
  | mapped => exact hsame
  | unmapped => exact hsame
  | entered hl => exact ruled_or_other (lookup_spec hl) (fun _ _ => rfl) he hj (.entered rfl hl)
  | @sent _ target msg receiver perm _ hcall hl hr _ =>
    by_cases hjr : j = receiver.id
    · subst hjr
      obtain rfl := find?_unique he (lookup_found hl)
      exact .inl ⟨_, find?_update_self Env.title_runnable (find?_update_self Kernel.title_delivered he),
        .delivered perm rfl hcall hl hr⟩
    · refine .inl ⟨e, ?_, .unchanged⟩
      rw [find?_update_of_ne Env.title_runnable hjr, find?_update_of_ne Kernel.title_delivered hjr, he]
  | @parked target msg receiver hl hne hr =>
    by_cases hjr : j = receiver.id
    · subst hjr
      obtain rfl := find?_unique he (lookup_found hl)
      refine .inl ⟨_, (find?_update_of_ne Env.title_parked hj).trans (find?_update_self Env.title_owed he), .left ?_⟩
      have hcaller := (find?_update_of_ne Env.title_owed (Ne.symm hne)).trans hc
      exact .more rfl hl (find?_update_self Env.title_parked hcaller) rfl
    · refine .inl ⟨e, ?_, .unchanged⟩
      rw [find?_update_of_ne Env.title_parked hj, find?_update_of_ne Env.title_owed hjr, he]
  | blocked => exact .inl ⟨e, (find?_update_of_ne Kernel.title_blocking hj).trans he, .unchanged⟩
  | starved hf =>
    obtain ⟨e', he', hr⟩ := hf.relieved ((find?_scanning hj).trans he) hj
    exact .inl ⟨e', (find?_update_of_ne Kernel.title_blocking hj).trans he', hr.bystander⟩
  | fetched hf =>
    obtain ⟨e', he', hr⟩ := hf.relieved ((find?_scanning hj).trans he) hj
    exact .inl ⟨e', he', hr.bystander⟩

end effect

end Exokernel
