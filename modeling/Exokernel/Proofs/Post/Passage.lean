import Exokernel.Proofs.Post.Counting
import Exokernel.Proofs.Syscall.Bystander

/-!
# What becomes of a parked message

A message stays in the outbox of its sender until it is fetched or rejected by its target, or one of the two is gone.
Outboxes fill by queued sends of their owners alone. Nobody's mailbox changes but that of the environment that
receives or that a message is handed to.
-/

set_option autoImplicit false

namespace Exokernel

open Env (Id Kind Status Message Parcel Mailbox)
open Env.Table

theorem Context.answer_setAnswer (c : Context) (w : Word) : (c.setAnswer w).answer = w.toInt64.toInt := by
  simp [Context.answer, Context.setAnswer]

theorem ErrorCode.toInt_toWord (c : ErrorCode) : c.toWord.toInt64.toInt = c.toReturn := by
  cases c <;> decide

namespace Env.Table

def Holds (t : Table) (s : Id) (p : Parcel) : Prop := ∃ e, t.find? s = some e ∧ e.outbox = some p

def Resumed (t : Table) (s : Id) (answer : Int) : Prop :=
  ∃ e, t.find? s = some e ∧ e.outbox = none ∧ e.status = .runnable ∧ e.context.answer = answer

def mailbox? (t : Table) (id : Id) : Option Mailbox := (t.find? id).map Env.mailbox

def Delivers (t t' : Table) (s j : Id) : Prop :=
  ∃ box, t'.mailbox? j = some box ∧ t.mailbox? j ≠ some box ∧ box.receiving = false ∧ box.sender = s

variable {t t' t'' : Table} {s j id caller sender : Id} {p q : Parcel} {d e e' : Env} {f : Env → Env} {answer : Word}
  {a : Int} {x : Option Id}

theorem Holds.unique (h : t.Holds s p) (h' : t.Holds s q) : p = q := by
  obtain ⟨e, hf, ho⟩ := h
  obtain ⟨e', hf', ho'⟩ := h'
  obtain rfl := find?_unique hf hf'
  exact Option.some.inj (ho.symm.trans ho')

theorem Resumed.not_holds (h : t.Resumed s a) : ¬t.Holds s q := by
  obtain ⟨e, hf, ho, -⟩ := h
  rintro ⟨e', hf', ho'⟩
  obtain rfl := find?_unique hf hf'
  rw [ho] at ho'
  cases ho'

theorem Holds.update (h : t.Holds s p) (hf : ∀ e, e.isFree = false → (f e).title = e.title)
    (ho : ∀ e, (f e).outbox = e.outbox) : (t.update j f).Holds s p := by
  obtain ⟨e, he, hp⟩ := h
  rw [Holds, find?_update hf]
  split
  · next hj =>
    rw [← hj, he]
    exact ⟨f e, rfl, (ho e).trans hp⟩
  · exact ⟨e, he, hp⟩

theorem mailbox?_update (hf : ∀ e, e.isFree = false → (f e).title = e.title) (hb : ∀ e, (f e).mailbox = e.mailbox) :
    (t.update j f).mailbox? id = t.mailbox? id := by
  rw [mailbox?, find?_update hf]
  split
  · next hj => rw [hj, Option.map_map, mailbox?, Function.comp_def, funext hb]
  · rfl

theorem Holds.of_find? (h : t.Holds s p) (hf : t'.find? s = t.find? s) : t'.Holds s p := by
  obtain ⟨e, he, hp⟩ := h
  exact ⟨e, hf.trans he, hp⟩

theorem Resumed.of_find? (h : t.Resumed s a) (hf : t'.find? s = t.find? s) : t'.Resumed s a := by
  obtain ⟨e, he, hr⟩ := h
  exact ⟨e, hf.trans he, hr⟩

theorem resumed_woken (hf : t.find? s = some e) (ho : e.outbox = none) :
    (t.woken s answer).Resumed s answer.toInt64.toInt :=
  ⟨_, find?_update_self Env.title_woken hf, ho, rfl, Context.answer_setAnswer _ _⟩

section eased

def Eased (t : Table) (x : Option Id) (t' : Table) : Prop :=
  ∀ j e', t'.find? j = some e' → ∃ e, t.find? j = some e ∧ (e'.outbox = e.outbox ∨ e'.outbox = none) ∧
    (x ≠ some j → e'.mailbox = e.mailbox)

theorem Eased.refl (t : Table) (x : Option Id) : t.Eased x t := fun _ e h => ⟨e, h, .inl rfl, fun _ => rfl⟩

theorem Eased.trans (h : t.Eased x t') (h' : t'.Eased x t'') : t.Eased x t'' := by
  intro j e₂ hf₂
  obtain ⟨e₁, hf₁, ho₁, hb₁⟩ := h' j e₂ hf₂
  obtain ⟨e, hf, ho, hb⟩ := h j e₁ hf₁
  refine ⟨e, hf, ?_, fun hj => (hb₁ hj).trans (hb hj)⟩
  rcases ho₁ with ho₁ | ho₁
  · rw [ho₁]
    exact ho
  · exact .inr ho₁

theorem eased_update (hf : ∀ e, e.isFree = false → (f e).title = e.title)
    (ho : ∀ e, (f e).outbox = e.outbox ∨ (f e).outbox = none) (hb : x ≠ some j → ∀ e, (f e).mailbox = e.mailbox) :
    t.Eased x (t.update j f) := by
  intro i e' he'
  rw [find?_update hf] at he'
  split at he'
  · next hi =>
    obtain ⟨e, he, rfl⟩ := Option.map_eq_some_iff.mp he'
    exact ⟨e, hi ▸ he, ho e, fun hx => hb (hi ▸ hx) e⟩
  · exact ⟨e', he', .inl rfl, fun _ => rfl⟩

theorem eased_relieved : t.Eased x (t.relieved caller sender) :=
  (eased_update Env.title_cleared (fun _ => .inr rfl) fun _ _ => rfl).trans
    (eased_update Env.title_settled (fun _ => .inl rfl) fun _ _ => rfl)

theorem eased_woken : t.Eased x (t.woken sender answer) :=
  eased_update Env.title_woken (fun _ => .inl rfl) fun _ _ => rfl

theorem eased_delivered {value : Word} {perm : PageFlags} :
    t.Eased (some id) (t.update id (Kernel.delivered sender value perm)) :=
  eased_update Kernel.title_delivered (fun _ => .inl rfl) fun h => absurd rfl h

theorem eased_blocking {dstva : Word} : t.Eased (some id) (t.update id (Kernel.blocking dstva)) :=
  eased_update Kernel.title_blocking (fun _ => .inl rfl) fun h => absurd rfl h

theorem eased_context {g : Env → Context} : t.Eased x (t.update id fun e => { e with context := g e }) :=
  eased_update Env.title_context (fun _ => .inl rfl) fun _ _ => rfl

theorem eased_released (hd : t.find? j = some d) : t.Eased x (t.released j d) := by
  intro i e' he'
  obtain ⟨e, he, hi⟩ := released_inv hd he'
  obtain ⟨waiting, hleft | ⟨-, hwoken⟩⟩ := find?_released_of_ne hd he hi
  · obtain rfl := find?_unique he' hleft
    exact ⟨e, he, .inl rfl, fun _ => rfl⟩
  · obtain rfl := find?_unique he' hwoken
    exact ⟨e, he, .inr rfl, fun _ => rfl⟩

theorem Holds.of_eased (h : t'.Holds s p) (he : t.Eased x t') : t.Holds s p := by
  obtain ⟨e', hf', ho'⟩ := h
  obtain ⟨e, hf, ho, -⟩ := he s e' hf'
  rcases ho with ho | ho
  · exact ⟨e, hf, ho.symm.trans ho'⟩
  · cases ho.symm.trans ho'

theorem Eased.not_delivers (h : t.Eased x t') (hx : x ≠ some j) : ¬t.Delivers t' s j := by
  rintro ⟨box, hbox, hnew, -⟩
  obtain ⟨e', hf', rfl⟩ := Option.map_eq_some_iff.mp hbox
  obtain ⟨e, hf, -, hb⟩ := h j e' hf'
  rw [mailbox?, hf, hb hx] at hnew
  exact hnew rfl

end eased

theorem Exact.find?_released_of_ne (hx : t.Exact) (hd : t.find? id = some d) (he : t.find? j = some e) (hj : j ≠ id) :
    ∃ waiting, (t.released id d).find? j = some (Env.unparkFrom id { e with waiting }) := by
  obtain ⟨waiting, hw⟩ := find?_withdrawn_of_ne (o := d.outbox) he hj
  refine ⟨waiting, (find?_released_of_withdrawn hd hw hj).trans ?_⟩
  split
  · rfl
  · next hzero => rw [Env.unparkFrom, if_neg (by simp [(hx.withdrawn hd).not_parkedOn hzero hw])]

/-- When an environment is freed, a message of somebody else still waits, or it waited for this one and its sender
learns that the target is gone. -/
theorem Exact.holds_released (hx : t.Exact) (hd : t.find? id = some d) (hs : t.Holds s p) (hid : s ≠ id) :
    (t.released id d).Holds s p ∨
      p.target = id ∧ (t.released id d).Resumed s ErrorCode.badEnvironment.toReturn := by
  obtain ⟨e, hf, ho⟩ := hs
  obtain ⟨waiting, hleft⟩ := hx.find?_released_of_ne hd hf hid
  rw [Env.unparkFrom] at hleft
  split at hleft
  · next hparked =>
    obtain ⟨-, p', ho', hp⟩ := Env.isParkedOn_iff.mp hparked
    obtain rfl := Option.some.inj (ho.symm.trans ho')
    refine .inr ⟨hp, _, hleft, rfl, rfl, ?_⟩
    rw [← ErrorCode.toInt_toWord]
    exact Context.answer_setAnswer _ _
  · exact .inl ⟨_, hleft, ho⟩

end Env.Table

theorem SamePost.eased {t t' : Env.Table} (x : Option Id) (h : SamePost t t') : t.Eased x t' := by
  intro j e' hf'
  obtain ⟨e, hf, he⟩ := h.symm.find? hf'
  obtain ⟨-, hb, -, ho⟩ := Env.post_eq.mp he
  exact ⟨e, hf, .inl ho.symm, fun _ => hb.symm⟩

namespace Kernel

variable {k k₁ k' : Kernel} {s caller sender : Env.Id} {p : Parcel} {e : Env} {dstva : Word} {index start done : Nat}
  {r : Option Env.Id} {a : Int}

theorem fetch_eased (ht : k.envs.Sound) (h : fetch caller index k = .done r k') :
    k.envs.Eased (some caller) k'.envs := by
  rcases (fetch_turnover caller index ht).of_done h with ⟨-, rfl⟩ | ⟨sender, e, p, -, -, -, hr⟩
  · exact .refl _ _
  · cases r with
    | none =>
      obtain ⟨cause, _, -, he⟩ := hr
      rw [he]
      exact eased_relieved.trans eased_woken
    | some s =>
      obtain ⟨-, perm, he⟩ := hr
      rw [he]
      exact eased_relieved.trans (eased_delivered.trans eased_woken)

theorem eased_scanning {t : Env.Table} : t.Eased (some caller) (t.update caller (Env.scanning dstva)) :=
  eased_update (fun _ _ => rfl) (fun _ => .inl rfl) fun h => absurd rfl h

theorem mailbox_scanning {t t' : Env.Table} {x : Env} (h : (t.update caller (Env.scanning dstva)).Eased none t')
    (he : t.find? caller = some e) (hx : t'.find? caller = some x) :
    x.mailbox = { e.mailbox with receiving := true, dstva } := by
  have htitle : ∀ y : Env, y.isFree = false → (y.scanning dstva).title = y.title := fun _ _ => rfl
  obtain ⟨y, hy, -, hbox⟩ := h caller x hx
  rw [find?_update_self htitle he] at hy
  cases hy
  exact hbox (by simp)

theorem Fetches.eased {t t' : Env.Table} {m m' : Memory} (h : Fetches caller t m t' m') : t.Eased Option.none t' := by
  induction h with
  | none => exact .refl _ _
  | failed cause _ _ _ _ _ ih => exact ih.trans (eased_relieved.trans eased_woken)

theorem find?_relieved_self {t : Env.Table} (hf : t.find? sender = some e) (hne : caller ≠ sender) :
    (t.relieved caller sender).find? sender = some { e with outbox := none } := by
  rw [find?_relieved hne.symm, if_pos rfl, hf]
  rfl

theorem find?_relieved_caller {t : Env.Table} {x : Env} (hf : t.find? caller = some x) (hne : caller ≠ sender) :
    (t.relieved caller sender).find? caller = some { x with waiting := x.waiting - 1 } :=
  find?_update_self Env.title_settled ((find?_update_of_ne Env.title_cleared hne).trans hf)

theorem Amid.eased (ht : k.envs.Sound) (h : Amid caller dstva start k done k₁) :
    k.envs.Eased (some caller) k₁.envs := by
  induction h with
  | opened => exact eased_scanning
  | fetched hamid _ _ hfetch ih => exact ih.trans (fetch_eased ((hamid.touched ht).sound ht) hfetch)

def Rejects (s : Env.Id) (p : Parcel) (cause : IpcError) (k k' : Kernel) : Prop :=
  k.envs.Holds s p ∧ k'.envs.mailbox? p.target = k.envs.mailbox? p.target ∧
    ∃ k₁, transfer s p.target p.toMessage { k with envs := k.envs.relieved p.target s } = .refused cause k₁

section fetch

variable (ht : k.envs.Sound) (h : fetch caller index k = .done r k')
include ht h

/-- A fetch leaves those alone who neither receive nor have a message waiting. -/
theorem find?_fetch_of_none (hf : k.envs.find? s = some e) (ho : e.outbox = none) (hne : s ≠ caller) :
    k'.envs.find? s = k.envs.find? s := by
  rcases (fetch_turnover caller index ht).of_done h with ⟨-, rfl⟩ | ⟨sender, y, q, hy, hq, -, hr⟩
  · rfl
  · have hns : s ≠ sender := by
      rintro rfl
      obtain rfl := find?_unique hf hy
      rw [ho] at hq
      cases hq
    have hrelieved : (k.envs.relieved caller sender).find? s = k.envs.find? s := by
      rw [find?_relieved hne, if_neg hns]
    cases r with
    | none =>
      obtain ⟨cause, _, -, he⟩ := hr
      rw [he, Env.Table.woken, find?_update_of_ne Env.title_woken hns, hrelieved]
    | some s' =>
      obtain ⟨-, perm, he⟩ := hr
      rw [he, Env.Table.woken, find?_update_of_ne Env.title_woken hns, find?_update_of_ne title_delivered hne,
        hrelieved]

/-- A fetch that succeeds takes over the message of its sender, which reads 0. -/
theorem fetch_received (hx : k.envs.Exact) (hr : r = some s) : ∃ p, k.envs.Holds s p ∧ p.target = caller ∧
    k'.envs.Resumed s 0 ∧
      ∃ box, k'.envs.mailbox? caller = some box ∧ box.receiving = false ∧ box.sender = s ∧ box.value = p.value := by
  subst hr
  rcases (fetch_turnover caller index ht).of_done h with ⟨hr, -⟩ | ⟨sender, e, p, hf, hp, hcaller, rfl, perm, he⟩
  · cases hr
  · obtain ⟨hne, x, hx', -⟩ := hx.counted_for hf hp
    rw [hcaller] at hne hx'
    refine ⟨p, ⟨e, hf, hp⟩, hcaller, ?_, ?_⟩
    · rw [he]
      exact resumed_woken ((find?_update_of_ne title_delivered hne.symm).trans (find?_relieved_self hf hne)) rfl
    · rw [he, mailbox?, Env.Table.woken, find?_update_of_ne Env.title_woken hne,
        find?_update_self title_delivered (find?_relieved_caller hx' hne)]
      exact ⟨_, rfl, rfl, rfl, rfl⟩

/-- A waiting message still waits after a fetch, unless its target looked at it. -/
theorem fetch_holds (hx : k.envs.Exact) (hs : k.envs.Holds s p) : k'.envs.Holds s p ∨ p.target = caller ∧ match r with
    | none => ∃ cause, Rejects s p cause k k' ∧ k'.envs.Resumed s cause.code.toReturn
    | some s' => s' = s := by
  rcases (fetch_turnover caller index ht).of_done h with ⟨-, rfl⟩ | ⟨sender, e, q, hf, hq, hcaller, hr⟩
  · exact .inl hs
  · by_cases hsender : s = sender
    · subst hsender
      obtain rfl := hs.unique ⟨e, hf, hq⟩
      refine .inr ⟨hcaller, ?_⟩
      cases r with
      | none =>
        obtain ⟨cause, k₁, hrefused, he⟩ := hr
        obtain ⟨hne, x, hx', -⟩ := hx.counted_for hf hq
        rw [hcaller] at hne hx'
        refine ⟨cause, ⟨hs, ?_, k₁, by rw [hcaller]; exact hrefused⟩, ?_⟩
        · rw [he, hcaller, mailbox?, mailbox?, Env.Table.woken, find?_update_of_ne Env.title_woken hne,
            find?_relieved_caller hx' hne, hx']
          rfl
        · rw [he, ← ErrorCode.toInt_toWord]
          exact resumed_woken (find?_relieved_self hf hne) rfl
      | some s' => exact hr.1
    · have hrelieved : (k.envs.relieved caller sender).Holds s p :=
        (hs.of_find? (find?_update_of_ne Env.title_cleared hsender)).update Env.title_settled fun _ => rfl
      left
      cases r with
      | none =>
        obtain ⟨cause, _, -, he⟩ := hr
        rw [he]
        exact hrelieved.update Env.title_woken fun _ => rfl
      | some s' =>
        obtain ⟨-, perm, he⟩ := hr
        rw [he]
        exact (hrelieved.update title_delivered fun _ => rfl).update Env.title_woken fun _ => rfl

end fetch

def RejectsAmid (s : Env.Id) (p : Parcel) (cause : IpcError) (dstva : Word) (start : Nat) (k : Kernel) : Prop :=
  ∃ done k₁ k₂, Amid p.target dstva start k done k₁ ∧ Amid p.target dstva start k (done + 1) k₂ ∧
    Rejects s p cause k₁ k₂

/-- Along a receive a message waits until it is rejected, and is not looked at again. -/
theorem Amid.holds (ht : k.envs.Sound) (hx : k.envs.Exact) (h : Amid caller dstva start k done k₁)
    (hs : k.envs.Holds s p) : k₁.envs.Holds s p ∨ p.target = caller ∧
      ∃ cause, RejectsAmid s p cause dstva start k ∧ k₁.envs.Resumed s cause.code.toReturn := by
  induction h with
  | opened => exact .inl (hs.update (fun _ _ => rfl) fun _ => rfl)
  | fetched hamid hdone hstart hfetch ih =>
    have ht₁ := (hamid.touched ht).sound ht
    have hx₁ := hamid.exact ht hx
    rcases ih with ih | ⟨hcaller, cause, hrej, hres⟩
    · rcases fetch_holds ht₁ hfetch hx₁ ih with h₂ | ⟨hcaller, cause, hrej, hres⟩
      · exact .inl h₂
      · subst hcaller
        exact .inr ⟨rfl, cause, ⟨_, _, _, hamid, hamid.fetched hdone hstart hfetch, hrej⟩, hres⟩
    · obtain ⟨e, hf, ho⟩ := hs
      have hne := (hx.counted_for hf ho).1
      rw [hcaller] at hne
      obtain ⟨y, hy, hout, -⟩ := id hres
      exact .inr ⟨hcaller, cause, hrej, hres.of_find? (find?_fetch_of_none ht₁ hfetch hy hout hne.symm)⟩

end Kernel

end Exokernel
