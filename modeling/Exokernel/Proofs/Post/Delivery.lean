import Exokernel.Proofs.Post.Passage

/-!
# Queued messages are settled once

A parked message leaves the outbox of its sender in one of four ways, and in one of them only. What somebody's mailbox
says of a sender comes from a send that delivers at once or from the message that waited for just this target.
-/

set_option autoImplicit false

namespace Exokernel

open Env (Id Kind Status Message Parcel Mailbox)
open Env.Table

inductive Way where
  | fetched
  | rejected (cause : IpcError)
  | orphaned
  | withdrawn

def Way.frees? (s target : Id) : Way → Option Id
  | .fetched | .rejected _ => none
  | .orphaned => some target
  | .withdrawn => some s

def Way.answer? : Way → Option Int
  | .fetched => some 0
  | .rejected cause => some cause.code.toReturn
  | .orphaned => some ErrorCode.badEnvironment.toReturn
  | .withdrawn => none

def Departs (s : Id) (p : Parcel) (k : Kernel) (op : TableOp) (k' : Kernel) : Way → Prop
  | .fetched => ∃ dstva start, op = .receiveQueued p.target dstva start ∧
      Kernel.receiveQueued p.target dstva start k = .done (.received s) k' ∧ k'.envs.Resumed s 0 ∧
      ∃ box, k'.envs.mailbox? p.target = some box ∧ box.receiving = false ∧ box.sender = s ∧ box.value = p.value
  | .rejected cause => ∃ dstva start, op = .receiveQueued p.target dstva start ∧
      k.RejectsAmid s p cause dstva start ∧ k'.envs.Resumed s cause.code.toReturn
  | .orphaned => op.frees? = some p.target ∧ (∃ x, k.envs.find? p.target = some x) ∧
      k'.envs.find? p.target = none ∧ k'.envs.Resumed s ErrorCode.badEnvironment.toReturn
  | .withdrawn => op.frees? = some s ∧ k'.envs.find? s = none

variable {k k' k₁ : Kernel} {op : TableOp} {s j caller : Id} {p q : Parcel} {way way' : Way}
  {past : List (Kernel × TableOp)}

theorem Env.Table.Resumed.answer_eq {t : Env.Table} {a : Int} (h : t.Resumed s a) :
    (t.find? s).map (fun e => e.context.answer) = some a := by
  obtain ⟨e, hf, -, -, ha⟩ := h
  rw [hf, Option.map_some, ha]

theorem IpcError.toReturn_injective {c c' : IpcError} (h : c.code.toReturn = c'.code.toReturn) : c = c' := by
  cases c <;> cases c' <;> simp_all [code, ErrorCode.toReturn, ErrorCode.number]

theorem ErrorCode.toReturn_ne_zero (c : ErrorCode) : c.toReturn ≠ 0 := by cases c <;> decide

/-- Who is freed and what the sender reads tell the four ways apart. The answer alone does not: the target of a
rejected message may also find it sent to a bad environment. -/
theorem Way.eq_of_answer? {target : Id} (hfrees : way.frees? s target = way'.frees? s target)
    (hanswer : way.answer? = way'.answer?) : way = way' := by
  cases way with
  | fetched =>
    cases way' with
    | fetched => rfl
    | rejected cause => exact absurd (Option.some.inj hanswer).symm (ErrorCode.toReturn_ne_zero _)
    | orphaned | withdrawn => cases hfrees
  | rejected cause =>
    cases way' with
    | fetched => exact absurd (Option.some.inj hanswer) (ErrorCode.toReturn_ne_zero _)
    | rejected cause' => rw [IpcError.toReturn_injective (Option.some.inj hanswer)]
    | orphaned | withdrawn => cases hfrees
  | orphaned =>
    cases way' with
    | fetched | rejected _ => cases hfrees
    | orphaned => rfl
    | withdrawn => cases hanswer
  | withdrawn =>
    cases way' with
    | fetched | rejected _ => cases hfrees
    | orphaned => cases hanswer
    | withdrawn => rfl

namespace Departs

theorem not_holds (h : Departs s p k op k' way) : ¬k'.envs.Holds s q := by
  cases way with
  | fetched =>
    obtain ⟨dstva, start, -, -, hres, -⟩ := h
    exact hres.not_holds
  | rejected cause =>
    obtain ⟨dstva, start, -, -, hres⟩ := h
    exact hres.not_holds
  | orphaned => exact h.2.2.2.not_holds
  | withdrawn =>
    rintro ⟨e, hf, -⟩
    rw [h.2] at hf
    cases hf

theorem frees?_eq (h : Departs s p k op k' way) : op.frees? = way.frees? s p.target := by
  cases way with
  | fetched | rejected _ =>
    obtain ⟨dstva, start, rfl, -⟩ := h
    rfl
  | orphaned | withdrawn => exact h.1

theorem answer?_eq (h : Departs s p k op k' way) :
    (k'.envs.find? s).map (fun e => e.context.answer) = way.answer? := by
  cases way with
  | fetched =>
    obtain ⟨dstva, start, -, -, hres, -⟩ := h
    exact hres.answer_eq
  | rejected cause =>
    obtain ⟨dstva, start, -, -, hres⟩ := h
    exact hres.answer_eq
  | orphaned => exact h.2.2.2.answer_eq
  | withdrawn => rw [h.2, Option.map_none, Way.answer?]

theorem unique (h : Departs s p k op k' way) (h' : Departs s p k op k' way') : way = way' :=
  Way.eq_of_answer? (h.frees?_eq.symm.trans h'.frees?_eq) (h.answer?_eq.symm.trans h'.answer?_eq)

end Departs

namespace Turnover

/-- Whoever has a message waiting keeps it, or it leaves in one of the four ways. -/
theorem holds (h : Turnover k op k') (ht : k.envs.Sound) (hx : k.envs.Exact) (hs : k.envs.Holds s p) :
    k'.envs.Holds s p ∨ ∃ way, Departs s p k op k' way := by
  obtain ⟨e, hf, ho⟩ := id hs
  obtain ⟨hne, x, htarget, -⟩ := hx.counted_for hf ho
  cases h with
  | aside h =>
    obtain ⟨e', hf', he⟩ := h.find? hf
    exact .inl ⟨e', hf', (Env.post_eq.mp he).2.2.2.trans ho⟩
  | @allocated parent kind index space _ hfree he =>
    have hnew : s ≠ (k.envs.occupy index parent kind space).1 := by
      rintro rfl
      cases (find?_occupy_fresh ht hfree parent kind space).symm.trans hf
    rw [he]
    exact .inl (hs.of_find? (by rw [find?_occupy ht hfree, if_neg hnew]))
  | @released _ id d _ hop hd he =>
    have hgone := find?_released_self hd
    rw [← he] at hgone
    by_cases hid : s = id
    · subst hid
      exact .inr ⟨.withdrawn, hop, hgone⟩
    · rcases hx.holds_released hd hs hid with hkept | ⟨rfl, hres⟩
      · exact .inl (he ▸ hkept)
      · exact .inr ⟨.orphaned, hop, ⟨d, hd⟩, hgone, he ▸ hres⟩
  | delivered _ _ h =>
    obtain ⟨e₁, hf₁, ho₁⟩ := hs.update Kernel.title_delivered fun _ => rfl
    obtain ⟨e', hf', he⟩ := h.find? hf₁
    exact .inl ⟨e', hf', (Env.post_eq.mp he).2.2.2.trans ho₁⟩
  | @parked caller target msg receiver y _ _ _ _ hcaller hnone he =>
    have hother : s ≠ caller := by
      rintro rfl
      obtain rfl := find?_unique hf hcaller
      cases ho.symm.trans hnone
    rw [he]
    exact .inl ((hs.update Env.title_owed fun _ => rfl).of_find? (find?_update_of_ne Env.title_parked hother))
  | blocked he =>
    rw [he]
    exact .inl (hs.update Kernel.title_blocking fun _ => rfl)
  | starved _ _ hk he =>
    rcases hk with ⟨rfl, -⟩ | hk
    · rw [he]
      exact .inl (hs.update Kernel.title_blocking fun _ => rfl)
    · rcases hk.holds ht hx hs with h₁ | ⟨rfl, cause, hrej, hres⟩
      · rw [he]
        exact .inl (h₁.update Kernel.title_blocking fun _ => rfl)
      · refine .inr ⟨.rejected cause, _, _, rfl, hrej, ?_⟩
        rw [he]
        exact hres.of_find? (find?_update_of_ne Kernel.title_blocking hne.symm)
  | fetched hreceive hk hfetch =>
    have ht₁ := (hk.touched ht).sound ht
    rcases hk.holds ht hx hs with h₁ | ⟨rfl, cause, hrej, hres⟩
    · rcases Kernel.fetch_holds ht₁ hfetch (hk.exact ht hx) h₁ with h₂ | ⟨rfl, rfl⟩
      · exact .inl h₂
      · obtain ⟨p', hp', -, hres, hbox⟩ := Kernel.fetch_received ht₁ hfetch (hk.exact ht hx) rfl
        obtain rfl := h₁.unique hp'
        exact .inr ⟨.fetched, _, _, rfl, hreceive, hres, hbox⟩
    · obtain ⟨y, hy, hout, -⟩ := id hres
      exact .inr ⟨.rejected cause, _, _, rfl, hrej,
        hres.of_find? (Kernel.find?_fetch_of_none ht₁ hfetch hy hout hne.symm)⟩

/-- Outboxes fill by queued sends of their owners alone. -/
theorem holds_inv (h : Turnover k op k') (ht : k.envs.Sound) (hs : k'.envs.Holds s q) :
    k.envs.Holds s q ∨ ∃ target m, op = .sendQueued s target m := by
  cases h with
  | aside h => exact .inl (hs.of_eased (h.eased none))
  | @allocated parent kind index space _ hfree he =>
    obtain ⟨e', hf', ho'⟩ := hs
    rw [he, find?_occupy ht hfree] at hf'
    split at hf'
    · cases hf'
      cases ho'
    · exact .inl ⟨e', hf', ho'⟩
  | released _ hd he => exact .inl ((he ▸ hs).of_eased (eased_released (x := none) hd))
  | delivered _ _ h => exact .inl ((hs.of_eased (h.eased none)).of_eased eased_delivered)
  | @parked caller target msg receiver y _ _ _ _ _ _ he =>
    by_cases hcall : s = caller
    · subst hcall
      exact .inr ⟨target, msg, rfl⟩
    · have howed : (k.envs.update receiver.id fun e => { e with waiting := e.waiting + 1 }).Holds s q :=
        hs.of_find? (by rw [he, find?_update_of_ne Env.title_parked hcall])
      exact .inl (howed.of_eased (eased_update (x := none) Env.title_owed (fun _ => .inl rfl) fun _ _ => rfl))
  | blocked he => exact .inl ((he ▸ hs).of_eased eased_blocking)
  | starved _ _ hk he =>
    have h₁ := (he ▸ hs).of_eased eased_blocking
    rcases hk with ⟨rfl, -⟩ | hk
    · exact .inl h₁
    · exact .inl (h₁.of_eased (hk.eased ht))
  | fetched _ hk hfetch =>
    exact .inl ((hs.of_eased (Kernel.fetch_eased ((hk.touched ht).sound ht) hfetch)).of_eased (hk.eased ht))

theorem not_delivers_blocking {t t' : Env.Table} {dstva : Word} (h : t.Eased (some caller) t') :
    ¬t.Delivers (t'.update caller (Kernel.blocking dstva)) s j := by
  by_cases hj : caller = j
  · subst hj
    rintro ⟨box, hbox, -, hreceiving, -⟩
    rw [mailbox?, find?_update Kernel.title_blocking, if_pos rfl, Option.map_map] at hbox
    obtain ⟨e, -, rfl⟩ := Option.map_eq_some_iff.mp hbox
    cases hreceiving
  · exact (h.trans eased_blocking).not_delivers fun hx => hj (Option.some.inj hx)

/-- A delivery from `s` is a message that `s` sends right now, or the one that waited for this target. -/
theorem delivers_inv (h : Turnover k op k') (ht : k.envs.Sound) (hx : k.envs.Exact) (hs : s ≠ .self)
    (hd : k.envs.Delivers k'.envs s j) : (∃ m, op.sends? = some (s, m)) ∨
      ∃ q, k.envs.Holds s q ∧ q.target = j ∧ Departs s q k op k' .fetched := by
  cases h with
  | aside h => exact absurd hd ((h.eased none).not_delivers (by simp))
  | @allocated parent kind index space _ hfree he =>
    obtain ⟨box, hbox, hnew, -, hsender⟩ := hd
    rw [he, mailbox?, find?_occupy ht hfree] at hbox
    split at hbox
    · cases hbox
      exact absurd hsender.symm hs
    · exact absurd hbox hnew
  | released _ hd' he => exact absurd hd (he ▸ (eased_released hd').not_delivers (x := none) (by simp))
  | @delivered _ sender target msg receiver perm _ hop hf h =>
    by_cases hj : target = j
    · subst hj
      obtain ⟨box, hbox, -, -, rfl⟩ := hd
      obtain ⟨e', hf', he⟩ := h.find? (find?_update_self Kernel.title_delivered hf)
      rw [mailbox?, hf', Option.map_some, (Env.post_eq.mp he).2.1] at hbox
      cases hbox
      exact .inl ⟨msg, hop⟩
    · exact absurd hd ((eased_delivered.trans (h.eased _)).not_delivers fun hx => hj (Option.some.inj hx))
  | parked _ _ _ _ _ he =>
    obtain ⟨box, hbox, hnew, -⟩ := hd
    rw [he, mailbox?_update Env.title_parked fun _ => rfl, mailbox?_update Env.title_owed fun _ => rfl] at hbox
    exact absurd hbox hnew
  | blocked he => exact absurd hd (he ▸ not_delivers_blocking (.refl _ _))
  | starved _ _ hk he =>
    rcases hk with ⟨rfl, -⟩ | hk
    · exact absurd hd (he ▸ not_delivers_blocking (.refl _ _))
    · exact absurd hd (he ▸ not_delivers_blocking (hk.eased ht))
  | @fetched caller sender dstva start done k₁ _ hreceive hk hfetch =>
    have ht₁ := (hk.touched ht).sound ht
    by_cases hj : caller = j
    · subst hj
      obtain ⟨p, hp, htarget, hres, hbox⟩ := Kernel.fetch_received ht₁ hfetch (hk.exact ht hx) rfl
      obtain ⟨box, hbox', -, -, rfl⟩ := hd
      obtain ⟨box', hsame, hreceiving, hsender, hvalue⟩ := hbox
      obtain rfl := Option.some.inj (hsame.symm.trans hbox')
      subst hsender htarget
      exact .inr ⟨p, hp.of_eased (hk.eased ht), rfl, dstva, start, rfl, hreceive, hres, box', hsame, hreceiving, rfl,
        hvalue⟩
    · exact absurd hd (((hk.eased ht).trans (Kernel.fetch_eased ht₁ hfetch)).not_delivers
        fun hx => hj (Option.some.inj hx))

end Turnover

/-- Along the history the message of `s` left its outbox once and in one way. The outbox stays empty until `s` makes
another queued send. -/
def LeavesOnce (s : Id) (p : Parcel) (k : Kernel) (past : List (Kernel × TableOp)) (k' : Kernel) : Prop :=
  ∃ earlier later k₁ op k₂, past = later ++ (k₁, op) :: earlier ∧ TableHistory k earlier k₁ ∧ op.Takes k₁ k₂ ∧
    TableHistory k₂ later k' ∧ (∀ x ∈ (k₁, op) :: earlier, x.1.envs.Holds s p) ∧ (∃! way, Departs s p k₁ op k₂ way) ∧
    ∀ since k₃, TableHistory k₂ since k₃ → (∀ x ∈ since, ∀ target m, x.2 ≠ .sendQueued s target m) →
      ∀ q, ¬k₃.envs.Holds s q

namespace TableHistory

theorem not_holds (h : TableHistory k past k') (hc : k.envs.Sound ∧ k.envs.Exact) (hs : ∀ q, ¬k.envs.Holds s q)
    (hsends : ∀ x ∈ past, ∀ target m, x.2 ≠ .sendQueued s target m) (q : Parcel) : ¬k'.envs.Holds s q := by
  induction h with
  | start => exact hs q
  | step hpast htakes ih =>
    intro hq
    have ht := (hpast.counted hc).1
    rcases (htakes.turnover ht).holds_inv ht hq with hq | ⟨target, m, hop⟩
    · exact ih (fun x hx => hsends x (List.mem_cons_of_mem _ hx)) hq
    · exact hsends _ List.mem_cons_self target m hop

/-- Along a history a message waits all the time or leaves once. -/
theorem settles (h : TableHistory k past k') (hc : k.envs.Sound ∧ k.envs.Exact) (hs : k.envs.Holds s p) :
    (k'.envs.Holds s p ∧ ∀ x ∈ past, x.1.envs.Holds s p) ∨ LeavesOnce s p k past k' := by
  induction h with
  | start => exact .inl ⟨hs, by simp⟩
  | @step past k₁ k₂ op hpast htakes ih =>
    rcases ih with ⟨hk, hheld⟩ | ⟨earlier, later, k₃, op', k₄, rfl, hearlier, hop', hlater, hrest⟩
    · have hc₁ := hpast.counted hc
      have ht := htakes.turnover hc₁.1
      have hheld' : ∀ x ∈ (k₁, op) :: past, x.1.envs.Holds s p := by
        intro x hx
        rcases List.mem_cons.mp hx with rfl | hx
        · exact hk
        · exact hheld x hx
      rcases ht.holds hc₁.1 hc₁.2 hk with hk₂ | ⟨way, hway⟩
      · exact .inl ⟨hk₂, hheld'⟩
      · refine .inr ⟨past, [], k₁, op, k₂, rfl, hpast, htakes, .start, hheld',
          ⟨way, hway, fun _ h => h.unique hway⟩, ?_⟩
        intro since k₃ hsince hsends q
        exact hsince.not_holds ⟨ht.sound hc₁.1, ht.exact hc₁.1 hc₁.2⟩ (fun _ => hway.not_holds) hsends q
    · exact .inr ⟨earlier, (k₁, op) :: later, k₃, op', k₄, rfl, hearlier, hop', .step hlater htakes, hrest⟩

end TableHistory

theorem Kernel.sendQueued_parks {target : Id} {m : Message} {e : Env} (hf : k.envs.find? s = some e)
    (h : Kernel.sendQueued s target m k = .done .parked k₁) : ∃ p : Parcel, p.toMessage = m ∧
      k.envs.resolve target (some s) false = .ok p.target ∧ k₁.envs.Holds s p := by
  obtain ⟨receiver, hl, hne, he⟩ := (Kernel.sendQueued_turnover target m hf).of_done h
  refine ⟨{ m with target := receiver.id }, rfl, by rw [Env.Table.resolve, hl]; rfl, ?_⟩
  rw [he]
  exact ⟨_, find?_update_self Env.title_parked ((find?_update_of_ne Env.title_owed hne.symm).trans hf), rfl⟩

/-- Whatever is asked of the table, its messages and memory, a message that was parked is settled at most once and in
just one way: its target fetches it, a fetch of its target rejects it, its target is gone, or its sender is. No mailbox
gets a message from this sender otherwise, except by a send that is delivered at once. -/
theorem parked_message_settles {slots : Nat} {k₀ : Kernel} {after : List (Kernel × TableOp)} {target : Id} {m : Message}
    (he : k₀.envs = .ofCapacity slots) (h : TableHistory k₀ past k) (hfair : (TableOp.sendQueued s target m).Fair k)
    (hsend : Kernel.sendQueued s target m k = .done .parked k₁) (hafter : TableHistory k₁ after k') :
    ∃ p : Parcel, p.toMessage = m ∧ k.envs.resolve target (some s) false = .ok p.target ∧
      ((k'.envs.Holds s p ∧ ∀ x ∈ after, x.1.envs.Holds s p) ∨ LeavesOnce s p k₁ after k') ∧
      ∀ earlier k₂ op k₃ j, TableHistory k₁ earlier k₂ → op.Takes k₂ k₃ → k₂.envs.Delivers k₃.envs s j →
        (∃ m, op.sends? = some (s, m)) ∨
          ∃ q, k₂.envs.Holds s q ∧ q.target = j ∧ Departs s q k₂ op k₃ .fetched := by
  obtain ⟨e, hf, ho⟩ := id hfair
  have hc := h.counted (he ▸ counted_ofCapacity slots)
  have hrun : (TableOp.sendQueued s target m).run k = .ok (none, k₁) := by
    rw [TableOp.run, hsend]
    rfl
  have hc₁ := (TableHistory.step h ⟨hfair, none, hrun⟩).counted (he ▸ counted_ofCapacity slots)
  obtain ⟨p, hm, htarget, hp⟩ := Kernel.sendQueued_parks hf hsend
  have hpos := (hc.1.named _ e (slot?_of_find? hf) (live_of_find? hf)).2.1
  rw [id_of_find? hf] at hpos
  refine ⟨p, hm, htarget, hafter.settles hc₁ hp, fun earlier k₂ op k₃ j hearlier htakes hd => ?_⟩
  have hc₂ := hearlier.counted hc₁
  exact (htakes.turnover hc₂.1).delivers_inv hc₂.1 hc₂.2 (Env.Id.ne_self hpos) hd

/-- Of two senders the first has given up its page: the receive rejects its message and takes over that of the other. -/
theorem parked_message_settles_rejected :
    ∃ past k k₁ after k' p, TableHistory threeSlots past k ∧
      Kernel.sendQueued ⟨0x401⟩ ⟨0x400⟩ { value := 5, srcva := 0x1000, perm := .user } k = .done .parked k₁ ∧
      TableHistory k₁ after k' ∧ p.value = 5 ∧ LeavesOnce ⟨0x401⟩ p k₁ after k' ∧
      (k'.envs.find? ⟨0x401⟩).map (fun e => e.context.answer) = some IpcError.invalidArgument.code.toReturn ∧
      (k'.envs.mailbox? ⟨0x400⟩).map (fun b => (b.sender, b.value)) = some (⟨0x402⟩, 7) := by
  let m : Message := { value := 5, srcva := 0x1000, perm := .user }
  let k := (TableOp.replay threeSlots (twoParked.drop 3)).get (by decide +kernel)
  let sent := (Kernel.sendQueued ⟨0x401⟩ ⟨0x400⟩ m k).result?.get (by decide +kernel)
  let ops := .receiveQueued ⟨0x400⟩ 0 0 :: twoParked.take 2
  let k' := (TableOp.replay sent.2 ops).get (by decide +kernel)
  obtain ⟨past, hpast, -⟩ := TableHistory.of_replay (k := k) (Option.some_get _).symm
  obtain ⟨after, hafter, -⟩ := TableHistory.of_replay (k := k') (Option.some_get _).symm
  have hparked : sent.1 = .parked := by decide +kernel
  have hsend : Kernel.sendQueued ⟨0x401⟩ ⟨0x400⟩ m k = .done .parked sent.2 :=
    Outcome.result?_eq_some ((Option.some_get _).symm.trans (congrArg some (Prod.ext hparked rfl)))
  have hfair : (TableOp.sendQueued ⟨0x401⟩ ⟨0x400⟩ m).Fair k := by decide +kernel
  have hempty : (k'.envs.find? ⟨0x401⟩).map Env.outbox = some none := by decide +kernel
  obtain ⟨p, hp, -, hleft, -⟩ := parked_message_settles rfl hpast hfair hsend hafter
  refine ⟨past, k, sent.2, after, k', p, hpast, hsend, hafter, congrArg Message.value hp, hleft.resolve_left ?_,
    by decide +kernel, by decide +kernel⟩
  rintro ⟨⟨e, hf, ho⟩, -⟩
  rw [hf, Option.map_some, ho] at hempty
  cases hempty

end Exokernel
