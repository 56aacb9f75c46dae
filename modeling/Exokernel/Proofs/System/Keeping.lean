import Exokernel.Proofs.Post.Passage
import Exokernel.Proofs.System.Demands

/-!
# Delivered messages are kept

Polled and queued operations share one mailbox and one flag. A mailbox changes when a delivery finds its owner
receiving, and when the owner asks for a message itself; the flag is raised by the owner alone. So a message that was
delivered stays until the owner asks again, whatever is done by the others in between.
-/

set_option autoImplicit false

namespace Exokernel

open Env (Id Kind Status Message Parcel Mailbox)
open Env.Table

/-- How `calls` may change the mailbox of `id`. -/
inductive Mailed (calls : Id → Call → Prop) (t : Env.Table) (id : Id) (b : Mailbox) : Mailbox → Prop
  | kept : Mailed calls t id b b
  /-- Somebody sends, and finds `id` receiving. -/
  | delivered {sender target : Id} {call : Call} {msg : Message} {perm : PageFlags} : calls sender call →
      call.message? = some (target, msg) → (if target.isSelf then sender else target) = id → b.receiving = true →
      perm = msg.perm ∨ perm = .empty →
      Mailed calls t id b { b with receiving := false, sender, value := msg.value, perm }
  /-- The owner asks, and waits. -/
  | asked {call : Call} {dstva : Word} : calls id call → call.receives? = some dstva →
      Mailed calls t id b { b with receiving := true, dstva }
  /-- The owner fetches what waits for it. -/
  | fetched {sender : Id} {p : Parcel} {dstva : Word} {perm : PageFlags} : calls id (.receiveQueued dstva) →
      t.Holds sender p → p.target = id → perm = p.perm ∨ perm = .empty →
      Mailed calls t id b { receiving := false, dstva, value := p.value, sender, perm }

variable {n : Nat} {calls calls' : Id → Call → Prop} {c cpu : Cpu} {caller id j sender target : Id} {call : Call}
  {live : Context} {k k' k₀ : Kernel} {r : Demand} {e e' x y : Env} {t t' t'' : Env.Table} {m m' : Memory}
  {b b' : Mailbox} {dstva : Word} {perm : PageFlags} {msg : Message} {past : List (Kernel × Demand)}

namespace Mailed

theorem mono (h : Mailed calls t id b b') (hcalls : ∀ caller call, calls caller call → calls' caller call)
    (ht : ∀ s p, t.Holds s p → t'.Holds s p) : Mailed calls' t' id b b' := by
  cases h with
  | kept => exact .kept
  | delivered hcall hmsg htarget hr hperm => exact .delivered (hcalls _ _ hcall) hmsg htarget hr hperm
  | asked hcall hr => exact .asked (hcalls _ _ hcall) hr
  | fetched hcall hp htarget hperm => exact .fetched (hcalls _ _ hcall) (ht _ _ hp) htarget hperm

theorem eq_of_idle (h : Mailed calls t id b b') (hb : b.receiving = false)
    (hno : ∀ call, calls id call → call.receives? = none) : b' = b := by
  cases h with
  | kept => rfl
  | delivered _ _ _ hr _ => cases hb.symm.trans hr
  | asked hcall hr => cases (hno _ hcall).symm.trans hr
  | fetched hcall _ _ _ => cases hno _ hcall

end Mailed

def Mails (calls : Id → Call → Prop) (t t' : Env.Table) : Prop :=
  ∀ id e e', t.find? id = some e → t'.find? id = some e' → Mailed calls t id e.mailbox e'.mailbox

section tables

theorem Env.Table.Eased.mails (h : t.Eased none t') : Mails calls t t' := by
  intro id e e' he he'
  obtain ⟨x, hx, -, hbox⟩ := h id e' he'
  obtain rfl := find?_unique he hx
  rw [hbox (by simp)]
  exact .kept

theorem Mails.after (h : Mails calls t t') (hs : t'.Eased none t'') : Mails calls t t'' := by
  intro id e e'' he he''
  obtain ⟨e', he', -, hbox⟩ := hs id e'' he''
  rw [hbox (by simp)]
  exact h id e e' he he'

theorem Mails.before (h : Mails calls t' t'') (ht : Touched t t') (hs : t.Eased none t') : Mails calls t t'' := by
  intro id e e'' he he''
  obtain ⟨e', he', -⟩ := ht.find? he
  obtain ⟨x, hx, -, hbox⟩ := hs id e' he'
  obtain rfl := find?_unique he hx
  have hmailed := h id e' e'' he' he''
  rw [hbox (by simp)] at hmailed
  exact hmailed.mono (fun _ _ h => h) fun _ _ hp => hp.of_eased hs

theorem Mails.update {f : Env → Env} (h : Mails calls t t') (htitle : ∀ e, e.isFree = false → (f e).title = e.title)
    (hf : ∀ e x, t.find? id = some e → t'.find? id = some x → Mailed calls t id e.mailbox (f x).mailbox) :
    Mails calls t (t'.update id f) := by
  intro j e e' he he'
  rw [find?_update htitle] at he'
  split at he'
  · next hj =>
    subst hj
    obtain ⟨x, hx, rfl⟩ := Option.map_eq_some_iff.mp he'
    exact hf e x he hx
  · exact h j e e' he he'

theorem Mails.touch {f : Env → Env} (h : Mails calls t t') (htitle : ∀ e, e.isFree = false → (f e).title = e.title)
    (hf : ∀ e, (f e).mailbox = e.mailbox) : Mails calls t (t'.update id f) :=
  h.update htitle fun e x he hx => (hf x).symm ▸ h id e x he hx

theorem mails_refl : Mails calls t t := (Eased.refl t none).mails

theorem mails_occupy {index : Nat} {parent : Id} {kind : Kind} {space : Handle} (ht : t.Sound)
    (hfree : t.freeHead = some index) : Mails calls t (t.occupy index parent kind space).2 := by
  intro id e e' he he'
  rw [find?_occupy ht hfree, if_neg] at he'
  · obtain rfl := find?_unique he he'
    exact .kept
  · rintro rfl
    rw [find?_occupy_fresh ht hfree] at he
    cases he

end tables

namespace Kernel

theorem handed_perm (h : Handed t m sender e msg perm m') : perm = msg.perm ∨ perm = .empty := by
  cases h with
  | bare => exact .inr rfl
  | page ho => exact .inl (validateSource_some (ho { envs := t, memory := m, current := #[] } rfl rfl)).1

end Kernel

section effect

/-- What a call does to mailboxes. -/
theorem Effect.mails (ht : t.Sound) (h : Effect cpu caller t m call t' m') (hcall : calls caller call) :
    Mails calls t t' := by
  have hscan : ∀ {dstva}, call = .receiveQueued dstva → Mails calls t (t.update caller (Env.scanning dstva)) := by
    rintro dstva rfl
    exact mails_refl.update (fun _ _ => rfl) fun e x he hx => find?_unique he hx ▸ .asked hcall rfl
  cases h with
  | quiet => exact mails_refl
  | marked => exact mails_refl.touch Env.title_dying fun _ => rfl
  | freed hd => exact (eased_released hd.spec.1).mails
  | forked _ hfree _ => exact (mails_occupy ht hfree).touch Env.title_suspended fun _ => rfl
  | reset _ hs _ =>
    exact mails_refl.touch (fun _ hf => Env.title_of_live rfl rfl rfl (fun h => hs (.inl h)) hf) fun _ => rfl
  | allocated => exact mails_refl
  | mapped => exact mails_refl
  | unmapped => exact mails_refl
  | entered => exact mails_refl.touch (fun _ _ => rfl) fun _ => rfl
  | sent hmsg hl hr hh =>
    refine (mails_refl.update Kernel.title_delivered fun e x he hx => ?_).touch Env.title_runnable fun _ => rfl
    obtain ⟨htarget, hf⟩ := lookup_unchecked.mp hl
    obtain rfl := find?_unique hf he
    obtain rfl := find?_unique hf hx
    exact .delivered hcall hmsg htarget hr (Kernel.handed_perm hh)
  | parked => exact (mails_refl.touch Env.title_owed fun _ => rfl).touch Env.title_parked fun _ => rfl
  | blocked hr =>
    exact mails_refl.update Kernel.title_blocking fun e x he hx => find?_unique he hx ▸ .asked hcall hr
  | starved hf =>
    refine ((hscan rfl).after hf.eased).update Kernel.title_blocking fun e x he hx => ?_
    have hbox := Kernel.mailbox_scanning hf.eased he hx
    rw [Kernel.blocking, hbox]
    exact .asked hcall rfl
  | @fetched dstva sender _ _ hf =>
    obtain @⟨t₁, m₁, _, y, _, p, perm, hfailed, hs, ho, htarget, _, hh⟩ := hf
    have heased : (t.update caller (Env.scanning dstva)).Eased none (t₁.relieved caller sender) :=
      hfailed.eased.trans eased_relieved
    refine (((hscan rfl).after heased).update Kernel.title_delivered fun e x he hx => ?_).after eased_woken
    have hbox := Kernel.mailbox_scanning heased he hx
    rw [Kernel.delivered, hbox]
    have hholds : t.Holds sender p := Holds.of_eased (Holds.of_eased ⟨_, hs, ho⟩ hfailed.eased) Kernel.eased_scanning
    exact .fetched hcall hholds htarget (Kernel.handed_perm hh)

end effect

section demand

theorem Served.mails (ht : t.Sound) (hf : t.find? e.id = some e) (h : Served c e t m t' m')
    (hcalls : ∀ call, e.context.call? = some call → calls e.id call) : Mails calls t t' := by
  cases h with
  | ticked => exact mails_refl
  | answered => exact eased_context.mails
  | upcalled => exact eased_context.mails
  | killed => exact (eased_released hf).mails
  | called g hcall he => exact (he.mails ht (hcalls _ hcall)).after eased_context

theorem Handled.mails (ht : k.envs.Sound) (h : Handled c live k t' m') :
    Mails ((Demand.step (.trap c live)).Calls k) k.envs t' := by
  cases h with
  | vacant => exact mails_refl
  | reclaimed hr => exact (eased_released (Kernel.runningOn_spec hr).1).mails
  | @served e _ _ hr hs hserved =>
    have htouched : Touched k.envs (k.saved e.id live).envs := touched_context
    have hcalls : ∀ call, live.call? = some call → (Demand.step (.trap c live)).Calls k e.id call :=
      fun _ hcall => .trapped hr hs hcall
    have hsaved : (k.saved e.id live).envs.find? e.id = some { e with context := live } :=
      Kernel.find?_saved (Kernel.runningOn_spec hr).1
    exact (hserved.mails (htouched.sound ht) hsaved hcalls).before htouched eased_context

theorem Upshot.mails (ht : k.envs.Sound) (h : Upshot k r t' m') : Mails (r.Calls k) k.envs t' := by
  cases h with
  | still => exact mails_refl
  | armed => exact mails_refl
  | trapped hd => exact hd.mails ht
  | created hfree _ => exact mails_occupy ht hfree
  | loaded => exact mails_refl
  | entered => exact eased_context.mails
  | freed hf => exact (eased_released hf).mails
  | reset hs => exact mails_refl.touch (fun _ hf => Env.title_of_live rfl rfl rfl hs hf) fun _ => rfl
  | stored => exact mails_refl
  | called hd he => exact he.mails ht (.asked hd)

theorem Passed.eased {exit : Exit} (ht : k.envs.Sound) (h : Passed c k exit k') : k.envs.Eased none k'.envs := by
  intro j e' he'
  obtain ⟨e, he, -⟩ := h.touched.find?_inv he'
  obtain ⟨status, runs, cpu, hf, -⟩ := h.find? ht he
  obtain rfl := find?_unique hf he'
  exact ⟨e, he, .inl rfl, fun _ => rfl⟩

theorem Kernel.Leaves.eased (ht : k.envs.Sound) (h : k.Leaves k') : k.envs.Eased none k'.envs := by
  obtain ⟨k₁, ⟨hsame, -⟩, h⟩ := h
  rw [← hsame] at ht ⊢
  rcases h with rfl | ⟨c, exit, h⟩
  · exact .refl _ _
  · exact h.eased ht

theorem Demand.mails (hp : Proper n k.envs k.memory) (ha : r.Allowed k) (hr : r.run k = .ok k') :
    Mails (r.Calls k) k.envs k'.envs := by
  obtain ⟨k₁, hd, hl⟩ := r.does hp ha hr
  exact (hd.mails hp.intact.table).after (hl.eased (hd.proper hp).intact.table)

end demand

def Unasking (id : Id) (past : List (Kernel × Demand)) : Prop :=
  ∀ x ∈ past, (∃ e, x.1.envs.find? id = some e) ∧ ∀ call, x.2.Calls x.1 id call → call.receives? = none

theorem Kernel.History.mailbox (hp : Proper n k₀.envs k₀.memory) (h : History k₀ past k) (hpast : Unasking id past)
    (he : k₀.envs.find? id = some e) (hb : e.mailbox.receiving = false) (he' : k.envs.find? id = some e') :
    e'.mailbox = e.mailbox := by
  induction h generalizing e' with
  | start =>
    obtain rfl := find?_unique he he'
    rfl
  | demand hpast' ha hr ih =>
    obtain ⟨⟨⟨x, hx⟩, hno⟩, hrest⟩ := List.forall_mem_cons.mp hpast
    have hbox := ih hrest hx
    have hmailed := Demand.mails (hpast'.proper hp) ha hr id x e' hx he'
    rw [hmailed.eq_of_idle (by rw [hbox, hb]) hno, hbox]

/-- In every reachable state a mailbox changes only by a delivery that finds its owner receiving, and by the owner's
own receive. So a message stays, whatever the others do, until its owner asks again or is gone. -/
theorem delivered_message_stays (hk : k.Reachable) :
    (∀ (r : Demand) k', r.Allowed k → r.run k = .ok k' →
      ∀ id e e', k.envs.find? id = some e → k'.envs.find? id = some e' →
        Mailed (r.Calls k) k.envs id e.mailbox e'.mailbox) ∧
      ∀ past k', k.History past k' → ∀ id e e', k.envs.find? id = some e → e.mailbox.receiving = false →
        Unasking id past → k'.envs.find? id = some e' → e'.mailbox = e.mailbox := by
  obtain ⟨n, hp⟩ := hk.proper
  refine ⟨fun r k' ha hr => Demand.mails hp ha hr, fun past k' h id e e' he hb hpast he' => ?_⟩
  exact h.mailbox hp hpast he hb he'

namespace Kernel

def telling (number value : Word) : Demand :=
  .call .standard ⟨0⟩ ⟨0x401⟩ number #v[0x402, value, UInt64.ofNat utop, 0, 0]

def told : Kernel := (telling 12 7).next (asking.next pair)

end Kernel

/-- After the delivery one more message is refused and one more is parked; the first one is still there. -/
theorem delivered_message_stays_racing : ∃ past k' e e', Kernel.told.Reachable ∧ Kernel.told.History past k' ∧
    past.map Prod.snd = [Kernel.telling 14 9, Kernel.telling 12 8] ∧ Kernel.told.envs.find? ⟨0x402⟩ = some e ∧
    e.mailbox.receiving = false ∧ e.mailbox.value = 7 ∧ Unasking ⟨0x402⟩ past ∧
    k'.envs.find? ⟨0x402⟩ = some e' ∧ e'.waiting = 1 ∧ e'.mailbox = e.mailbox := by
  have hcaller : ∀ (k : Kernel) (number value : Word), (k.envs.find? ⟨0x401⟩).isSome = true →
      (Kernel.telling number value).Allowed k := fun _ _ _ h => Option.isSome_iff_exists.mp h
  have hasked := Kernel.reachable_pair.next (r := Kernel.asking)
    (Option.isSome_iff_exists.mp (by decide +kernel)) (by decide +kernel)
  have htold : Kernel.told.Reachable := hasked.next (hcaller _ 12 7 (by decide +kernel)) (by decide +kernel)
  have hstart : Kernel.told.History [] Kernel.told := .start
  have hrefused := hstart.next (hcaller _ 12 8 (by decide +kernel)) (by decide +kernel)
  have hpast := hrefused.next (hcaller _ 14 9 (by decide +kernel)) (by decide +kernel)
  have hsilent : ∀ (k : Kernel) number value call, ¬(Kernel.telling number value).Calls k ⟨0x402⟩ call := by
    intro k number value call h
    generalize hid : (⟨0x402⟩ : Id) = j at h
    cases h
    exact absurd hid (by decide)
  have hunasking : Unasking ⟨0x402⟩ [((Kernel.telling 12 8).next Kernel.told, Kernel.telling 14 9),
      (Kernel.told, Kernel.telling 12 8)] := by
    refine List.forall_mem_cons.mpr ⟨⟨Option.isSome_iff_exists.mp (by decide +kernel), fun call h => ?_⟩,
      List.forall_mem_singleton.mpr ⟨Option.isSome_iff_exists.mp (by decide +kernel), fun call h => ?_⟩⟩
    · exact absurd h (hsilent _ _ _ call)
    · exact absurd h (hsilent _ _ _ call)
  obtain ⟨e, he⟩ := Option.isSome_iff_exists.mp
    (show (Kernel.told.envs.find? ⟨0x402⟩).isSome = true by decide +kernel)
  obtain ⟨e', he'⟩ := Option.isSome_iff_exists.mp
    (show (((Kernel.telling 14 9).next ((Kernel.telling 12 8).next Kernel.told)).envs.find? ⟨0x402⟩).isSome = true by
      decide +kernel)
  have hbox : (Kernel.told.envs.mailbox? ⟨0x402⟩).map (fun b => (b.receiving, b.value)) = some (false, 7) := by
    decide +kernel
  have hwaiting : (((Kernel.telling 14 9).next ((Kernel.telling 12 8).next Kernel.told)).envs.find? ⟨0x402⟩).map
      Env.waiting = some 1 := by decide +kernel
  rw [mailbox?, he] at hbox
  rw [he'] at hwaiting
  obtain ⟨hreceiving, hvalue⟩ := Prod.mk.inj (Option.some.inj hbox)
  exact ⟨_, _, e, e', htold, hpast, rfl, he, hreceiving, hvalue, hunasking, he', Option.some.inj hwaiting,
    (delivered_message_stays htold).2 _ _ hpast _ e e' he hreceiving hunasking he'⟩

end Exokernel
