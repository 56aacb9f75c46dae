import Exokernel.Proofs.Syscall.Sharing
import Exokernel.Proofs.System.Demands

/-!
# Environments that a call does not concern

A call concerns its caller and the children of its caller. Everybody else stays who it is, with the same memory, and
meets the caller in messages only: it receives one that it asked for, or its own is fetched or given up. Nobody but
the receiver of a page finds other entries in its address space, and nobody finds other bytes in a frame.
-/

set_option autoImplicit false

namespace Exokernel

open Env (Id Kind Status Message Parcel)
open Env.Table

structure Received (caller : Id) (e e' : Env) : Prop where
  receiving : e.mailbox.receiving = true
  status : e'.status = .runnable
  mailbox : ∃ value perm, e'.mailbox = { e.mailbox with receiving := false, sender := caller, value, perm }
  context : e'.context = e.context
  outbox : e'.outbox = e.outbox

structure Woken (caller : Id) (t t' : Env.Table) (e e' : Env) : Prop where
  parked : ∃ p, e.outbox = some p ∧
    (p.target = caller ∨ (∃ x, t.find? p.target = some x) ∧ t'.find? p.target = none)
  status : e'.status = .runnable
  context : ∃ answer, e'.context = e.context.setAnswer answer
  mailbox : e'.mailbox = e.mailbox
  outbox : e'.outbox = none

/-- `e` before a call of `caller`, which does not concern it, and `e'` after it. -/
structure Isolated (caller : Id) (k k' : Kernel) (e e' : Env) : Prop where
  identity : e'.id = e.id ∧ e'.parent = e.parent ∧ e'.kind = e.kind ∧ e'.upcall = e.upcall ∧ e'.runs = e.runs
  place : e'.space = e.space ∧ e'.cpu = e.cpu
  messages : (e'.status = e.status ∧ e'.context = e.context ∧ e'.mailbox = e.mailbox ∧ e'.outbox = e.outbox) ∨
    Received caller e e' ∨ Woken caller k.envs k'.envs e e'
  /-- The caller parked on `e`, or somebody who was parked on `e` is gone. -/
  waiting : e'.waiting = e.waiting ∨
    e'.waiting = e.waiting + 1 ∧
      (∃ y p, k'.envs.find? caller = some y ∧ y.outbox = some p ∧ p.target = e.id) ∨
    e'.waiting = e.waiting - 1 ∧
      ∃ id x p, k.envs.find? id = some x ∧ k'.envs.find? id = none ∧ x.outbox = some p ∧ p.target = e.id
  /-- A page of the caller was delivered where `e` wanted it, or the entry is as it was. -/
  mappings : ∀ h va, e.space = some h → k'.memory.mapping? h va = k.memory.mapping? h va ∨
    e.mailbox.receiving = true ∧ pageBase va = e.mailbox.dstva.toNat ∧
      ∃ y hy srcva entry flags, k.envs.find? caller = some y ∧ y.space = some hy ∧
        k.memory.mapping? hy srcva = some entry ∧ k'.memory.mapping? h va = some { frame := entry.frame, flags }
  bytes : ∀ h va entry, e.space = some h → k'.memory.mapping? h va = some entry →
    k'.memory.frames.page entry.frame = k.memory.frames.page entry.frame
  /-- The bytes of an entry that was replaced, unless it was the last one of its frame. -/
  bytesBefore : ∀ h va entry, e.space = some h → k.memory.mapping? h va = some entry →
    k'.memory.frames.used entry.frame = true →
    k'.memory.frames.page entry.frame = k.memory.frames.page entry.frame

variable {n : Nat} {cpu : Cpu} {caller id j : Id} {call : Call} {t t' : Env.Table} {m m' : Memory} {k k' : Kernel}
  {c e e' : Env} {h : Handle} {va : Nat}

theorem isolated_of_untouched (hu : k.Untouched k') : Isolated caller k k' e e := by
  obtain ⟨m, cycles, rfl, hm, -⟩ := hu
  exact ⟨⟨rfl, rfl, rfl, rfl, rfl⟩, ⟨rfl, rfl⟩, .inl ⟨rfl, rfl, rfl, rfl⟩, .inl rfl,
    fun h va _ => .inl (hm.mapping? h va), fun _ _ entry _ _ => hm.page entry.frame,
    fun _ _ entry _ _ _ => hm.page entry.frame⟩

/-- The entries of a space whose owner is neither the caller nor a child of it. -/
theorem Remade.mapping? (va : Nat) (hi : Intact n t m) (hr : Remade t m caller call t' m') (hf : t.find? j = some e)
    (hj : j ≠ caller) (hparent : e.parent ≠ caller) (hs : e.space = some h) :
    m'.mapping? h va = m.mapping? h va ∨ e.mailbox.receiving = true ∧ pageBase va = e.mailbox.dstva.toNat ∧
      ∃ y hy srcva entry flags, t.find? caller = some y ∧ y.space = some hy ∧ m.mapping? hy srcva = some entry ∧
        m'.mapping? h va = some { frame := entry.frame, flags } := by
  have hother : ∀ d : Env, t.find? d.id = some d → d.id = caller ∨ d.parent = caller → d.space ≠ some h := by
    intro d hd hor hds
    obtain rfl := hi.owner_unique hf hd hs hds
    exact hor.elim (fun hid => hj ((id_of_find? hf).symm.trans hid)) hparent
  cases hr with
  | kept _ hm => exact .inl (hm h va)
  | unmade hd hds _ hm =>
    have hne : h ≠ _ := fun heq => hother _ hd.spec.1 hd.spec.2 (heq ▸ hds)
    exact .inl ((hm h va).trans (if_neg hne))
  | remapped hd hor hds _ hm =>
    have hne : h ≠ _ := fun heq => hother _ hd hor (heq ▸ hds)
    exact .inl ((hm.mapping h va).trans (if_neg fun hc => hne hc.1))
  | @delivered _ _ _ receiver _ hd _ _ _ hl hrecv _ hsf hss hentry _ hds hm =>
    by_cases hc : h = hd ∧ pageBase va = receiver.mailbox.dstva.toNat
    · obtain ⟨rfl, hva⟩ := hc
      obtain rfl := hi.owner_unique hf (lookup_found hl) hs hds
      exact .inr ⟨hrecv, hva, _, _, _, _, _, hsf, hss, hentry, (hm.mapping h va).trans (if_pos ⟨rfl, hva⟩)⟩
    · exact .inl ((hm.mapping h va).trans (if_neg hc))

theorem Awaited.cases {act : Option (Id × Call)} {waiting : Nat} (h : Awaited act t t' e waiting)
    (hact : act = some (caller, call)) : waiting = e.waiting ∨
      waiting = e.waiting + 1 ∧ (∃ y p, t'.find? caller = some y ∧ y.outbox = some p ∧ p.target = e.id) ∨
      waiting = e.waiting - 1 ∧
        ∃ id x p, t.find? id = some x ∧ t'.find? id = none ∧ x.outbox = some p ∧ p.target = e.id := by
  cases h with
  | same => exact .inl rfl
  | more h _ hy ho =>
    cases h.symm.trans hact
    exact .inr (.inl ⟨rfl, _, _, hy, ho, rfl⟩)
  | less hx hgone ho ht => exact .inr (.inr ⟨rfl, _, _, _, hx, hgone, ho, ht⟩)

theorem Answers.cases {target : Id} (h : Answers (some (caller, call)) t t' target) :
    target = caller ∨ (∃ x, t.find? target = some x) ∧ t'.find? target = none := by
  rcases h with ⟨dstva, h⟩ | h
  · cases h
    exact .inl rfl
  · exact .inr h

theorem Effect.isolated (hp : Proper n k.envs k.memory) (hc : k.envs.find? caller = some c)
    (h : Effect cpu caller k.envs k.memory call k'.envs k'.memory) (hf : k.envs.find? j = some e) (hj : j ≠ caller)
    (hparent : e.parent ≠ caller) : ∃ e', k'.envs.find? j = some e' ∧ Isolated caller k k' e e' := by
  have hr := h.remade hp hc
  have hp' := h.proper hp
  have hmap : ∀ h va, e.space = some h → _ := fun h va hs => hr.mapping? va hp.intact hf hj hparent hs
  have hbytes : ∀ h va entry, e.space = some h → k'.memory.mapping? h va = some entry →
      k'.memory.frames.page entry.frame = k.memory.frames.page entry.frame := by
    intro h va entry hs hm
    have hused : k.memory.frames.used entry.frame = true := by
      rcases hmap h va hs with hsame | ⟨-, -, y, hy, srcva, old, flags, -, -, hold, hnew⟩
      · exact hp.intact.memory.used_of_mapping? (hsame.symm.trans hm)
      · cases hm.symm.trans hnew
        have hu := hp.intact.memory.used_of_mapping? hold
        exact hu
    exact hr.steady.page hused (hp'.intact.memory.used_of_mapping? hm)
  have hbefore : ∀ h va entry, e.space = some h → k.memory.mapping? h va = some entry →
      k'.memory.frames.used entry.frame = true →
      k'.memory.frames.page entry.frame = k.memory.frames.page entry.frame := fun h va entry _ hm hu =>
    hr.steady.page (hp.intact.memory.used_of_mapping? hm) hu
  rcases h.bystander hp hc hf hj with ⟨e', he', hb⟩ | ⟨hchild, -⟩
  · refine ⟨e', he', ?_⟩
    cases hb with
    | left hcount =>
      exact ⟨⟨rfl, rfl, rfl, rfl, rfl⟩, ⟨rfl, rfl⟩, .inl ⟨rfl, rfl, rfl, rfl⟩, hcount.cases rfl, hmap, hbytes, hbefore⟩
    | delivered perm hact _ _ hrecv =>
      cases hact
      exact ⟨⟨rfl, rfl, rfl, rfl, rfl⟩, ⟨rfl, rfl⟩, .inr (.inl ⟨hrecv, rfl, ⟨_, perm, rfl⟩, rfl, rfl⟩), .inl rfl, hmap,
        hbytes, hbefore⟩
    | woken answer ho ha hcount =>
      exact ⟨⟨rfl, rfl, rfl, rfl, rfl⟩, ⟨rfl, rfl⟩,
        .inr (.inr ⟨⟨_, ho, ha.cases⟩, rfl, ⟨answer, rfl⟩, rfl, rfl⟩), hcount.cases rfl, hmap, hbytes, hbefore⟩
  · exact absurd hchild hparent

namespace Kernel

/-- A live environment that is neither the caller nor a child of it stays live, and is left to itself, whatever call
the caller makes with whatever number and arguments. Only a count of waiting senders that has no room for one more
stops a call from ending. -/
theorem call_isolates (table : CallTable) (cpu : Cpu) (number : Word) (a : Arguments) (hk : k.Reachable)
    (hc : k.envs.find? caller = some c) :
    (∀ k' j e, (callSystem table cpu caller number a k).after = .ok k' → k.envs.find? j = some e → j ≠ caller →
        e.parent ≠ caller → ∃ e', k'.envs.find? j = some e' ∧ Isolated caller k k' e e') ∧
      ∀ p, (callSystem table cpu caller number a k).after = .error p →
        ∃ call, table.decode number a = .ok call ∧ Overcounts k.envs caller p call := by
  obtain ⟨n, hp⟩ := hk.proper
  cases hd : callSystem table cpu caller number a k with
  | done reply k₁ =>
    refine ⟨fun k' j e hk' hf hj hparent => ?_, fun p hp => nomatch hp⟩
    cases hk'
    obtain ⟨call, -, he⟩ := (callSystem_effect table number a hp hc).of_done hd
    exact he.isolated hp hc hf hj hparent
  | refused cause k₁ =>
    refine ⟨fun k' j e hk' hf hj hparent => ?_, fun p hp => nomatch hp⟩
    cases hk'
    have hu := (callSystem_effect table number a hp hc).of_refused hd
    have he : k₁.envs = k.envs := by
      obtain ⟨m, cycles, rfl, -⟩ := hu
      rfl
    exact ⟨e, he ▸ hf, isolated_of_untouched hu⟩
  | halted p =>
    refine ⟨fun k' j e hk' => (nomatch hk'), fun p' hp' => ?_⟩
    cases hp'
    exact (callSystem_effect table number a hp hc).of_halted hd

def introduced : Kernel :=
  asking.next
    ((Demand.step (.load ⟨0x401⟩ 0x200000 (PageFlags.present ||| PageFlags.writable ||| PageFlags.user))).next pair)

theorem reachable_introduced : introduced.Reachable := by
  have h := reachable_pair.next (r := .step (.load ⟨0x401⟩ 0x200000
    (PageFlags.present ||| PageFlags.writable ||| PageFlags.user))) trivial (by decide +kernel)
  exact h.next (Option.isSome_iff_exists.mp (by decide +kernel)) (by decide +kernel)

def offering : Outcome Kernel CallError Reply :=
  callSystem .standard ⟨0⟩ ⟨0x401⟩ 12 #v[0x402, 7, 0x200000, 5, 0] introduced

theorem call_isolates_delivery : ∃ c e k' e', introduced.envs.find? ⟨0x401⟩ = some c ∧
    introduced.envs.find? ⟨0x402⟩ = some e ∧ e.parent ≠ ⟨0x401⟩ ∧ offering.after = .ok k' ∧
    k'.envs.find? ⟨0x402⟩ = some e' ∧ e.mailbox.receiving = true ∧ e'.mailbox.receiving = false ∧
    Isolated ⟨0x401⟩ introduced k' e e' := by
  obtain ⟨c, hc⟩ := Option.isSome_iff_exists.mp
    (show (introduced.envs.find? ⟨0x401⟩).isSome = true by decide +kernel)
  obtain ⟨e, he⟩ := Option.isSome_iff_exists.mp
    (show (introduced.envs.find? ⟨0x402⟩).isSome = true by decide +kernel)
  have hbefore : (introduced.envs.find? ⟨0x402⟩).map (fun e => (e.parent, e.mailbox.receiving)) =
      some (.self, true) := by decide +kernel
  have hafter : offering.after.toOption.map
      (fun k => (k.envs.find? ⟨0x402⟩).map fun e => e.mailbox.receiving) = some (some false) := by decide +kernel
  rw [he] at hbefore
  obtain ⟨hparent, hrecv⟩ := Prod.mk.inj (Option.some.inj hbefore)
  cases hd : offering.after with
  | error p =>
    rw [hd] at hafter
    cases hafter
  | ok k' =>
    have hne : e.parent ≠ ⟨0x401⟩ := by
      rw [hparent]
      decide
    obtain ⟨e', he', hi⟩ := (call_isolates .standard ⟨0⟩ 12 #v[0x402, 7, 0x200000, 5, 0] reachable_introduced hc).1
      k' ⟨0x402⟩ e hd he (by decide) hne
    rw [hd] at hafter
    have hrecv' : (k'.envs.find? ⟨0x402⟩).map (fun e => e.mailbox.receiving) = some false := Option.some.inj hafter
    rw [he'] at hrecv'
    exact ⟨c, e, k', e', hc, he, hne, rfl, he', hrecv, Option.some.inj hrecv', hi⟩

end Kernel

end Exokernel
