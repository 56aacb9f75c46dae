import Exokernel.Proofs.Post.Passage

/-!
# What calls do to memory

A call leaves all mappings alone, or takes a space away, or maps or unmaps a single page. A page that is mapped is a
blank one in a frame that nobody used, or it is shared: its frame is mapped already, in the space of the environment
that the call takes it from, and it becomes writable only if it is writable there. A page that comes with a message
is taken from the sender that the receiver reads afterwards.
-/

set_option autoImplicit false

namespace Exokernel

open Env (Id Kind Status Message Parcel Mailbox)
open Env.Table

def Env.Table.Heard (t : Env.Table) (id sender : Id) : Prop :=
  ∃ e, t.find? id = some e ∧ e.mailbox.receiving = false ∧ e.mailbox.sender = sender

/-- From where a call takes a page, and where it puts it: an environment and an address each. A mapping has a source
and a destination. A message has a receiver, and the sender that the receiver finds in its mailbox when the call has
left `t'`. -/
inductive Shares (t t' : Env.Table) (caller : Id) : Call → Id → Nat → Id → Nat → Prop
  | mapping {src dst : Id} {srcva dstva : Word} {perm : PageFlags} {s d : Env} :
      t.lookup src (some caller) true = .ok s → t.lookup dst (some caller) true = .ok d →
      Shares t t' caller (.mapPage src srcva dst dstva perm) s.id srcva.toNat d.id dstva.toNat
  | message {call : Call} {target : Id} {msg : Message} {receiver : Env} : call.message? = some (target, msg) →
      t.lookup target (some caller) false = .ok receiver → receiver.mailbox.receiving = true →
      t'.Heard receiver.id caller →
      Shares t t' caller call caller msg.srcva.toNat receiver.id receiver.mailbox.dstva.toNat
  | parked {dstva : Word} {sender : Id} {p : Parcel} : t.Holds sender p → p.target = caller →
      t'.Heard caller sender →
      Shares t t' caller (.receiveQueued dstva) sender p.srcva.toNat caller dstva.toNat

inductive Origin (t : Env.Table) (m : Memory) (caller : Id) (call : Call) (t' : Env.Table) (dest : Id) (dstva : Nat) :
    Option Mapping → Prop
  | none : Origin t m caller call t' dest dstva none
  | blank {frame : FrameId} (flags : PageFlags) : m.frames.used frame = false →
      Origin t m caller call t' dest dstva (some { frame, flags })
  | shared {source : Id} {va : Nat} {e : Env} {h : Handle} {entry : Mapping} {flags : PageFlags} :
      Shares t t' caller call source va dest dstva → t.find? source = some e → e.space = some h →
      m.mapping? h va = some entry →
      (flags.contains PageFlags.writable = true → entry.flags.contains PageFlags.writable = true) →
      Origin t m caller call t' dest dstva (some { frame := entry.frame, flags })

inductive Remade (t : Env.Table) (m : Memory) (caller : Id) (call : Call) (t' : Env.Table) (m' : Memory) : Prop
  | kept : m.Steady m' → (∀ i w, m'.mapping? i w = m.mapping? i w) → Remade t m caller call t' m'
  | unmade {e : Env} {h : Handle} : Destroys t caller e call → e.space = some h → m.Steady m' →
      (∀ i w, m'.mapping? i w = if i = h then none else m.mapping? i w) → Remade t m caller call t' m'
  | remapped {e : Env} {h : Handle} {va : Nat} {new : Option Mapping} : t.find? e.id = some e →
      e.id = caller ∨ e.parent = caller → e.space = some h → Origin t m caller call t' e.id va new →
      m.Remapped m' h va new → Remade t m caller call t' m'
  | delivered {target : Id} {msg : Message} {s receiver : Env} {h hd : Handle} {entry : Mapping} {flags : PageFlags} :
      call.message? = some (target, msg) → t.lookup target (some caller) false = .ok receiver →
      receiver.mailbox.receiving = true → t'.Heard receiver.id caller → t.find? caller = some s → s.space = some h →
      m.mapping? h msg.srcva.toNat = some entry →
      (flags.contains PageFlags.writable = true → entry.flags.contains PageFlags.writable = true) →
      receiver.space = some hd →
      m.Remapped m' hd receiver.mailbox.dstva.toNat (some { frame := entry.frame, flags }) →
      Remade t m caller call t' m'

variable {n : Nat} {cpu : Cpu} {caller sender id j : Id} {call : Call} {t t' : Env.Table} {m m' : Memory}
  {e receiver : Env} {msg : Message} {perm flags : PageFlags} {dest : Id} {dstva : Nat}

theorem heard_delivered {value : Word} (hf : t.find? id = some e) :
    (t.update id (Kernel.delivered sender value perm)).Heard id sender :=
  ⟨_, find?_update_self Kernel.title_delivered hf, rfl, rfl⟩

theorem Env.Table.Heard.eased (h : t.Heard id sender) (ht : Touched t t') (he : t.Eased none t') :
    t'.Heard id sender := by
  obtain ⟨e, hf, hr, hs⟩ := h
  obtain ⟨e', hf', -⟩ := ht.find? hf
  obtain ⟨x, hx, -, hbox⟩ := he id e' hf'
  obtain rfl := find?_unique hf hx
  exact ⟨e', hf', (congrArg Mailbox.receiving (hbox (by simp))).trans hr,
    (congrArg Mailbox.sender (hbox (by simp))).trans hs⟩

theorem Remade.steady (h : Remade t m caller call t' m') : m.Steady m' := by
  cases h with
  | kept hs _ => exact hs
  | unmade _ _ hs _ => exact hs
  | remapped _ _ _ _ hr => exact hr.steady
  | delivered _ _ _ _ _ _ _ _ _ hr => exact hr.steady

theorem remade_of_spent (h : m.Spent m') : Remade t m caller call t' m' := .kept h.steady h.mapping?

theorem Origin.spent {m₀ : Memory} {new : Option Mapping} (hs : m₀.Spent m)
    (h : Origin t m caller call t' dest dstva new) : Origin t m₀ caller call t' dest dstva new := by
  cases h with
  | none => exact .none
  | blank flags hu => exact .blank flags ((hs.used _).symm.trans hu)
  | shared hshare hf hspace he hw => exact .shared hshare hf hspace ((hs.mapping? _ _).symm.trans he) hw

namespace Kernel

theorem writable_delivered (h : (perm ||| PageFlags.present ||| PageFlags.user).contains PageFlags.writable = true) :
    perm.contains PageFlags.writable = true := by
  rw [Flags.contains_or_of_disjoint (by decide), Flags.contains_or_of_disjoint (by decide)] at h
  exact h

/-- A message hands over no page, or shares one that its sender has mapped. -/
theorem Handed.cases (hp : Proper n t m) (h : Handed t m sender receiver msg perm m') :
    m' = m ∨ ∃ space e h entry flags, receiver.space = some space ∧ t.find? sender = some e ∧ e.space = some h ∧
      m.mapping? h msg.srcva.toNat = some entry ∧
      (flags.contains PageFlags.writable = true → entry.flags.contains PageFlags.writable = true) ∧
      m.Remapped m' space receiver.mailbox.dstva.toNat (some { frame := entry.frame, flags }) := by
  cases h with
  | bare => exact .inl rfl
  | @page offer space _ ho _ hs hd =>
    have hv := ho { envs := t, memory := m, current := #[] } rfl rfl
    obtain ⟨hperm, e, h, hf, he, hentry, hw⟩ := validateSource_some hv
    have hremap := (Memory.insert_effect space _ _ _ hp.intact.memory.pool hp.clear).of_done hd
    refine .inr ⟨space, e, h, offer.mapping, _, hs, hf, he, hentry, fun hflags => hw ?_, hremap⟩
    rw [← hperm]
    exact writable_delivered hflags

end Kernel

/-- A scan for parked senders shares a page of the sender that it ends with, if any. -/
theorem Kernel.Fetched.remade {dstva : Word} (hp : Proper n t m) (hc : t.find? caller = some e)
    (h : Fetched caller (t.update caller (Env.scanning dstva)) m sender t' m') :
    Remade t m caller (.receiveQueued dstva) t' m' := by
  have hp₁ : Proper n (t.update caller (Env.scanning dstva)) m := hp.touched touched_scanning
  obtain @⟨t₁, m₁, _, y, receiver, p, perm, hf, hs, ho, htarget, hr, hh⟩ := h
  have hspent := hf.spent
  have htouch := touched_scanning.trans hf.touched
  rcases hh.cases ((hf.proper hp₁).touched touched_relieved) with rfl | ⟨space, e₁, hd, entry, flags, hspace, he₁, hd₁,
    hentry, hw, hm⟩
  · exact remade_of_spent hspent
  · -- The receiver is the caller, and the sender was parked and owned its space before the scan.
    obtain ⟨y, hy, htitle⟩ := (htouch.trans touched_relieved).find?_inv hr
    obtain rfl := find?_unique hc hy
    obtain ⟨s, hsf, hstitle⟩ := (htouch.trans touched_relieved).find?_inv he₁
    have hholds : t.Holds sender p := Holds.of_eased (Holds.of_eased ⟨_, hs, ho⟩ hf.eased) eased_scanning
    have hheard : ((t₁.relieved caller sender).update caller (delivered sender p.value perm)).Heard caller sender :=
      heard_delivered hr
    have hbox := mailbox_scanning (hf.eased.trans eased_relieved) hc hr
    rw [hbox] at hm
    obtain rfl := id_of_find? hc
    refine .remapped hc (.inl rfl) ((Env.title_eq.mp htitle).2.1.symm.trans hspace) ?_ (hm.spent_left hspent)
    refine Origin.spent hspent (.shared (.parked hholds htarget ?_) hsf ?_ hentry hw)
    · exact hheard.eased (touched_update Env.title_woken) eased_woken
    · exact (Env.title_eq.mp hstitle).2.1.symm.trans hd₁

/-- What a call leaves of memory, whatever the call. -/
theorem Effect.remade (hp : Proper n t m) (hc : t.find? caller = some e) (h : Effect cpu caller t m call t' m') :
    Remade t m caller call t' m' := by
  have hself : ∀ {t'}, Remade t m caller call t' m := remade_of_spent (.refl m)
  cases h with
  | quiet => exact hself
  | marked => exact hself
  | freed hd _ hs hm =>
    obtain ⟨hmap, hshrunk, -⟩ := (Memory.destroy_effect _ hp.clear).of_done hm
    exact .unmade hd hs (Memory.steady_of_shrunk hshrunk) hmap
  | forked _ _ hm =>
    obtain ⟨hmap, hgrown, -⟩ := (Memory.create_effect hp.intact.memory.pool hp.clear).of_done hm
    exact .kept (Memory.steady_of_grown hgrown) hmap
  | reset => exact hself
  | @allocated id va perm y h m' hl hs hm =>
    obtain ⟨frame, hu, hr⟩ := (Memory.allocPage_effect h va.toNat perm hp.intact.memory hp.clear).of_done hm
    exact .remapped (lookup_spec hl).1 (lookup_spec hl).2 hs (.blank perm hu) hr
  | mapped hls hld hs hd hentry hw hm =>
    have hr := (Memory.insert_effect _ _ _ _ hp.intact.memory.pool hp.clear).of_done hm
    exact .remapped (lookup_spec hld).1 (lookup_spec hld).2 hd
      (.shared (.mapping hls hld) (lookup_spec hls).1 hs hentry hw) hr
  | unmapped hl hs hm =>
    have hr := (Memory.remove_effect _ _ hp.intact.memory hp.clear).of_done hm
    exact .remapped (lookup_spec hl).1 (lookup_spec hl).2 hs .none hr
  | entered => exact hself
  | sent hcall hl hr hh =>
    rcases hh.cases hp with rfl | ⟨space, s, h, entry, flags, hspace, hf, hs, hentry, hw, hm⟩
    · exact hself
    · refine .delivered hcall hl hr ?_ hf hs hentry hw hspace hm
      exact (heard_delivered (lookup_found hl)).eased (touched_update Env.title_runnable)
        (eased_update Env.title_runnable (fun _ => .inl rfl) fun _ _ => rfl)
  | parked => exact hself
  | blocked => exact hself
  | starved hf => exact remade_of_spent hf.spent
  | fetched hf => exact hf.remade hp hc

end Exokernel
