import Exokernel.Proofs.Post.Agreement
import Exokernel.Proofs.System.Keeping

/-!
# What the delivered permission tells

A message is delivered by a polled send, by a queued send that finds its target receiving, or by a queued receive that
fetches it. All of them come down to one transfer, after which the receiver reads the permission that the sender named
if a page was mapped for it, and the empty one otherwise.
-/

set_option autoImplicit false

namespace Exokernel

open Env (Id Message Parcel Mailbox)
open Env.Table

namespace Kernel

variable {n : Nat} {k k' : Kernel} {s r target : Id} {R : Env} {msg : Message} {p : Parcel} {dstva : Word} {start : Nat}
  {perm : PageFlags} {m m₁ m' : Memory}

inductive Delivery (k : Kernel) (s r : Id) : Message → Word → Kernel → Prop
  | polled {target : Id} {msg : Message} {R : Env} {k' : Kernel} :
      k.envs.resolve target (some s) false = .ok r → k.envs.find? r = some R → trySend s target msg k = .done () k' →
      Delivery k s r msg R.mailbox.dstva k'
  | sent {target : Id} {msg : Message} {R : Env} {k' : Kernel} :
      k.envs.resolve target (some s) false = .ok r → k.envs.find? r = some R →
      sendQueued s target msg k = .done .delivered k' → Delivery k s r msg R.mailbox.dstva k'
  | fetched {p : Parcel} {dstva : Word} {start : Nat} {k' : Kernel} : k.envs.Holds s p →
      receiveQueued r dstva start k = .done (.received s) k' → Delivery k s r p.toMessage dstva k'

def MapsPage (m : Memory) (space : Option Handle) (dstva : Word) (m' : Memory) : Prop :=
  ∃ m₁ own frame flags, m.Spent m₁ ∧ space = some own ∧ Memory.insert own frame dstva.toNat flags m₁ = .done () m'

def GetsPage (k : Kernel) (r : Id) (dstva : Word) (k' : Kernel) : Prop :=
  ∃ R, k.envs.find? r = some R ∧ MapsPage k.memory R.space dstva k'.memory

inductive Grants (m : Memory) (msg : Message) (space : Option Handle) (dstva : Word) (m' : Memory) : PageFlags → Prop
  | page : WantsPage msg dstva → MapsPage m space dstva m' → Grants m msg space dstva m' msg.perm
  | bare : ¬WantsPage msg dstva → ¬MapsPage m space dstva m' → Grants m msg space dstva m' .empty

theorem Handed.grants {t : Env.Table} (hp : Proper n t m) (hm : m.Spent m₁) (h : Handed t m₁ s R msg perm m') :
    Grants m msg R.space R.mailbox.dstva m' perm := by
  cases h with
  | bare ho hbare =>
    refine .bare ((offer_wanted (ho { envs := t, memory := m₁, current := #[] } rfl rfl)).mp hbare) ?_
    rintro ⟨m₂, own, frame, flags, hm₂, -, hi⟩
    exact Memory.insert_not_spent hp.intact.memory hp.clear hm₂ hm hi
  | page ho hd hspace hi =>
    have hv := ho { envs := t, memory := m₁, current := #[] } rfl rfl
    rw [(validateSource_some hv).1] at hi ⊢
    exact .page (wantsPage_of_offer hv hd) ⟨m₁, _, _, _, hm, hspace, hi⟩

section sends

variable (h : k.envs.resolve target (some s) false = .ok r)
include h

theorem trySend_inv (hd : trySend s target msg k = .done () k') : ∃ k₁, transfer s r msg k = .done () k₁ ∧
    k' = { k₁ with envs := k₁.envs.update r fun e => { e with status := .runnable } } := by
  obtain ⟨hdone, R, hR⟩ := resolveTarget_resolved h
  rw [trySend, Action.bind_done hdone, Action.state_bind] at hd
  obtain ⟨offer, -, hd⟩ := Action.lift_bind_inv hd
  rw [readEnv_mapError_bind _ hR] at hd
  split at hd
  · cases hd
  · obtain ⟨u, k₁, ht, hd⟩ := Action.bind_inv hd
    cases hd
    exact ⟨k₁, ht, rfl⟩

/-- So is a queued send that delivers. -/
theorem sendQueued_inv (hd : sendQueued s target msg k = .done .delivered k') : ∃ k₁,
    transfer s r msg k = .done () k₁ ∧
      k' = { k₁ with envs := k₁.envs.update r fun e => { e with status := .runnable } } := by
  obtain ⟨hdone, R, hR⟩ := resolveTarget_resolved h
  rw [sendQueued, Action.bind_done hdone] at hd
  split at hd
  · cases hd
  · dsimp only at hd
    rw [Action.state_bind] at hd
    obtain ⟨offer, -, hd⟩ := Action.lift_bind_inv hd
    rw [readEnv_mapError_bind _ hR] at hd
    split at hd
    · obtain ⟨u, k₁, ht, hd⟩ := Action.bind_inv hd
      cases hd
      exact ⟨k₁, ht, rfl⟩
    -- The caller is parked.
    · obtain ⟨u, k₁, -, hd⟩ := Action.bind_inv hd
      obtain ⟨e, k₂, -, hd⟩ := Action.bind_inv hd
      cases hd

end sends

/-- A queued receive that gets a message has scanned for it. -/
theorem receiveQueued_inv (hd : receiveQueued r dstva start k = .done (.received s) k') : ∃ R,
    k.envs.find? r = some R ∧ fetchFrom r start k.envs.capacity 0
      { k with envs := k.envs.update r (Env.scanning dstva) } = .done (some s) k' := by
  cases hR : k.envs.find? r with
  | none =>
    rw [receiveQueued] at hd
    obtain ⟨u, -, hd⟩ := Action.lift_bind_inv hd
    rw [readEnv_mapError_bind_none _ hR] at hd
    cases hd
  | some R =>
    refine ⟨R, rfl, ?_⟩
    cases hv : validateDestination dstva with
    | error cause =>
      rw [receiveQueued, hv, Action.lift_error_bind] at hd
      cases hd
    | ok u =>
      rcases Nat.eq_zero_or_pos R.waiting with hw | hw
      · rw [receiveQueued_blocks hv hR hw] at hd
        cases hd
      · rw [receiveQueued_scans hv hR hw] at hd
        obtain ⟨found, k₁, hscan, hd⟩ := Action.bind_inv hd
        cases found with
        | none =>
          obtain ⟨u, k₂, -, hd⟩ := Action.bind_inv hd
          cases hd
        | some sender =>
          cases hd
          exact hscan

section delivery

variable (hp : Proper n k.envs k.memory)
include hp

theorem transfer_grants {k₁ : Kernel} (hR : k.envs.find? r = some R) (ht : transfer s r msg k = .done () k₁) :
    ∃ box, k₁.envs.mailbox? r = some box ∧ Grants k.memory msg R.space R.mailbox.dstva k₁.memory box.perm := by
  obtain ⟨receiver, perm, m, j, hr, hh, rfl⟩ := (transfer_effect s r msg hp).of_done ht
  cases find?_unique hR hr
  refine ⟨(delivered s msg.value perm R).mailbox, ?_, hh.grants hp (.refl _)⟩
  rw [mailbox?, find?_update_self title_delivered hR, Option.map_some]

theorem receiveQueued_grants (hs : k.envs.Holds s p) (hd : receiveQueued r dstva start k = .done (.received s) k') :
    ∃ R box, k.envs.find? r = some R ∧ k'.envs.mailbox? r = some box ∧
      Grants k.memory p.toMessage R.space dstva k'.memory box.perm := by
  obtain ⟨R, hR, hscan⟩ := receiveQueued_inv hd
  have hp₀ : Proper n (k.envs.update r (Env.scanning dstva)) k.memory := hp.touched touched_scanning
  have hstart : Scans r { k with envs := k.envs.update r (Env.scanning dstva) } none
      { k with envs := k.envs.update r (Env.scanning dstva) } := ⟨_, _, ⟨k.journal, rfl⟩, .none⟩
  obtain ⟨t', m', ⟨j, rfl⟩, hf⟩ := (fetchFrom_scans r start _ 0 hp₀ hstart).of_done hscan
  obtain @⟨t, m, _, S, receiver, q, perm, hfailed, hS, ho, -, hr, hh⟩ := hf
  -- The message that is fetched is the one that waited before the scan.
  have hq : k.envs.Holds s q := Holds.of_eased (Holds.of_eased ⟨S, hS, ho⟩ hfailed.eased) eased_scanning
  obtain rfl := hs.unique hq
  have htouched : Touched k.envs (t.relieved r s) := touched_scanning.trans (hfailed.touched.trans touched_relieved)
  obtain ⟨R', hR', htitle⟩ := htouched.find? hR
  cases find?_unique hr hR'
  have hbox := mailbox_scanning (hfailed.eased.trans eased_relieved) hR hr
  have hgrants := hh.grants (hp.touched htouched) hfailed.spent
  rw [(Env.title_eq.mp htitle).2.1, hbox] at hgrants
  refine ⟨R, (delivered s p.value perm receiver).mailbox, hR, ?_, hgrants⟩
  rw [Env.Table.woken, mailbox?_update Env.title_woken fun _ => rfl, mailbox?, find?_update_self title_delivered hr,
    Option.map_some]

theorem Delivery.grants (h : Delivery k s r msg dstva k') : ∃ R box, k.envs.find? r = some R ∧
    k'.envs.mailbox? r = some box ∧ Grants k.memory msg R.space dstva k'.memory box.perm := by
  have hwoken : ∀ {k₁ : Kernel} {box : Mailbox}, k₁.envs.mailbox? r = some box →
      (k₁.envs.update r fun e => { e with status := .runnable }).mailbox? r = some box := fun hbox =>
    (mailbox?_update Env.title_runnable fun _ => rfl).trans hbox
  cases h with
  | polled h hR hd =>
    obtain ⟨k₁, ht, rfl⟩ := trySend_inv h hd
    obtain ⟨box, hbox, hgrants⟩ := transfer_grants hp hR ht
    exact ⟨_, box, hR, hwoken hbox, hgrants⟩
  | sent h hR hd =>
    obtain ⟨k₁, ht, rfl⟩ := sendQueued_inv h hd
    obtain ⟨box, hbox, hgrants⟩ := transfer_grants hp hR ht
    exact ⟨_, box, hR, hwoken hbox, hgrants⟩
  | fetched hs hd => exact receiveQueued_grants hp hs hd

end delivery

theorem Delivery.tells (hp : Proper n k.envs k.memory) (h : Delivery k s r msg dstva k') : ∃ box,
    k'.envs.mailbox? r = some box ∧ (WantsPage msg dstva ∧ GetsPage k r dstva k' ∧ box.perm = msg.perm ∨
      ¬WantsPage msg dstva ∧ ¬GetsPage k r dstva k' ∧ box.perm = .empty) := by
  obtain ⟨R, box, hR, hbox, hgrants⟩ := h.grants hp
  refine ⟨box, hbox, ?_⟩
  generalize box.perm = perm at hgrants
  cases hgrants with
  | page hw hm => exact .inl ⟨hw, ⟨R, hR, hm⟩, rfl⟩
  | bare hw hm =>
    refine .inr ⟨hw, ?_, rfl⟩
    rintro ⟨R', hR', hm'⟩
    exact hm (find?_unique hR hR' ▸ hm')

/-- What a receiver reads of a message is the permission that the sender named, if a page was mapped for it by this
delivery. It is empty if no page was mapped, and otherwise only if the sender named the empty permission. -/
theorem delivered_perm_tells (hk : k.Reachable) (h : Delivery k s r msg dstva k') : ∃ box,
    k'.envs.mailbox? r = some box ∧ (GetsPage k r dstva k' → box.perm = msg.perm) ∧
      (box.perm = .empty ↔ ¬GetsPage k r dstva k' ∨ msg.perm = .empty) := by
  obtain ⟨n, hp⟩ := hk.proper
  obtain ⟨box, hbox, ⟨-, hgets, hperm⟩ | ⟨-, hgets, hperm⟩⟩ := h.tells hp
  · exact ⟨box, hbox, fun _ => hperm, by simp [hgets, hperm]⟩
  · exact ⟨box, hbox, fun hgets' => absurd hgets' hgets, by simp [hgets, hperm]⟩

theorem delivery_replaceable {perm : PageFlags} (hperm : perm = PageFlags.user ∨ perm = .empty) : ∃ k',
    Delivery replaceable ⟨0x401⟩ ⟨0x402⟩ { value := 7, srcva := 0x200000, perm } 0x300000 k' := by
  let R := (replaceable.envs.find? ⟨0x402⟩).get (by decide +kernel)
  have hR : replaceable.envs.find? ⟨0x402⟩ = some R := (Option.some_get _).symm
  have hdone : (trySend ⟨0x401⟩ ⟨0x402⟩ { value := 7, srcva := 0x200000, perm } replaceable).result?.isSome = true := by
    rcases hperm with rfl | rfl
    · decide +kernel
    · decide +kernel
  obtain ⟨⟨u, k'⟩, hk'⟩ := Option.isSome_iff_exists.mp hdone
  have hdstva : R.mailbox.dstva = 0x300000 := by decide +kernel
  exact ⟨k', hdstva ▸ .polled resolve_replaceable hR (Outcome.result?_eq_some hk')⟩

theorem delivered_perm_tells_replacing : ∃ k' box, replaceable.Reachable ∧
    Delivery replaceable ⟨0x401⟩ ⟨0x402⟩ { value := 7, srcva := 0x200000, perm := PageFlags.user } 0x300000 k' ∧
    k'.envs.mailbox? ⟨0x402⟩ = some box ∧ GetsPage replaceable ⟨0x402⟩ 0x300000 k' ∧ box.perm = PageFlags.user := by
  obtain ⟨k', h⟩ := delivery_replaceable (.inl rfl)
  obtain ⟨n, hp⟩ := reachable_replaceable.proper
  obtain ⟨box, hbox, hgiven, -⟩ := delivered_perm_tells reachable_replaceable h
  obtain ⟨-, -, ⟨-, hgets, -⟩ | ⟨hw, -⟩⟩ := h.tells hp
  · exact ⟨k', box, reachable_replaceable, h, hbox, hgets, hgiven hgets⟩
  · exact absurd (by decide) hw

/-- A page that is sent with the empty permission is mapped all the same. -/
theorem empty_perm_with_page : ¬∀ (k k' : Kernel) (s r : Id) (msg : Message) (dstva : Word) (box : Mailbox),
    k.Reachable → Delivery k s r msg dstva k' → k'.envs.mailbox? r = some box →
      (box.perm = .empty ↔ ¬GetsPage k r dstva k') := by
  intro hall
  obtain ⟨k', h⟩ := delivery_replaceable (.inr rfl)
  obtain ⟨n, hp⟩ := reachable_replaceable.proper
  obtain ⟨box, hbox, ⟨-, hgets, hperm⟩ | ⟨hw, -⟩⟩ := h.tells hp
  · exact (hall _ _ _ _ _ _ _ reachable_replaceable h hbox).mp hperm hgets
  · exact absurd (by decide) hw

end Kernel

end Exokernel
