import Exokernel.Proofs.Post.Exact
import Exokernel.Proofs.Post.Turnover

/-!
# Counts of waiting senders along a history

Every operation, and every fetch of a queued receive, keeps the counts exact. They never run out of room, and each
message that is withdrawn or taken over is taken off a count that had it.
-/

set_option autoImplicit false

namespace Exokernel

open Env (Id Kind Status Message Parcel)
open Env.Table

theorem Env.dues_of_post {e e' : Env} (h : e'.post = e.post) : e'.dues = e.dues := by
  obtain ⟨ht, -, hw, ho⟩ := Env.post_eq.mp h
  exact Env.dues_eq.mpr ⟨ht, hw, ho⟩

namespace SamePost

variable {t t' : Env.Table}

theorem dues (h : SamePost t t') (i : Nat) : (t'.slot? i).map Env.dues = (t.slot? i).map Env.dues :=
  Env.map_of_map (fun _ _ he => Env.dues_of_post he) (h.posts i)

theorem exact (h : SamePost t t') (hx : t.Exact) : t'.Exact := hx.same h.dues

end SamePost

theorem Env.Table.Sound.released {t : Env.Table} {id : Id} {e : Env} (ht : t.Sound) (hf : t.find? id = some e) :
    (t.released id e).Sound := by
  have htouch := touched_settled t id e.outbox
  obtain ⟨e', hf', -⟩ := htouch.find? hf
  exact (htouch.sound ht).vacate hf'

namespace Kernel

variable {k k₁ k' : Kernel} {caller : Env.Id} {dstva : Word} {index start done : Nat} {r : Option Env.Id}

/-- Whether the transfer goes through or not, a fetch keeps the counts exact. -/
theorem fetch_exact (ht : k.envs.Sound) (hx : k.envs.Exact) (h : fetch caller index k = .done r k') :
    k'.envs.Exact := by
  rcases (fetch_turnover caller index ht).of_done h with ⟨-, rfl⟩ | ⟨sender, e, p, hf, ho, hp, hr⟩
  · exact hx
  · have hrelieved := hx.relieved hf ho hp
    cases r with
    | none =>
      obtain ⟨cause, _, -, he⟩ := hr
      rw [he]
      exact hrelieved.woken
    | some s =>
      obtain ⟨-, perm, he⟩ := hr
      have hdelivered : ((k.envs.relieved caller sender).update caller (delivered sender p.value perm)).Exact :=
        hrelieved.touch fun _ _ => rfl
      rw [he]
      exact hdelivered.woken

theorem Amid.exact (ht : k.envs.Sound) (hx : k.envs.Exact) (h : Amid caller dstva start k done k₁) : k₁.envs.Exact := by
  induction h with
  | opened => exact hx.touch fun _ _ => rfl
  | fetched hamid _ _ hfetch ih => exact fetch_exact ((hamid.touched ht).sound ht) ih hfetch

end Kernel

namespace Turnover

variable {k k' : Kernel} {op : TableOp}

theorem exact_blocking {t : Env.Table} {caller : Id} {dstva : Word} (hx : t.Exact) :
    (t.update caller (Kernel.blocking dstva)).Exact :=
  hx.touch fun _ hf => Env.dues_eq.mpr ⟨Kernel.title_blocking _ hf, rfl, rfl⟩

theorem sound_blocking {t : Env.Table} {caller : Id} {dstva : Word} (ht : t.Sound) :
    (t.update caller (Kernel.blocking dstva)).Sound := (touched_update Kernel.title_blocking).sound ht

theorem sound (h : Turnover k op k') (ht : k.envs.Sound) : k'.envs.Sound := by
  cases h with
  | aside h => exact h.touched.sound ht
  | allocated hfree he => exact he ▸ ht.occupy hfree
  | released _ hf he => exact he ▸ ht.released hf
  | delivered _ _ h => exact h.touched.sound (Kernel.touched_delivered.sound ht)
  | parked _ _ _ _ _ he =>
    rw [he]
    exact (touched_update Env.title_parked).sound ((touched_update Env.title_owed).sound ht)
  | blocked he => exact he ▸ sound_blocking ht
  | starved _ _ hk he =>
    rw [he]
    rcases hk with ⟨rfl, -⟩ | hk
    · exact sound_blocking ht
    · exact sound_blocking ((hk.touched ht).sound ht)
  | fetched _ hk hfetch =>
    have hs := (hk.touched ht).sound ht
    exact (Kernel.fetch_touched hs hfetch).sound hs

theorem exact (h : Turnover k op k') (ht : k.envs.Sound) (hx : k.envs.Exact) : k'.envs.Exact := by
  cases h with
  | aside h => exact h.exact hx
  | allocated hfree he => exact he ▸ hx.occupy ht hfree
  | released _ hf he => exact he ▸ hx.released hf
  | delivered _ _ h => exact h.exact (hx.touch fun _ _ => rfl)
  | parked _ hl hne hf ho he => exact he ▸ hx.owe _ hf ho (lookup_found hl) hne
  | blocked he => exact he ▸ exact_blocking hx
  | starved _ _ hk he =>
    rw [he]
    rcases hk with ⟨rfl, -⟩ | hk
    · exact exact_blocking hx
    · exact exact_blocking (hk.exact ht hx)
  | fetched _ hk hfetch => exact Kernel.fetch_exact ((hk.touched ht).sound ht) (hk.exact ht hx) hfetch

end Turnover

theorem TableHistory.counted {k₀ k : Kernel} {past : List (Kernel × TableOp)} (h : TableHistory k₀ past k)
    (h₀ : k₀.envs.Sound ∧ k₀.envs.Exact) : k.envs.Sound ∧ k.envs.Exact := by
  induction h with
  | start => exact h₀
  | step _ htakes ih =>
    have ht := htakes.turnover ih.1
    exact ⟨ht.sound ih.1, ht.exact ih.1 ih.2⟩

theorem counted_ofCapacity (slots : Nat) : (ofCapacity slots).Sound ∧ (ofCapacity slots).Exact :=
  ⟨sound_ofCapacity slots, exact_ofCapacity slots⟩

theorem Env.Table.mem_toList {t : Env.Table} {e : Env} : e ∈ t.toList ↔ ∃ i, t.slot? i = some e ∧ e.isFree = false := by
  simp [Env.Table.toList, Env.Table.slot?, Array.mem_iff_getElem?]

theorem Env.Table.exact_of_toList {t : Env.Table} (h : ∀ e ∈ t.toList, e.waiting = t.parkedCount e.id ∧
    e.outbox.all (fun p => p.target != e.id && (t.find? p.target).isSome) = true) : t.Exact := by
  have hlist : ∀ id e, t.find? id = some e → e ∈ t.toList := fun id e hf =>
    mem_toList.mpr ⟨id.index, slot?_of_find? hf, live_of_find? hf⟩
  refine ⟨fun id e hf => ?_, fun id e p hf ho => ?_⟩
  · rw [(h e (hlist id e hf)).1, id_of_find? hf]
  · have hp := (h e (hlist id e hf)).2
    rw [ho, Option.all_some, Bool.and_eq_true, bne_iff_ne, id_of_find? hf] at hp
    exact ⟨hp.1, Option.isSome_iff_exists.mp hp.2⟩

theorem Env.Table.parkedCount_eq_length (t : Env.Table) (id : Id) :
    t.parkedCount id = (t.toList.filter fun s => s.outbox.any fun p => p.target == id).length := by
  rw [parkedCount, tally, Env.Table.toList]
  induction t.slots.toList with
  | nil => rfl
  | cons e l ih =>
    rw [List.map_cons, List.sum_cons, ih, List.filter_cons]
    cases hf : e.isFree with
    | true => simp [Env.isParkedOn, hf]
    | false =>
      cases hp : e.outbox.any fun p => p.target == id with
      | true => simp [Env.isParkedOn, hf, hp, Nat.add_comm]
      | false => simp [Env.isParkedOn, hf, hp]

/-- Whatever is asked of the table and its messages, and at every moment of a queued receive, a live environment counts
just the live environments that are parked on it, with room for one more; and whoever is parked waits for somebody
else who is live and has counted it, so that there is always something to take off. -/
theorem waiting_counts_exact {slots : Nat} {k₀ k k₁ : Kernel} {past : List (Kernel × TableOp)} {caller : Id}
    {dstva : Word} {start done : Nat} (he : k₀.envs = .ofCapacity slots) (h : TableHistory k₀ past k)
    (hk : k₁ = k ∨ k.Amid caller dstva start done k₁) :
    ∀ e ∈ k₁.envs.toList,
      e.waiting = (k₁.envs.toList.filter fun s => s.outbox.any fun p => p.target == e.id).length ∧
      e.waiting + 1 < countLimit ∧
      ∀ p, e.outbox = some p → p.target ≠ e.id ∧ ∃ x, k₁.envs.find? p.target = some x ∧ 0 < x.waiting := by
  obtain ⟨ht, hx⟩ := h.counted (he ▸ counted_ofCapacity slots)
  obtain ⟨ht₁, hx₁⟩ : k₁.envs.Sound ∧ k₁.envs.Exact := by
    rcases hk with rfl | hk
    · exact ⟨ht, hx⟩
    · exact ⟨(hk.touched ht).sound ht, hk.exact ht hx⟩
  intro e hm
  obtain ⟨i, hs, hl⟩ := Env.Table.mem_toList.mp hm
  have hf := ht₁.find?_of_slot? hs hl
  refine ⟨?_, hx₁.room ht₁ hf, fun p hp => hx₁.counted_for hf hp⟩
  rw [hx₁.count e.id e hf, Env.Table.parkedCount_eq_length]

def threeSlots : Kernel where
  envs := .ofCapacity 3
  memory := .ofFrames 8
  current := #[]
  journal := { limit := .error }

def twoParked : List TableOp :=
  [.edit (.remove ⟨1⟩ 0x1000),
    .sendQueued ⟨0x402⟩ ⟨0x400⟩ { value := 7, srcva := .ofNat utop, perm := .empty },
    .sendQueued ⟨0x401⟩ ⟨0x400⟩ { value := 5, srcva := 0x1000, perm := .user },
    .edit (.allocPage ⟨1⟩ 0x1000 (.present ||| .user)),
    .allocate .self .user, .allocate .self .user, .allocate .self .user]

/-- The receive rejects the first message and goes on with the second one still counted. -/
theorem waiting_counts_exact_amid :
    ∃ past k k₁, TableHistory threeSlots past k ∧ k.Amid ⟨0x400⟩ 0 1 1 k₁ ∧
      (k.envs.find? ⟨0x400⟩).map Env.waiting = some 2 ∧ (k₁.envs.find? ⟨0x400⟩).map Env.waiting = some 1 ∧
      ∀ e ∈ k₁.envs.toList,
        e.waiting = (k₁.envs.toList.filter fun s => s.outbox.any fun p => p.target == e.id).length := by
  let k := (TableOp.replay threeSlots twoParked).get (by decide +kernel)
  obtain ⟨past, hpast, -⟩ := TableHistory.of_replay (k := k) (Option.some_get _).symm
  have hreceiver : (k.envs.find? ⟨0x400⟩).map Env.waiting = some 2 := by decide +kernel
  obtain ⟨e, hf, hw⟩ := Option.map_eq_some_iff.mp hreceiver
  let k' : Kernel := { k with envs := k.envs.update ⟨0x400⟩ (Env.scanning 0) }
  have hopen : k.Amid ⟨0x400⟩ 0 1 0 k' := .opened hf (by omega)
  have hreject : ((Kernel.fetch ⟨0x400⟩ ((1 + 0) % k'.envs.capacity) k').result?.any
      fun r => r.1 = none ∧ (r.2.envs.find? ⟨0x400⟩).map Env.waiting = some 1) = true := by decide +kernel
  obtain ⟨⟨r, k₁⟩, hr, hk₁⟩ := (Option.any_eq_true _ _).mp hreject
  obtain ⟨rfl, hleft⟩ := of_decide_eq_true hk₁
  have hamid : k.Amid ⟨0x400⟩ 0 1 1 k₁ := hopen.fetched (by decide +kernel) (by decide) (Outcome.result?_eq_some hr)
  exact ⟨past, k, k₁, hpast, hamid, hreceiver, hleft, fun e hm => (waiting_counts_exact rfl hpast (.inr hamid) e hm).1⟩

end Exokernel
