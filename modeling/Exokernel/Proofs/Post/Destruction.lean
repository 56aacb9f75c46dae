import Exokernel.Proofs.Memory.Returning
import Exokernel.Proofs.Post.Scanning
import Exokernel.Proofs.System.Demands

/-!
# Destruction from end to end

An environment that is freed may have a message waiting with another one, and any number of others may wait for it. All
of this is settled in one revision of the table, whoever they are, before its slot is vacated and its space is given
back. What the kernel is left with is given in full.
-/

set_option autoImplicit false

namespace Exokernel

open Env (Id Kind Status Parcel)
open Env.Table

namespace Env

variable {e y : Env} {id : Id}

def relieving (e y : Env) : Env :=
  if e.outbox.any (fun p => p.target == y.id) then { y with waiting := y.waiting - 1 } else y

def withdrawing (e y : Env) : Env := if y.id = e.id then { y with outbox := none } else e.relieving y

def parting (e y : Env) : Env := (e.relieving y).unparkFrom e.id

theorem title_relieving (e y : Env) : (e.relieving y).title = y.title := by
  unfold relieving
  split <;> rfl

theorem outbox_relieving (e y : Env) : (e.relieving y).outbox = y.outbox := by
  unfold relieving
  split <;> rfl

theorem isParkedOn_relieving (e y : Env) (id : Id) : (e.relieving y).isParkedOn id = y.isParkedOn id := by
  rw [isParkedOn, isParkedOn, outbox_relieving, (title_eq.mp (title_relieving e y)).2.2.1]

theorem title_withdrawing (e y : Env) : (e.withdrawing y).title = y.title := by
  unfold withdrawing
  split
  · rfl
  · exact title_relieving e y

theorem title_settling (id : Id) (e y : Env) : ((e.withdrawing y).unparkFrom id).title = y.title :=
  (title_unparkFrom id _).trans (title_withdrawing e y)

theorem withdrawing_self (e : Env) (id : Id) : (e.withdrawing e).unparkFrom id = { e with outbox := none } := by
  rw [withdrawing, if_pos rfl, unparkFrom, if_neg (by simp [isParkedOn])]

theorem parting_parked (hp : y.isParkedOn e.id = true) : e.parting y =
    { y with
      status := .runnable
      context := y.context.setAnswer ErrorCode.badEnvironment.toWord
      outbox := none
      waiting := (e.relieving y).waiting } := by
  rw [parting, unparkFrom, isParkedOn_relieving, if_pos hp]
  unfold relieving
  split <;> rfl

theorem waiting_parting (e y : Env) : (e.parting y).waiting = (e.relieving y).waiting := waiting_unparkFrom e.id _

theorem parting_unrelated (hp : y.isParkedOn e.id = false) (ho : ∀ p, e.outbox = some p → p.target ≠ y.id) :
    e.parting y = y := by
  have hsame : e.relieving y = y := by
    rw [relieving, if_neg]
    rw [Option.any_eq_true]
    rintro ⟨p, hp, ht⟩
    exact ho p hp (by simpa using ht)
  rw [parting, hsame, unparkFrom, if_neg (by simp [hp])]

end Env

namespace Env.Table

variable {t : Table} {id : Id} {e : Env} {i : Nat}

/-- A withdrawal revises the one who makes it and its target. -/
theorem withdrawn_eq (ht : t.Indexed) (hx : t.Exact) (hf : t.find? id = some e) :
    t.withdrawn id e.outbox = t.revise e.withdrawing := by
  have hid := id_of_find? hf
  cases ho : e.outbox with
  | none =>
    refine ((revise_congr fun i y hs hl => ?_).trans (revise_self t)).symm
    unfold Env.withdrawing
    split
    · next hy =>
      have hye : y = e := find?_unique (ht.find?_of_slot? hs hl) (hy ▸ hid ▸ hf)
      rw [hye, ← ho]
    · simp [Env.relieving, ho]
  | some p =>
    have hne := (hx.counted_for hf ho).1
    have hrelieved : t.withdrawn id (some p) = t.relieved p.target id := rfl
    rw [hrelieved, relieved_eq ht hne.symm]
    refine revise_congr fun _ y _ _ => ?_
    rw [Env.withdrawing, hid]
    by_cases hy : y.id = id
    · rw [if_pos hy, if_pos hy, if_neg fun h => hne (h.symm.trans hy)]
    · rw [if_neg hy, if_neg hy]
      by_cases htarget : y.id = p.target
      · simp [Env.relieving, ho, htarget]
      · rw [if_neg htarget, Env.relieving, ho, if_neg]
        simpa using Ne.symm htarget

theorem unparkAll_eq : t.unparkAll id = t.revise (Env.unparkFrom id) := by
  refine ext_slot? (fun i => ?_) rfl rfl
  rw [slot?_unparkAll, slot?_revise]
  congr 1
  funext y
  split
  · next hl => rw [Env.unparkFrom, if_neg (by simp [Env.isParkedOn, hl])]
  · rfl

theorem settledFor_eq (ht : t.Indexed) (hx : t.Exact) (hf : t.find? id = some e) :
    t.settledFor id = t.revise (Env.unparkFrom id) ∧ t.wokenFor id = t.parkedOn id := by
  rw [settledFor, wokenFor]
  split
  · exact ⟨unparkAll_eq, rfl⟩
  · next hw =>
    refine ⟨((revise_congr fun i y hs hl => ?_).trans (revise_self t)).symm, ?_⟩
    · rw [Env.unparkFrom, if_neg (by simp [hx.not_parkedOn hw (ht.find?_of_slot? hs hl)])]
    · rw [hf, Option.map_some, Option.getD_some, hx.waiting_eq_length hf] at hw
      exact (List.eq_nil_of_length_eq_zero (Nat.eq_zero_of_not_pos hw)).symm

/-- The withdrawal of the message and the waking of those who wait are one revision. -/
theorem settled_eq (ht : t.Indexed) (hx : t.Exact) (hf : t.find? id = some e) :
    (t.withdrawn id e.outbox).settledFor id = t.revise (fun y => (e.withdrawing y).unparkFrom id) ∧
      (t.withdrawn id e.outbox).wokenFor id = t.parkedOn id := by
  have htouch := touched_withdrawn t id e.outbox
  obtain ⟨e₁, hf₁, -⟩ := htouch.find? hf
  obtain ⟨hsettled, hwoken⟩ := settledFor_eq (htouch.indexed ht) (hx.withdrawn hf) hf₁
  rw [hsettled, hwoken, withdrawn_eq ht hx hf]
  refine ⟨revise_revise fun y _ => Env.title_withdrawing e y, parkedOn_revise fun i y hs hl => ?_⟩
  refine ⟨(title_eq.mp (Env.title_withdrawing e y)).1, ?_⟩
  unfold Env.withdrawing
  split
  · next hy =>
    have hye : y = e := find?_unique (ht.find?_of_slot? hs hl) (hy ▸ id_of_find? hf ▸ hf)
    rw [hye, hx.not_parkedOn_self hf]
    simp [Env.isParkedOn]
  · exact isParkedOn_relieving e y id

theorem find?_settled_self (ht : t.Indexed) (hx : t.Exact) (hf : t.find? id = some e) :
    ((t.withdrawn id e.outbox).settledFor id).find? id = some { e with outbox := none } := by
  rw [(settled_eq ht hx hf).1, find?_revise fun y _ => Env.title_settling id e y, hf, Option.map_some,
    Env.withdrawing_self]

/-- A released table, slot by slot. -/
theorem slot?_released (ht : t.Indexed) (hx : t.Exact) (hf : t.find? id = some e) (i : Nat) :
    (t.released id e).slot? i =
      if i = id.index then some (e.vacated t.freeHead)
      else (t.slot? i).map fun y => if y.isFree then y else e.parting y := by
  rw [Table.released, slot?_vacate (find?_settled_self ht hx hf), (touched_settled t id e.outbox).head]
  split
  · rfl
  · next hi =>
    rw [(settled_eq ht hx hf).1, slot?_revise]
    cases hs : t.slot? i with
    | none => rfl
    | some y =>
      cases hl : y.isFree with
      | true => simp [hl]
      | false =>
        have hne : y.id ≠ e.id := fun h => hi ((ht i y hs hl).symm.trans (h ▸ id_of_find? hf ▸ rfl))
        simp only [Option.map_some, hl, Bool.false_eq_true, if_false, Env.withdrawing, hne, Env.parting]
        rw [id_of_find? hf]

theorem find?_parting (ht : t.Indexed) (hx : t.Exact) (hf : t.find? id = some e) {j : Id} {y : Env} (hj : j ≠ id)
    (hy : t.find? j = some y) : (t.released id e).find? j = some (e.parting y) := by
  have hne : y.id ≠ e.id := fun h => hj ((id_of_find? hy).symm.trans (h.trans (id_of_find? hf)))
  rw [find?_released hf, if_neg hj, (settled_eq ht hx hf).1, find?_revise fun y _ => Env.title_settling id e y, hy,
    Option.map_some, Env.withdrawing, if_neg hne, Env.parting, id_of_find? hf]

theorem live_released (ht : t.Sound) (hf : t.find? id = some e) : (t.released id e).live + 1 = t.live := by
  have hpos := liveSlots_vacate hf
  rw [← ht.count] at hpos
  show ((t.withdrawn id e.outbox).settledFor id).live - 1 + 1 = t.live
  rw [(touched_settled t id e.outbox).live]
  omega

end Env.Table

namespace Kernel

variable {n : Nat} {k : Kernel} {id : Id} {e : Env}

/-- What `k` is left with when `e`, named `id`, is freed together with its space `h`, which was `s`. -/
structure Destroyed (k : Kernel) (id : Id) (e : Env) (h : Handle) (s : Space) (k' : Kernel) : Prop where
  vacant : k'.envs.slot? id.index =
    some { id := e.id, parent := e.parent, kind := e.kind, runs := e.runs, status := .free, space := none
           nextFree := k.envs.freeHead }
  free : k'.envs.free = id.index :: k.envs.free
  live : k'.envs.live + 1 = k.envs.live
  others : ∀ i, i ≠ id.index → k'.envs.slot? i = (k.envs.slot? i).map fun y => if y.isFree then y else e.parting y
  /-- Whoever waited for it reads the error. -/
  woken : ∀ j y, k.envs.find? j = some y → y.isParkedOn id = true → ∃ waiting, k'.envs.find? j = some
    { y with
      status := .runnable
      context := y.context.setAnswer ErrorCode.badEnvironment.toWord
      outbox := none
      waiting }
  /-- Whom it waited for counts one less. -/
  relieved : ∀ p, e.outbox = some p → ∃ y y', k.envs.find? p.target = some y ∧ k'.envs.find? p.target = some y' ∧
    y'.waiting + 1 = y.waiting
  unrelated : ∀ j y, j ≠ id → k.envs.find? j = some y → y.isParkedOn id = false →
    (∀ p, e.outbox = some p → p.target ≠ j) → k'.envs.find? j = some y
  destroyed : Memory.destroy h k.memory = .done () k'.memory
  returned : k.memory.Returned h s k'.memory
  rest : k' = { k with
    envs := k'.envs
    memory := k'.memory
    journal := (k.journal.wakings id (k.envs.parkedOn id)).record (.freed id e.runs) }

/-- A live environment is freed, its space with it. -/
theorem free_destroys (hp : Proper n k.envs k.memory) (hx : k.envs.Exact) (hf : k.envs.find? id = some e) :
    ∃ h s k', e.space = some h ∧ k.memory.space? h = some s ∧ free id k = .done () k' ∧ Destroyed k id e h s k' := by
  have ht := hp.intact.table.indexed
  obtain ⟨m, e', hf', hd, -, h, hspace, hm⟩ := free_records hp.intact hf
  obtain ⟨s, hs⟩ : ∃ s, k.memory.space? h = some s := by
    obtain ⟨h', hspace', hl⟩ := hp.intact.space_of_find? hf
    rw [hspace] at hspace'
    cases hspace'
    exact Option.isSome_iff_exists.mp hl
  obtain ⟨m', hm', hreturned⟩ := Memory.destroy_returns hp.intact.memory hp.clear hs
  obtain rfl : m = m' := by
    rw [hm] at hm'
    cases hm'
    rfl
  have hlook := fun {j y} => find?_parting (j := j) (y := y) ht hx hf
  have hid := id_of_find? hf
  have hslots := slot?_released ht hx hf
  refine ⟨h, s, _, hspace, hs, hd, (hslots _).trans (if_pos rfl), free_released hf hp.intact.table,
    live_released hp.intact.table hf, fun i hi => (hslots i).trans (if_neg hi), fun j y hy hpark => ?_,
    fun p ho => ?_, fun j y hj hy hpark ho => ?_, hm, hreturned, ?_⟩
  · have hj : j ≠ id := fun hj => by
      rw [hj] at hy
      rw [find?_unique hy hf, hx.not_parkedOn_self hf] at hpark
      cases hpark
    exact ⟨_, (hlook hj hy).trans (congrArg some (Env.parting_parked (hid ▸ hpark)))⟩
  · obtain ⟨hne, y, hy, hpos⟩ := hx.counted_for hf ho
    refine ⟨y, e.parting y, hy, hlook hne hy, ?_⟩
    have hany : e.outbox.any (fun q => q.target == y.id) = true := by simp [ho, id_of_find? hy]
    rw [Env.waiting_parting, Env.relieving, if_pos hany]
    exact Nat.sub_add_cancel hpos
  · rw [hlook hj hy, Env.parting_unrelated (hid ▸ hpark) fun p hp => id_of_find? hy ▸ ho p hp]
  · obtain rfl := find?_unique hf' (find?_settled_self ht hx hf)
    rw [(settled_eq ht hx hf).2]

/-- In every state that is ever reached with exact counts, destruction settles whatever the environment left behind and
nothing else: it finds the space that it destroys, and an id that is not live is refused without a trace. -/
theorem destruction_contained (hk : k.Reachable) (hx : k.envs.Exact) (id : Id) :
    (k.envs.find? id = none → free id k = .refused .badEnvironment k) ∧
      ∀ e, k.envs.find? id = some e → ∃ h s k', e.space = some h ∧ k.memory.space? h = some s ∧
        free id k = .done () k' ∧ Destroyed k id e h s k' := by
  obtain ⟨n, hp⟩ := hk.proper
  exact ⟨free_none, fun e => free_destroys hp hx⟩

def entangled : List Demand :=
  [.step (.create .user), .step (.load ⟨0x401⟩ 0x200000 (PageFlags.present ||| PageFlags.user)),
    .call .standard ⟨0⟩ ⟨0x401⟩ 5 (Vector.replicate 5 0),
    .call .standard ⟨0⟩ ⟨0x401⟩ 8 #v[0x401, 0x200000, 0x402, 0x200000, 5],
    .call .standard ⟨0⟩ ⟨0x401⟩ 14 #v[0x402, 5, UInt64.ofNat utop, 0, 0],
    .call .standard ⟨0⟩ ⟨0x402⟩ 14 #v[0x401, 7, UInt64.ofNat utop, 0, 0]]

/-- The child is woken and counts nobody any more; of the three frames of the program two come back. -/
theorem destruction_contained_entangled : ∃ k k' e h s y, k.Reachable ∧ k.envs.Exact ∧
    k.envs.find? ⟨0x401⟩ = some e ∧ k.envs.find? ⟨0x402⟩ = some y ∧ e.waiting = 1 ∧ y.waiting = 1 ∧
    free ⟨0x401⟩ k = .done () k' ∧ Destroyed k ⟨0x401⟩ e h s k' ∧
    s.refs.length = 3 ∧ k'.memory.freeFrames = k.memory.freeFrames + 2 := by
  let k := ((boot pairConfig {} {}).toOption.bind (Demand.replay · entangled)).get (by decide +kernel)
  have hk : k.Reachable := .of_replay (Option.some_get _).symm
  have hx : k.envs.Exact := exact_of_toList (by decide +kernel)
  let e := (k.envs.find? ⟨0x401⟩).get (by decide +kernel)
  let y := (k.envs.find? ⟨0x402⟩).get (by decide +kernel)
  obtain ⟨h, s, k', hspace, hs, hd, hends⟩ := (destruction_contained hk hx ⟨0x401⟩).2 e (Option.some_get _).symm
  have hrefs : ((e.space.bind k.memory.space?).map fun s => s.refs.length) = some 3 := by decide +kernel
  have hfrees : ((free ⟨0x401⟩ k).result?.map fun r => r.2.memory.freeFrames) = some (k.memory.freeFrames + 2) := by
    decide +kernel
  rw [hspace, Option.bind_some, hs] at hrefs
  rw [hd] at hfrees
  exact ⟨k, k', e, h, s, y, hk, hx, (Option.some_get _).symm, (Option.some_get _).symm, by decide +kernel,
    by decide +kernel, hd, hends, Option.some.inj hrefs, Option.some.inj hfrees⟩

end Kernel

end Exokernel
