import Exokernel.Proofs.Kernel.Rotation
import Exokernel.Proofs.Post.Counting
import Exokernel.Proofs.System.Moves

/-!
# Fairness

Every pass on a CPU starts behind the slot that the last one took, and goes no farther than to an environment that
waits. As long as that one is passed over, the slots taken lie one behind the other on the way to it. Nothing that
happens between two passes matters, if only the CPU does not forget where it was.
-/

set_option autoImplicit false

namespace Exokernel

open Env (Id)
open Env.Table

variable {k₀ k₁ k k' k'' : Kernel} {c d : Cpu} {id x : Id} {past later earlier : List (Kernel × Decision)}

structure Interlude (c : Cpu) (k k' : Kernel) : Prop where
  capacity : k'.envs.capacity = k.envs.capacity
  indexed : k.envs.Indexed → k'.envs.Indexed
  cpus : k'.cpuCount = k.cpuCount
  last : k'.currentOf c = k.currentOf c

namespace Interlude

theorem refl (c : Cpu) (k : Kernel) : Interlude c k k := ⟨rfl, fun h => h, rfl, rfl⟩

theorem trans (h : Interlude c k k') (h' : Interlude c k' k'') : Interlude c k k'' :=
  ⟨h'.capacity.trans h.capacity, fun hi => h'.indexed (h.indexed hi), h'.cpus.trans h.cpus, h'.last.trans h.last⟩

end Interlude

theorem Env.Table.capacity_occupy {t : Env.Table} {index : Nat} {parent : Id} {kind : Env.Kind}
    {space : Handle} : (t.occupy index parent kind space).2.capacity = t.capacity := by
  simp [occupy, Table.capacity]

theorem Env.Table.capacity_released {t : Env.Table} {e : Env} : (t.released id e).capacity = t.capacity := by
  have ht := touched_settled t id e.outbox
  have hv : (t.released id e).capacity = ((t.withdrawn id e.outbox).settledFor id).capacity := by
    simp [released, vacate, Table.capacity]
  exact hv.trans ht.capacity

theorem Turnover.capacity {op : TableOp} (h : Turnover k op k') (ht : k.envs.Sound) :
    k'.envs.capacity = k.envs.capacity := by
  cases h with
  | aside h => exact h.touched.capacity
  | allocated _ he => rw [he, capacity_occupy]
  | released _ _ he => rw [he, capacity_released]
  | delivered _ _ h => rw [h.touched.capacity, capacity_update]
  | parked _ _ _ _ _ he => rw [he, capacity_update, capacity_update]
  | blocked he => rw [he, capacity_update]
  | starved _ _ hk he =>
    rw [he, capacity_update]
    rcases hk with ⟨rfl, -⟩ | hk
    · rfl
    · exact (hk.touched ht).capacity
  | fetched _ hk hfetch =>
    have hamid := hk.touched ht
    rw [(Kernel.fetch_touched (hamid.sound ht) hfetch).capacity, hamid.capacity]

namespace TableOp

variable {op : TableOp} {new : Option Id}

theorem after_of_quiet {ε α : Type} {o : Outcome Kernel ε α} (h : quiet o = .ok (new, k')) : o.after = .ok k' := by
  cases o with
  | done a s => cases h; rfl
  | refused e s => cases h; rfl
  | halted p => cases h

/-- Nobody but the scheduler notes who was dispatched. -/
theorem current_of_run (h : op.run k = .ok (new, k')) (hop : ∀ d id, op ≠ .dispatch d id) :
    k'.current = k.current := by
  cases op with
  | allocate parent kind =>
    have hs : Kernel.Steady (Kernel.allocate parent kind) := Kernel.steady_allocate
    simp only [run] at h
    cases hr : Kernel.allocate parent kind k with
    | done id k₁ =>
      rw [hr] at h
      cases h
      exact hs.done hr
    | refused e k₁ =>
      rw [hr] at h
      cases h
      exact (hs k).of_refused hr
    | halted p =>
      rw [hr] at h
      cases h
  | free id => exact Kernel.steady_free.after (after_of_quiet h)
  | destroy id cpu => exact Kernel.steady_destroy.after (after_of_quiet h)
  | setStatus id status => exact Kernel.steady_setStatus.after (after_of_quiet h)
  | transfer sender target message => exact Kernel.steady_transfer.after (after_of_quiet h)
  | trySend caller target message => exact Kernel.steady_trySend.after (after_of_quiet h)
  | receive caller dstva => exact Kernel.steady_receive.after (after_of_quiet h)
  | sendQueued caller target message => exact Kernel.steady_sendQueued.after (after_of_quiet h)
  | receiveQueued caller dstva start => exact Kernel.steady_receiveQueued.after (after_of_quiet h)
  | dispatch d id => exact absurd rfl (hop d id)
  | edit op =>
    simp only [run] at h
    cases hr : op.run k.memory with
    | error p =>
      rw [hr] at h
      cases h
    | ok m =>
      rw [hr] at h
      cases h
      rfl

/-- Between two passes on a CPU the table may be asked for anything but to dispatch on that CPU. -/
theorem Takes.interlude (h : op.Takes k k') (ht : k.envs.Sound) (hop : ∀ id, op ≠ .dispatch c id) :
    Interlude c k k' := by
  have hturn := h.turnover ht
  by_cases hd : ∃ d id, op = .dispatch d id
  · obtain ⟨d, id, rfl⟩ := hd
    have hne : c ≠ d := fun hc => hop id (hc ▸ rfl)
    obtain ⟨-, new, hrun⟩ := h
    simp only [run, Kernel.dispatch_apply] at hrun
    cases hrun
    exact ⟨hturn.capacity ht, fun _ => (hturn.sound ht).indexed, Array.size_setIfInBounds .., lastOn_set_of_ne hne⟩
  · obtain ⟨-, new, hrun⟩ := h
    have hcur := current_of_run hrun fun d id he => hd ⟨d, id, he⟩
    refine ⟨hturn.capacity ht, fun _ => (hturn.sound ht).indexed, congrArg Array.size hcur, ?_⟩
    rw [Kernel.currentOf, hcur, Kernel.currentOf]

end TableOp

theorem TableHistory.interlude {ops : List (Kernel × TableOp)} (h : TableHistory k ops k') (ht : k.envs.Sound)
    (hops : ∀ p ∈ ops, ∀ id, p.2 ≠ .dispatch c id) : Interlude c k k' ∧ k'.envs.Sound := by
  induction h with
  | start => exact ⟨.refl c k, ht⟩
  | step _ htakes ih =>
    obtain ⟨hpast, hsound⟩ := ih fun p hp => hops p (List.mem_cons_of_mem _ hp)
    exact ⟨hpast.trans (htakes.interlude hsound (hops _ (List.mem_cons_self ..))),
      (htakes.turnover hsound).sound hsound⟩

inductive Passes (c : Cpu) (k₀ : Kernel) : List (Kernel × Decision) → Kernel → Prop
  | start : Passes c k₀ [] k₀
  | pass {past : List (Kernel × Decision)} {k k' : Kernel} {d : Decision} : Passes c k₀ past k →
      (Kernel.schedule c k : Outcome Kernel Empty Decision) = .done d k' → Passes c k₀ ((k, d) :: past) k'
  | meanwhile {past : List (Kernel × Decision)} {k k' : Kernel} : Passes c k₀ past k → Interlude c k k' →
      Passes c k₀ past k'

namespace Passes

theorem cons_inv {dec : Decision} (h : Passes c k₀ ((k₁, dec) :: past) k) : ∃ k', Passes c k₀ past k₁ ∧
    (Kernel.schedule c k₁ : Outcome Kernel Empty Decision) = .done dec k' ∧ Interlude c k' k := by
  generalize hl : (k₁, dec) :: past = all at h
  induction h with
  | start => cases hl
  | @pass _ _ k' _ h hd =>
    cases hl
    exact ⟨k', h, hd, .refl c k'⟩
  | meanwhile _ hm ih =>
    obtain ⟨k', h, hd, hk⟩ := ih hl
    exact ⟨k', h, hd, hk.trans hm⟩

theorem keeps (h : Passes c k₀ past k) : k.envs.capacity = k₀.envs.capacity ∧ k.cpuCount = k₀.cpuCount ∧
    (k₀.envs.Indexed → k.envs.Indexed) := by
  induction h with
  | start => exact ⟨rfl, rfl, fun hi => hi⟩
  | pass _ hd ih =>
    have hpass := Kernel.passed_of_schedule hd
    exact ⟨hpass.touched.capacity.trans ih.1, hpass.size.trans ih.2.1, fun hi => hpass.touched.indexed (ih.2.2 hi)⟩
  | meanwhile _ hm ih => exact ⟨hm.capacity.trans ih.1, hm.cpus.trans ih.2.1, fun hi => hm.indexed (ih.2.2 hi)⟩

theorem last_of_head (h : Passes c k₀ ((k₁, .run x) :: past) k) (hc : c.index < k₀.cpuCount) :
    k.currentOf c = some x := by
  obtain ⟨k', h, hd, hm⟩ := h.cons_inv
  have hlt : c.index < k₁.cpuCount := h.keeps.2.1.symm ▸ hc
  rw [hm.last]
  exact (Kernel.passed_of_schedule hd).currentOf_self hlt

theorem split (h : Passes c k₀ (later ++ earlier) k) : ∃ k₁, Passes c k₀ earlier k₁ ∧ Passes c k₁ later k := by
  induction later generalizing k with
  | nil => exact ⟨k, h, .start⟩
  | cons p later ih =>
    obtain ⟨k', h, hd, hm⟩ := h.cons_inv
    obtain ⟨k₁, hearlier, hlater⟩ := ih h
    exact ⟨k₁, hearlier, .meanwhile (.pass hlater hd) hm⟩

end Passes

def Kernel.Eligible (k : Kernel) (id : Id) : Prop :=
  ∃ e, k.envs.find? id = some e ∧ e.status = .runnable ∧ e.kind ≠ .idle

/-- A pass could have dispatched `id`, and did not. -/
def PassesOver (id : Id) (p : Kernel × Decision) : Prop := p.1.Eligible id ∧ p.2 ≠ .run id

def Decision.slot? : Decision → Option Nat
  | .run id => some id.index
  | .monitor => none

def slotsTaken (past : List (Kernel × Decision)) : List (Option Nat) := past.map fun p => p.2.slot?

theorem Kernel.Eligible.served (h : k.Eligible id) (hi : k.envs.Indexed) :
    ∃ j, (Kernel.schedule c k : Outcome Kernel Empty Decision) = .done (.run j) (k.dispatched c j) ∧ k.Eligible j := by
  obtain ⟨e, hf, hr, hk⟩ := h
  have hc : e.isCandidate = true := by simp [Env.isCandidate, hr, hk]
  obtain ⟨far, hfar, hid⟩ := Kernel.exists_distance (k.scanStart c) (slot?_lt (slot?_of_find? hf))
  obtain ⟨i, j, hpick, -⟩ := Kernel.pick_within hf hc hfar hid
  obtain ⟨y, hy, hyr, hyk⟩ := Kernel.pick_spec hi hpick
  exact ⟨j, Kernel.schedule_of_pick hpick, y, hy, hyr, hyk⟩

theorem PassesOver.ahead {dec : Decision} {far : Nat} (hover : PassesOver id (k, dec)) (hi : k.envs.Indexed)
    (hs : (Kernel.schedule c k : Outcome Kernel Empty Decision) = .done dec k') (hfar : far < k.envs.capacity)
    (hid : (k.scanStart c + far) % k.envs.capacity = id.index) : ∃ i j, i < far ∧ dec = .run j ∧ k.Eligible j ∧
      j.index = (k.scanStart c + i) % k.envs.capacity := by
  obtain ⟨⟨e, hf, hr, hk⟩, hne⟩ := hover
  have hc : e.isCandidate = true := by simp [Env.isCandidate, hr, hk]
  obtain ⟨i, j, hpick, hj, hcase⟩ := Kernel.pick_within hf hc hfar hid
  have hdec : dec = .run j := by
    rw [Kernel.schedule_of_pick hpick] at hs
    cases hs
    rfl
  obtain ⟨y, hy, hji, hyr, hyk⟩ := Kernel.offered_spec hi hj
  refine ⟨i, j, hcase.resolve_left fun h => hne (h ▸ hdec), hdec, ⟨y, hy, hyr, hyk⟩, hji⟩

structure Underway (c : Cpu) (size start far : Nat) (past : List (Kernel × Decision)) (k : Kernel) (gone : Nat) :
    Prop where
  here : k.scanStart c % size = (start + gone) % size
  short : gone ≤ far
  length : past.length ≤ gone
  taken : ∀ p ∈ past, ∃ j o, p.2 = .run j ∧ p.1.Eligible j ∧ j.index = (start + o) % size ∧ o < gone
  nodup : (slotsTaken past).Nodup

namespace Underway

variable {size start far gone i : Nat} {j : Id}

theorem congr (h : Underway c size start far past k gone) (hl : k'.currentOf c = k.currentOf c) :
    Underway c size start far past k' gone := by
  refine ⟨?_, h.short, h.length, h.taken, h.nodup⟩
  rw [Kernel.scanStart, hl]
  exact h.here

theorem slot_not_mem (h : Underway c size start far past k gone) (hi : gone + i < size)
    (hj : j.index = (start + (gone + i)) % size) : some j.index ∉ slotsTaken past := by
  intro hm
  obtain ⟨p, hp, hslot⟩ := List.mem_map.mp hm
  obtain ⟨j', o, hrun, -, hj', ho⟩ := h.taken p hp
  rw [hrun] at hslot
  have heq : (start + o) % size = (start + (gone + i)) % size := by
    rw [← hj', ← hj]
    exact Option.some.inj hslot
  have := Kernel.distance_unique (by omega) hi heq
  omega

/-- The slot that the way starts behind lies a full round ahead. -/
theorem before_not_mem (h : Underway c size (x.index + 1) far past k gone) (hfar : far < size) :
    some x.index ∉ slotsTaken past := by
  intro hm
  obtain ⟨p, hp, hslot⟩ := List.mem_map.mp hm
  obtain ⟨j, o, hrun, -, hj, ho⟩ := h.taken p hp
  have hshort := h.short
  rw [hrun] at hslot
  have hround : (x.index + (o + 1)) % size = x.index := by
    rw [Nat.add_comm o, ← Nat.add_assoc, ← hj]
    exact Option.some.inj hslot
  have hlt : x.index < size := by
    rw [← hround]
    exact Nat.mod_lt _ (by omega)
  have := Kernel.distance_unique (i := 0) (by omega) (by omega) (hround.trans (Nat.mod_eq_of_lt hlt).symm)
  omega

/-- One more pass takes a slot further on. -/
theorem pass (h : Underway c size start far past k gone) (hfar : far < size) (hi : gone + i < far)
    (he : k.Eligible j) (hj : j.index = (start + (gone + i)) % size) (hlast : k'.currentOf c = some j) :
    Underway c size start far ((k, .run j) :: past) k' (gone + i + 1) where
  here := by
    rw [Kernel.scanStart, hlast]
    show (j.index + 1) % size = _
    rw [hj, Nat.mod_add_mod, Nat.add_assoc start]
  short := hi
  length := by
    have := h.length
    rw [List.length_cons]
    omega
  taken p hp := by
    rcases List.mem_cons.mp hp with rfl | hp
    · exact ⟨j, gone + i, rfl, he, hj, Nat.lt_succ_self _⟩
    · obtain ⟨j', o, hrun, he', hj', ho⟩ := h.taken p hp
      exact ⟨j', o, hrun, he', hj', by omega⟩
  nodup := List.nodup_cons.mpr ⟨h.slot_not_mem (by omega) hj, h.nodup⟩

end Underway

theorem Passes.underway {far : Nat} (h : Passes c k₁ past k) (hi : k₁.envs.Indexed) (hc : c.index < k₁.cpuCount)
    (hover : ∀ p ∈ past, PassesOver id p) (hfar : far < k₁.envs.capacity)
    (hid : (k₁.scanStart c + far) % k₁.envs.capacity = id.index) :
    ∃ gone, Underway c k₁.envs.capacity (k₁.scanStart c) far past k gone := by
  induction h with
  | start => exact ⟨0, rfl, Nat.zero_le _, Nat.zero_le _, by simp, List.nodup_nil⟩
  | meanwhile _ hm ih =>
    obtain ⟨gone, hu⟩ := ih hover
    exact ⟨gone, hu.congr hm.last⟩
  | @pass past k k' dec h hd ih =>
    obtain ⟨gone, hu⟩ := ih fun p hp => hover p (List.mem_cons_of_mem _ hp)
    obtain ⟨hcap, hcpus, hindexed⟩ := h.keeps
    have hshort := hu.short
    have hslots : ∀ a, (k.scanStart c + a) % k.envs.capacity =
        (k₁.scanStart c + (gone + a)) % k₁.envs.capacity := fun a => by
      rw [hcap, ← Nat.mod_add_mod, hu.here, Nat.mod_add_mod, Nat.add_assoc]
    have hrest : (k.scanStart c + (far - gone)) % k.envs.capacity = id.index := by
      rw [hslots, Nat.add_sub_cancel' hshort, hid]
    obtain ⟨i, j, hlt, rfl, he, hj⟩ := (hover _ (List.mem_cons_self ..)).ahead (hindexed hi) hd (by omega) hrest
    have hlast := (Kernel.passed_of_schedule hd).currentOf_self (hcpus.symm ▸ hc : c.index < k.cpuCount)
    exact ⟨gone + i + 1, hu.pass hfar (by omega) he (hj.trans (hslots i)) hlast⟩

theorem Passes.toward (h : Passes c k₁ past k) (hi : k₁.envs.Indexed) (hc : c.index < k₁.cpuCount)
    (hover : ∀ p ∈ past, PassesOver id p) (hpast : past ≠ []) : ∃ far gone, far < k₁.envs.capacity ∧
      Underway c k₁.envs.capacity (k₁.scanStart c) far past k gone := by
  obtain ⟨⟨k', dec⟩, rest, rfl⟩ := List.exists_cons_of_ne_nil hpast
  obtain ⟨-, hrest, -⟩ := h.cons_inv
  obtain ⟨⟨e, hf, -⟩, -⟩ := hover _ (List.mem_cons_self ..)
  have hlt : id.index < k₁.envs.capacity := hrest.keeps.1 ▸ slot?_lt (slot?_of_find? hf)
  obtain ⟨far, hfar, hid⟩ := Kernel.exists_distance (k₁.scanStart c) hlt
  obtain ⟨gone, hu⟩ := h.underway hi hc hover hfar hid
  exact ⟨far, gone, hfar, hu⟩

/-- As long as an environment that could run is passed over on a CPU, every pass there dispatches another one that
could run, and takes a slot that no other one of these passes took, nor the one before them; so there are fewer of
them than slots, whatever happens in between. -/
theorem passed_over_once (hi : k₀.envs.Indexed) (hc : c.index < k₀.cpuCount) (h : Passes c k₀ (later ++ earlier) k)
    (hover : ∀ p ∈ later, PassesOver id p) :
    (∀ p ∈ later, ∃ j, p.2 = .run j ∧ p.1.Eligible j) ∧ (slotsTaken later).Nodup ∧
      later.length ≤ k₀.envs.capacity - 1 ∧
      (∀ k₂ x, earlier.head? = some (k₂, .run x) → some x.index ∉ slotsTaken later) ∧
      (k.Eligible id → ∃ j, (Kernel.schedule c k : Outcome Kernel Empty Decision) = .done (.run j) (k.dispatched c j) ∧
        k.Eligible j) := by
  have hnext := fun he : k.Eligible id => he.served (c := c) (h.keeps.2.2 hi)
  by_cases hl : later = []
  · subst hl
    exact ⟨by simp, List.nodup_nil, Nat.zero_le _, by simp [slotsTaken], hnext⟩
  · obtain ⟨k₁, hearlier, hlater⟩ := h.split
    obtain ⟨hcap, hcpus, hindexed⟩ := hearlier.keeps
    obtain ⟨far, gone, hfar, hu⟩ := hlater.toward (hindexed hi) (hcpus.symm ▸ hc) hover hl
    have hshort := hu.short
    have hlength := hu.length
    refine ⟨fun p hp => ?_, hu.nodup, by omega, fun k₂ x hhead => ?_, hnext⟩
    · obtain ⟨j, o, hrun, he, -⟩ := hu.taken p hp
      exact ⟨j, hrun, he⟩
    · obtain ⟨rest, rfl⟩ := List.head?_eq_some_iff.mp hhead
      rw [Kernel.scanStart, hearlier.last_of_head hc] at hu
      exact hu.before_not_mem hfar

instance (k : Kernel) (id : Id) : Decidable (k.Eligible id) :=
  decidable_of_iff ((k.envs.find? id).any fun e => e.status = .runnable ∧ e.kind ≠ .idle)
    (by simp [Kernel.Eligible, Option.any_eq_true])

instance (id : Id) (p : Kernel × Decision) : Decidable (PassesOver id p) :=
  inferInstanceAs (Decidable (p.1.Eligible id ∧ p.2 ≠ .run id))

/-- The slot of the first environment gets a new one after its turn; the last one is served before it. -/
theorem passed_over_once_reissue : ∃ k₀ k₁ k₂ k : Kernel, k₀.envs.Indexed ∧
    Passes ⟨0⟩ k₀ [(k₂, .run ⟨0x401⟩), (k₁, .run ⟨0x400⟩)] k ∧ PassesOver ⟨0x402⟩ (k₂, .run ⟨0x401⟩) ∧
    k₂.Eligible ⟨0x800⟩ ∧ some (Id.index ⟨0x800⟩) ∉ slotsTaken [(k₂, .run ⟨0x401⟩)] ∧
    (Kernel.schedule ⟨0⟩ k : Outcome Kernel Empty Decision) = .done (.run ⟨0x402⟩) (k.dispatched ⟨0⟩ ⟨0x402⟩) := by
  let three := (TableOp.replay threeSlots [.allocate .self .user, .allocate .self .user, .allocate .self .user]).get
    (by decide +kernel)
  obtain ⟨_, hthree, -⟩ := TableHistory.of_replay (k := three) (Option.some_get _).symm
  let k₀ : Kernel := { three with current := #[none] }
  have hsound₀ : k₀.envs.Sound := (hthree.counted (counted_ofCapacity 3)).1
  have hpass₀ : (Kernel.schedule ⟨0⟩ k₀ : Outcome Kernel Empty Decision) =
      .done (.run ⟨0x400⟩) (k₀.dispatched ⟨0⟩ ⟨0x400⟩) := Kernel.schedule_of_pick (by decide +kernel)
  let k₂ := (TableOp.replay (k₀.dispatched ⟨0⟩ ⟨0x400⟩) [.allocate .self .user, .free ⟨0x400⟩]).get (by decide +kernel)
  obtain ⟨ops, hops, hlist⟩ := TableHistory.of_replay (k := k₂) (Option.some_get _).symm
  have hbetween : Interlude ⟨0⟩ (k₀.dispatched ⟨0⟩ ⟨0x400⟩) k₂ := by
    refine (hops.interlude ((Kernel.passed_of_schedule hpass₀).touched.sound hsound₀) fun p hp id hd => ?_).1
    have hm : (.dispatch ⟨0⟩ id : TableOp) ∈ ops.map Prod.snd := List.mem_map.mpr ⟨p, hp, hd⟩
    simp [hlist] at hm
  have hpass₂ : (Kernel.schedule ⟨0⟩ k₂ : Outcome Kernel Empty Decision) =
      .done (.run ⟨0x401⟩) (k₂.dispatched ⟨0⟩ ⟨0x401⟩) := Kernel.schedule_of_pick (by decide +kernel)
  have hover : PassesOver ⟨0x402⟩ (k₂, .run ⟨0x401⟩) := by decide +kernel
  have hpasses : Passes ⟨0⟩ k₀ ([(k₂, .run ⟨0x401⟩)] ++ [(k₀, .run ⟨0x400⟩)]) (k₂.dispatched ⟨0⟩ ⟨0x401⟩) :=
    ((Passes.start.pass hpass₀).meanwhile hbetween).pass hpass₂
  obtain ⟨-, -, -, hbefore, -⟩ := passed_over_once hsound₀.indexed (by decide) hpasses (by simpa using hover)
  exact ⟨k₀, k₀, k₂, _, hsound₀.indexed, hpasses, hover, by decide +kernel, hbefore k₀ ⟨0x400⟩ rfl,
    Kernel.schedule_of_pick (by decide +kernel)⟩

end Exokernel
