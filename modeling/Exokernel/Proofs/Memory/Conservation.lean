import Exokernel.Proofs.Memory.UserAccess

/-!
# Conservation of frames

A run of memory starts with every frame free and serves requests in any order, with handles that may be live,
stale or made up; a request to map a frame names one that is in use. After each request the count of a frame is
the number of its owners, and the frames without owners are the free ones.

A caller may hold on to the number of a frame that was given back, and ask to map it. That halts the machine, or
meets the frame when it has just become a page-table page; in no case does it cost memory its balance.
-/

set_option autoImplicit false

namespace Exokernel.Memory

inductive Op where
  | create
  | destroy (h : Handle)
  | insert (h : Handle) (frame : FrameId) (va : Nat) (flags : PageFlags)
  | allocPage (h : Handle) (va : Nat) (flags : PageFlags)
  | remove (h : Handle) (va : Nat)
  | writeUser (h : Handle) (va : Nat) (data : Bytes)
  | readUser (h : Handle) (va count : Nat)
  | denyAlloc
  | denyMap

def Op.Allowed (m : Memory) : Op → Prop
  | insert _ frame _ _ => m.frames.used frame = true
  | writeUser _ va _ => va < addressLimit
  | readUser _ va _ => va < addressLimit
  | _ => True

def Op.run (m : Memory) : Op → Except Panic Memory
  | create => (Memory.create m).after
  | destroy h => (Memory.destroy h m).after
  | insert h frame va flags => (Memory.insert h frame va flags m).after
  | allocPage h va flags => (Memory.allocPage h va flags m).after
  | remove h va => (Memory.remove h va m).after
  | writeUser h va data => (Memory.writeUser h va data m).after
  | readUser h va count => (Memory.readUser h va count m).after
  | denyAlloc => .ok m.denyAlloc
  | denyMap => .ok m.denyMap

def runAll : List Op → Memory → Except Panic Memory
  | [], m => .ok m
  | op :: rest, m => do runAll rest (← op.run m)

inductive Reachable (count : Nat) : Memory → Prop
  | start : Reachable count (ofFrames count)
  | step {m m' : Memory} (op : Op) : Reachable count m → op.Allowed m → op.run m = .ok m' → Reachable count m'

def liveSpaces (m : Memory) : List Space := m.spaces.toList.filterMap id

def rootRefs (m : Memory) (f : FrameId) : Nat := m.liveSpaces.countP fun s => s.root == f

def tableRefs (m : Memory) (f : FrameId) : Nat := (m.liveSpaces.flatMap fun s => s.table.tables.values).count f

def mappingRefs (m : Memory) (f : FrameId) : Nat :=
  (m.liveSpaces.flatMap fun s => s.table.entries.values).countP fun e => e.frame == f

def ownerCount (m : Memory) (f : FrameId) : Nat := m.rootRefs f + m.tableRefs f + m.mappingRefs f

structure Conserved (m : Memory) : Prop where
  refs : ∀ f, m.refs f = m.ownerCount f
  free : ∀ i, i ∈ m.frames.free ↔ i < m.totalFrames ∧ m.ownerCount ⟨i⟩ = 0
  nodup : m.frames.free.Nodup
  total : m.freeFrames + m.frames.usedCount = m.totalFrames

variable {n count : Nat} {m m' : Memory}

theorem owed_eq_ownerCount (m : Memory) (f : FrameId) : m.owed f = m.ownerCount f := by
  rw [owed, tally, ownerCount, rootRefs, tableRefs, mappingRefs, liveSpaces]
  induction m.spaces.toList with
  | nil => rfl
  | cons o l ih =>
    cases o with
    | none => simpa [refsOf] using ih
    | some s =>
      rw [List.map_cons, List.sum_cons, ih, List.filterMap_cons_some (rfl : id (some s) = some s)]
      have hm : (s.table.entries.values.map Mapping.frame).count f =
          s.table.entries.values.countP fun e => e.frame == f := List.countP_map
      simp only [refsOf, Space.refs, PageTable.frames, List.countP_cons, List.flatMap_cons, List.count_append,
        List.countP_append, List.count_cons, hm]
      omega

theorem liveCount_eq_length (m : Memory) : m.liveCount = m.liveSpaces.length := by
  rw [liveCount, tally, liveSpaces]
  induction m.spaces.toList with
  | nil => rfl
  | cons o l ih =>
    rw [List.map_cons, List.sum_cons, ih]
    cases o with
    | none => exact Nat.zero_add _
    | some s =>
      rw [List.filterMap_cons_some (rfl : id (some s) = some s), List.length_cons]
      exact Nat.add_comm _ _

theorem settled_deny (hm : Settled n m) : Settled n m.denyAlloc := hm.alike FramePool.alike_deny

/-- Each request keeps the balance, or halts for want of room in a count. -/
theorem Op.run_settled (hm : Settled n m) {op : Op} (ha : op.Allowed m) :
    (∃ m', op.run m = .ok m' ∧ Settled n m') ∨ ∃ p, op.run m = .error p ∧ Crowded m p := by
  cases op with
  | create => exact ((balanced_create hm).mono (fun _ _ h => h.1) (fun _ _ h => h.1) fun _ h => h).after
  | destroy h =>
    exact ((balanced_destroy hm).mono (fun _ _ h => h.1) (fun _ _ h => h.1 ▸ hm) fun _ h => h.elim).after
  | insert h frame va flags =>
    exact ((balanced_insert hm ha).mono (fun _ _ h => h.1) (fun _ _ h => h.1) fun _ h => h).after
  | allocPage h va flags =>
    exact ((balanced_allocPage hm).mono (fun _ _ h => h.1) (fun _ _ h => h.1) fun _ h => h).after
  | remove h va =>
    exact ((balanced_remove hm).mono (fun _ _ h => h.1) (fun _ _ h => h ▸ hm) fun _ h => h.elim).after
  | writeUser h va data =>
    exact ((balanced_writeUser hm ha).mono (fun _ _ h => h.1) (fun _ _ h => h.1) fun _ h => h.elim).after
  | readUser h va count =>
    exact ((readUser_spec hm ha).mono (fun _ _ h => h ▸ hm) (fun _ _ h => h ▸ hm) fun _ h => h.elim).after
  | denyAlloc => exact .inl ⟨_, rfl, settled_deny hm⟩
  | denyMap => exact .inl ⟨_, rfl, hm.pool, hm.tables, hm.refs_eq, hm.accounted⟩

def Op.Edits : Op → Prop
  | create => False
  | destroy _ => False
  | _ => True

theorem meets_edit {ε α : Type} {o : Outcome Memory ε α} {H : Panic → Prop}
    (ho : o.Meets (fun _ m' => Settled n m' ∧ Kept m m') (fun _ m' => Settled n m' ∧ Kept m m') H)
    (h : o.after = .ok m') : Settled n m' ∧ Kept m m' := by
  rcases ho.after with ⟨m₁, h₁, hm⟩ | ⟨p, hp, -⟩
  · rw [h] at h₁
    exact Except.ok.inj h₁ ▸ hm
  · rw [h] at hp
    cases hp

theorem Op.run_edit (hm : Settled n m) {op : Op} (he : op.Edits) (ha : op.Allowed m) (h : op.run m = .ok m') :
    Settled n m' ∧ Kept m m' := by
  have hself : ∀ {m₁ : Memory}, m₁ = m → Settled n m₁ ∧ Kept m m₁ := by
    rintro m₁ rfl
    exact ⟨hm, kept_of_spaces rfl⟩
  cases op with
  | create => exact he.elim
  | destroy h => exact he.elim
  | insert h frame va flags =>
    exact meets_edit ((balanced_insert hm ha).mono (fun _ _ h => ⟨h.1, h.2.1⟩) (fun _ _ h => h) fun _ h => h) h
  | allocPage h va flags => exact meets_edit (balanced_allocPage hm) h
  | remove h va => exact meets_edit ((balanced_remove hm).mono (fun _ _ h => h) (fun _ _ h => hself h) fun _ h => h) h
  | writeUser h va data =>
    exact meets_edit ((balanced_writeUser hm ha).mono (fun _ _ h => ⟨h.1, kept_of_spaces h.2⟩)
      (fun _ _ h => ⟨h.1, kept_of_spaces h.2⟩) fun _ h => h) h
  | readUser h va count =>
    exact meets_edit ((readUser_spec hm ha).mono (fun _ _ h => hself h) (fun _ _ h => hself h) fun _ h => h) h
  | denyAlloc =>
    cases h
    exact ⟨settled_deny hm, kept_of_spaces rfl⟩
  | denyMap =>
    cases h
    exact ⟨⟨hm.pool, hm.tables, hm.refs_eq, hm.accounted⟩, kept_of_spaces rfl⟩

theorem Reachable.settled (hm : Reachable count m) : Settled count m := by
  induction hm with
  | start => exact settled_ofFrames count
  | step op _ ha hr ih =>
    rcases Op.run_settled ih ha with ⟨m', hr', hs⟩ | ⟨p, hr', -⟩
    · rw [hr] at hr'
      exact Except.ok.inj hr' ▸ hs
    · rw [hr] at hr'
      cases hr'

theorem Balanced.conserved (hm : Settled n m) (hn : n < countLimit) : m.Conserved := by
  have hrefs : ∀ f, m.refs f = m.ownerCount f := fun f => by
    rw [← owed_eq_ownerCount]
    exact hm.refs_eq f
  refine ⟨hrefs, fun i => ?_, hm.pool.nodup, ?_⟩
  · have hcap : m.totalFrames = n := hm.pool.size
    rw [hm.pool.mem_free, Nat.mod_eq_of_lt hn, hcap, ← hrefs]
    refine and_congr_right fun _ => ⟨hm.pool.unused _, fun h0 => ?_⟩
    by_contra hu
    rcases hm.accounted ⟨i⟩ (by simpa using hu) with h | h
    · omega
    · exact h
  · have hsum := hm.pool.freeCount_add_usedCount hn
    have hcap : m.totalFrames = n := hm.pool.size
    rw [hcap]
    exact hsum

theorem runAll_destroy {hs : List Handle} (hm : Settled n m) (hall : ∀ h, m.isLive h = true → h ∈ hs) :
    ∃ m', runAll (hs.map .destroy) m = .ok m' ∧ Settled n m' ∧ ∀ h, m'.isLive h = false := by
  induction hs generalizing m with
  | nil => exact ⟨m, rfl, hm, fun h => by simpa using hall h⟩
  | cons h rest ih =>
    let Rest : Memory → Prop := fun m' => Settled n m' ∧ ∀ i, m'.isLive i = true → i ∈ rest
    have hd : (Memory.destroy h m).Meets (fun _ => Rest) (fun _ => Rest) fun _ => False := by
      refine (balanced_destroy hm).mono (fun _ m' ⟨hs, _, hl, _⟩ => ⟨hs, fun i hi => ?_⟩)
        (fun _ m' ⟨he, hl⟩ => ⟨he ▸ hm, fun i hi => ?_⟩) fun _ h => h
      · rw [hl, Bool.and_eq_true, bne_iff_ne] at hi
        exact (List.mem_cons.mp (hall i hi.1)).resolve_left hi.2
      · subst he
        have hne : i ≠ h := fun e => by rw [e, hl] at hi; cases hi
        exact (List.mem_cons.mp (hall i hi)).resolve_left hne
    rcases hd.after with ⟨m₁, hr, hs, hl⟩ | ⟨p, -, hp⟩
    · obtain ⟨m', hr', h'⟩ := ih hs hl
      refine ⟨m', ?_, h'⟩
      show (Memory.destroy h m).after >>= _ = _
      rw [hr]
      exact hr'
    · exact hp.elim

theorem refs_eq_zero_of_dead (hm : Settled n m) (hd : ∀ h, m.isLive h = false) (f : FrameId) : m.refs f = 0 := by
  rw [hm.refs_eq f, List.count_nil, Nat.add_zero]
  apply tally_eq_zero
  intro i o hi
  have hl := hd ⟨i⟩
  cases o with
  | none => rfl
  | some s => simp [isLive, space?, hi] at hl

theorem freeFrames_of_dead (hm : Settled n m) (hn : n < countLimit) (hd : ∀ h, m.isLive h = false) :
    m.freeFrames = m.totalFrames := by
  have hcap : m.totalFrames = n := hm.pool.size
  have hperm : m.frames.free.Perm (List.range n) := by
    rw [List.perm_ext_iff_of_nodup hm.pool.nodup List.nodup_range]
    intro i
    rw [(hm.conserved hn).free i, hcap, List.mem_range, ← (hm.conserved hn).refs]
    simp [refs_eq_zero_of_dead hm hd]
  rw [hcap, freeFrames, FramePool.freeCount, hperm.length_eq, List.length_range]

/-- Whatever the requests, every count is the number of owners, the frames without owners are free, no request
refers to a free frame or overflows a count while the live spaces fit the environment table, and with the last
space the last frame comes back. -/
theorem frames_conserved (hc : count < countLimit) (hm : Reachable count m) :
    m.Conserved ∧ m.totalFrames = count ∧
      (∀ op : Op, op.Allowed m →
        (∃ m', op.run m = .ok m') ∨ op.run m = .error .addOverflow ∧ Env.slotLimit < m.liveSpaces.length) ∧
      ∀ hs : List Handle, (∀ h, m.isLive h = true → h ∈ hs) →
        ∃ m', runAll (hs.map .destroy) m = .ok m' ∧ m'.freeFrames = count := by
  have hs := hm.settled
  refine ⟨hs.conserved hc, hs.pool.size, fun op ha => ?_, fun handles hall => ?_⟩
  · rcases Op.run_settled hs ha with ⟨m', hr, -⟩ | ⟨p, hr, rfl, hl⟩
    · exact .inl ⟨m', hr⟩
    · exact .inr ⟨hr, (liveCount_eq_length m) ▸ hl⟩
  · obtain ⟨m', hr, hs', hd⟩ := runAll_destroy hs hall
    have hcap : m'.totalFrames = count := hs'.pool.size
    exact ⟨m', hr, (freeFrames_of_dead hs' hc hd).trans hcap⟩

def fourFrames (entries : Ascending Mapping) : Memory where
  spaces := #[some { root := ⟨0⟩, table := { tables := [(0x400000, ⟨2⟩)], entries } }]
  frames :=
    { frames := #[{ refs := 1, inUse := true }, { refs := entries.length, inUse := true },
        { refs := 1, inUse := true }, {}]
      free := [3] }

def sharedPage : Memory := fourFrames [(0x400000, ⟨⟨1⟩, ⟨7⟩⟩), (0x401000, ⟨⟨1⟩, ⟨7⟩⟩)]

theorem reachable_sharedPage : Reachable 4 sharedPage := by
  let created : Memory :=
    { spaces := #[some { root := ⟨0⟩ }]
      frames := { frames := #[{ refs := 1, inUse := true }, {}, {}, {}], free := [1, 2, 3] } }
  have h₁ : Reachable 4 created := .step .create .start trivial (by decide +kernel)
  have h₂ : Reachable 4 (fourFrames [(0x400000, ⟨⟨1⟩, ⟨7⟩⟩)]) :=
    .step (.allocPage ⟨0⟩ 0x400000 ⟨7⟩) h₁ trivial (by decide +kernel)
  have hu : (fourFrames [(0x400000, ⟨⟨1⟩, ⟨7⟩⟩)]).frames.used ⟨1⟩ = true := by decide
  exact .step (.insert ⟨0⟩ ⟨1⟩ 0x401000 ⟨7⟩) h₂ hu (by decide +kernel)

theorem frames_conserved_sharedPage :
    4 < countLimit ∧ Reachable 4 sharedPage ∧ sharedPage.Conserved ∧
      ∃ m', runAll ([⟨0⟩].map .destroy) sharedPage = .ok m' ∧ m'.freeFrames = 4 := by
  have hc : 4 < countLimit := by decide
  obtain ⟨hcons, -, -, hall⟩ := frames_conserved hc reachable_sharedPage
  refine ⟨hc, reachable_sharedPage, hcons, hall [⟨0⟩] fun h hl => ?_⟩
  have h0 : h.index = 0 := by
    by_contra hn
    have hnone : sharedPage.spaces[h.index]? = none :=
      Array.getElem?_eq_none (Nat.one_le_iff_ne_zero.mpr hn)
    simp [isLive, space?, hnone] at hl
  cases h
  simp_all

/-! ## Whatever memory is asked for -/

/-- The states that memory comes to, whatever frames it is asked to map. -/
inductive Attainable (count : Nat) : Memory → Prop
  | start : Attainable count (ofFrames count)
  | step {m m' : Memory} (op : Op) : Attainable count m → op.run m = .ok m' → Attainable count m'
  | invalidated {m : Memory} : Attainable count m → Attainable count m.invalidate

theorem Reachable.attainable (hm : Reachable count m) : Attainable count m := by
  induction hm with
  | start => exact .start
  | step op _ _ hr ih => exact .step op ih hr

theorem readUser_beyond {h : Handle} {va len : Nat} (hva : ¬va < addressLimit) :
    (readUser h va len m).Meets (fun _ m' => m' = m) (fun _ m' => m' = m) (fun _ => True) := by
  rw [readUser]
  split
  · rfl
  · trivial

theorem writeUser_beyond {h : Handle} {va : Nat} {data : Bytes} (hva : ¬va < addressLimit) :
    (writeUser h va data m).Meets (fun _ m' => m' = m) (fun _ m' => m' = m) (fun _ => True) := by
  rw [writeUser]
  split
  · rfl
  · trivial

theorem Op.settles (hm : Settled n m) {op : Op} (hr : op.run m = .ok m') : Settled n m' := by
  have hafter : ∀ {ε α : Type} {o : Outcome Memory ε α},
      o.Meets (fun _ => Settled n) (fun _ => Settled n) (fun _ => True) → o.after = .ok m' → Settled n m' := by
    intro ε α o ho hr
    rcases ho.after with ⟨m₁, h₁, hs⟩ | ⟨p, h₁, -⟩
    · rw [hr] at h₁
      exact Except.ok.inj h₁ ▸ hs
    · rw [hr] at h₁
      cases h₁
  cases op with
  | create => exact hafter ((balanced_create hm).mono (fun _ _ h => h.1) (fun _ _ h => h.1) fun _ _ => trivial) hr
  | destroy h =>
    exact hafter ((balanced_destroy hm).mono (fun _ _ h => h.1) (fun _ _ h => h.1 ▸ hm) fun _ _ => trivial) hr
  | insert h frame va flags =>
    exact hafter ((balanced_insert_any hm).mono (fun _ _ h => h.1) (fun _ _ h => h.1) fun _ h => h) hr
  | allocPage h va flags =>
    exact hafter ((balanced_allocPage hm).mono (fun _ _ h => h.1) (fun _ _ h => h.1) fun _ _ => trivial) hr
  | remove h va =>
    exact hafter ((balanced_remove hm).mono (fun _ _ h => h.1) (fun _ _ h => h ▸ hm) fun _ _ => trivial) hr
  | writeUser h va data =>
    by_cases hva : va < addressLimit
    · exact hafter ((balanced_writeUser hm hva).mono (fun _ _ h => h.1) (fun _ _ h => h.1) fun _ _ => trivial) hr
    · exact hafter ((writeUser_beyond hva).mono (fun _ _ h => h ▸ hm) (fun _ _ h => h ▸ hm) fun _ h => h) hr
  | readUser h va len =>
    by_cases hva : va < addressLimit
    · exact hafter ((readUser_spec hm hva).mono (fun _ _ h => h ▸ hm) (fun _ _ h => h ▸ hm) fun _ _ => trivial) hr
    · exact hafter ((readUser_beyond hva).mono (fun _ _ h => h ▸ hm) (fun _ _ h => h ▸ hm) fun _ h => h) hr
  | denyAlloc =>
    cases hr
    exact settled_deny hm
  | denyMap =>
    cases hr
    exact ⟨hm.pool, hm.tables, hm.refs_eq, hm.accounted⟩

theorem Attainable.settled (hm : Attainable count m) : Settled count m := by
  induction hm with
  | start => exact settled_ofFrames count
  | step op _ hr ih => exact Op.settles ih hr
  | invalidated _ ih => exact ⟨ih.pool, ih.tables, ih.refs_eq, ih.accounted⟩

end Exokernel.Memory
