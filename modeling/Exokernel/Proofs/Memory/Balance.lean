import Exokernel.Memory.Space
import Exokernel.Proofs.Memory.Paging
import Exokernel.Proofs.Memory.Pool
import Exokernel.Proofs.Outcome
import Exokernel.Proofs.Tally
import Mathlib.Algebra.BigOperators.Ring.List

/-!
# Balanced memory

The reference count of a frame is what the live spaces owe it, together with the references that an operation
holds while it is under way. Frames in use have references, apart from those that an operation has taken and not
referenced yet. Each primitive step moves references between the held ones and the spaces.
-/

set_option autoImplicit false

namespace Exokernel

def Space.refs (s : Space) : List FrameId := s.root :: s.table.frames

namespace Memory

variable {n : Nat} {m m' : Memory} {f g : FrameId} {h : Handle} {s s' : Space} {a b : Option Space}
  {held held' : List FrameId} {loose loose' : FrameId → Prop}

def refsOf : Option Space → List FrameId
  | none => []
  | some s => s.refs

def owed (m : Memory) (f : FrameId) : Nat := tally (fun s => (refsOf s).count f) m.spaces

def liveCount (m : Memory) : Nat := tally (fun s => if s.isSome then 1 else 0) m.spaces

def isLive (m : Memory) (h : Handle) : Bool := (m.space? h).isSome

structure Balanced (n : Nat) (m : Memory) (held : List FrameId) (loose : FrameId → Prop) : Prop where
  pool : m.frames.Sound n
  tables : ∀ h s, m.space? h = some s → s.table.Sound
  refs_eq : ∀ f, m.refs f = m.owed f + held.count f
  accounted : ∀ f, m.frames.used f = true → 0 < m.refs f ∨ loose f

abbrev Settled (n : Nat) (m : Memory) : Prop := Balanced n m [] fun _ => False

def spaceLimit : Nat := Env.slotLimit

theorem getElem?_of_space? (hs : m.space? h = some s) : m.spaces[h.index]? = some (some s) := by
  rw [space?] at hs
  cases hi : m.spaces[h.index]? with
  | none => rw [hi] at hs; cases hs
  | some o => rw [hi] at hs; rw [show o = some s from hs]

theorem space?_of_getElem? {i : Nat} (hi : m.spaces[i]? = some (some s)) : m.space? ⟨i⟩ = some s := by
  simp [space?, hi]

theorem space?_setSpace_of_ne {h' : Handle} (hne : h' ≠ h) :
    (m.setSpace h b).space? h' = m.space? h' := by
  have hi : h.index ≠ h'.index := fun e => hne (by cases h; cases h'; simp_all)
  simp [space?, setSpace, hi]

theorem space?_setSpace_self (hi : m.spaces[h.index]? = some a) : (m.setSpace h b).space? h = b := by
  obtain ⟨hlt, -⟩ := Array.getElem?_eq_some_iff.mp hi
  simp [space?, setSpace, hlt]

theorem owed_setSpace (hi : m.spaces[h.index]? = some a) (f : FrameId) :
    (m.setSpace h b).owed f + (refsOf a).count f = m.owed f + (refsOf b).count f :=
  tally_set (fun s => (refsOf s).count f) b hi

theorem liveCount_setSpace (hi : m.spaces[h.index]? = some a) :
    (m.setSpace h b).liveCount + (if a.isSome then 1 else 0) =
      m.liveCount + if b.isSome then 1 else 0 :=
  tally_set (fun s : Option Space => if s.isSome then 1 else 0) b hi

theorem refs_count_le_owed (hs : m.space? h = some s) (f : FrameId) : s.refs.count f ≤ m.owed f :=
  le_tally (fun s => (refsOf s).count f) (getElem?_of_space? hs)

theorem Balanced.narrow (hb : Balanced n m held loose) (hl : ∀ f, loose f → loose' f ∨ 0 < m.refs f) :
    Balanced n m held loose' :=
  ⟨hb.pool, hb.tables, hb.refs_eq, fun f hf => (hb.accounted f hf).elim .inl fun h => (hl f h).symm⟩

theorem Balanced.refs_pos (hb : Balanced n m held loose) (hs : m.space? h = some s) (hf : f ∈ s.refs) :
    0 < m.refs f := by
  have h1 := hb.refs_eq f
  have h2 := refs_count_le_owed hs f
  have h3 := List.count_pos_iff.mpr hf
  omega

theorem Balanced.used_of_mem (hb : Balanced n m held loose) (hs : m.space? h = some s) (hf : f ∈ s.refs) :
    m.frames.used f = true :=
  hb.pool.used_of_refs (hb.refs_pos hs hf)

theorem Balanced.used_iff_refs (hb : Settled n m) (f : FrameId) : m.frames.used f = true ↔ 0 < m.refs f :=
  ⟨fun hu => (hb.accounted f hu).resolve_right id, fun hr => hb.pool.used_of_refs hr⟩

theorem Balanced.alike {p : FramePool} (hb : Balanced n m held loose) (ha : FramePool.Alike m.frames p) :
    Balanced n { m with frames := p } held loose :=
  ⟨ha.sound hb.pool, hb.tables, fun f => (ha.refs f).trans (hb.refs_eq f),
    fun f hf => (hb.accounted f (ha.used f ▸ hf)).imp_left fun h => h.trans_eq (ha.refs f).symm⟩

theorem Balanced.owed_le (hb : Balanced n m held loose) (f : FrameId) :
    m.owed f ≤ m.liveCount * (PageTable.framesLimit + 1) := by
  have hle : m.owed f ≤ tally (fun s : Option Space => if s.isSome then PageTable.framesLimit + 1 else 0) m.spaces := by
    apply tally_le_tally
    intro i o hi
    cases o with
    | none => simp [refsOf]
    | some s =>
      have hlen := (hb.tables _ s (space?_of_getElem? hi)).frames_length_le
      have hcount := List.count_le_length (a := f) (l := s.refs)
      simp only [Space.refs, List.length_cons] at hcount
      simp only [refsOf, Option.isSome_some, if_true]
      simp only [Space.refs]
      omega
  have hmul : tally (fun s : Option Space => if s.isSome then PageTable.framesLimit + 1 else 0) m.spaces =
      m.liveCount * (PageTable.framesLimit + 1) := by
    rw [liveCount, tally, tally, ← List.sum_map_mul_right]
    congr 1
    apply List.map_congr_left
    intro s _
    split <;> simp
  exact hle.trans_eq hmul

theorem Balanced.refs_room (hb : Balanced n m held loose) (hl : m.liveCount ≤ spaceLimit) (hh : held.length ≤ 1)
    (f : FrameId) : m.refs f + 1 < countLimit := by
  have h1 := hb.refs_eq f
  have h2 := hb.owed_le f
  have h3 := List.count_le_length (a := f) (l := held)
  have h4 : m.liveCount * (PageTable.framesLimit + 1) ≤ spaceLimit * (PageTable.framesLimit + 1) :=
    Nat.mul_le_mul_right _ hl
  have h5 : spaceLimit * (PageTable.framesLimit + 1) + 2 < countLimit := by decide
  omega

theorem settled_ofFrames (count : Nat) : Settled count (ofFrames count) := by
  have hpool := FramePool.sound_ofSize count
  have hused : ∀ f, (FramePool.ofSize count).used f = false := by
    intro f
    by_cases hf : f.index < count <;> simp [FramePool.used, FramePool.ofSize, hf]
  refine ⟨hpool, fun h s hs => ?_, fun f => ?_, fun f hf => ?_⟩
  · simp [space?, ofFrames] at hs
  · exact hpool.unused f (hused f)
  · exact absurd hf (by simp [ofFrames, hused])

structure Kept (m m' : Memory) : Prop where
  live : ∀ h, m'.isLive h = m.isLive h
  count : m'.liveCount = m.liveCount

theorem Kept.trans {m'' : Memory} (h : Kept m m') (h' : Kept m' m'') : Kept m m'' :=
  ⟨fun i => (h'.live i).trans (h.live i), h'.count.trans h.count⟩

theorem kept_of_spaces (h : m'.spaces = m.spaces) : Kept m m' :=
  ⟨fun i => by simp [isLive, space?, h], by simp [liveCount, h]⟩

theorem kept_setSpace (hs : m.space? h = some s) : Kept m (m.setSpace h (some s')) := by
  refine ⟨fun i => ?_, ?_⟩
  · by_cases hi : i = h
    · subst hi; simp [isLive, space?_setSpace_self (getElem?_of_space? hs), hs]
    · simp [isLive, space?_setSpace_of_ne hi]
  · simpa using liveCount_setSpace (b := some s') (getElem?_of_space? hs)

/-- An edit of a space trades the references that it gains for held ones, and lets go of those that it loses. -/
theorem Balanced.setSpace (hb : Balanced n m held loose) (hi : m.spaces[h.index]? = some a)
    (hp : (refsOf a ++ held).Perm (refsOf b ++ held')) (ht : ∀ s, b = some s → s.table.Sound) :
    Balanced n (m.setSpace h b) held' loose := by
  refine ⟨hb.pool, fun h' s' hs' => ?_, fun f => ?_, hb.accounted⟩
  · by_cases hh : h' = h
    · subst hh
      rw [space?_setSpace_self hi] at hs'
      exact ht s' hs'
    · rw [space?_setSpace_of_ne hh] at hs'
      exact hb.tables h' s' hs'
  · have h1 := hb.refs_eq f
    have h2 := owed_setSpace (b := b) hi f
    have h3 := hp.count_eq f
    rw [List.count_append, List.count_append] at h3
    show m.refs f = _
    omega

theorem Balanced.dropRef (hb : Balanced n m (f :: held) loose) : Balanced n (m.dropRef f) held loose := by
  obtain ⟨hpool, hrefs, hused⟩ := FramePool.release_spec (f := f) hb.pool
  refine ⟨hpool, hb.tables, fun g => ?_, fun g hg => ?_⟩
  · have h1 := hb.refs_eq g
    have h2 := hrefs g
    rw [List.count_cons] at h1
    show (m.frames.release f).refs g = m.owed g + held.count g
    simp only [refs, beq_iff_eq, eq_comm (a := f)] at h1
    split at h1 <;> simp_all
  · change (m.frames.release f).used g = true at hg
    show 0 < (m.frames.release f).refs g ∨ loose g
    rw [hused, Bool.and_eq_true] at hg
    rw [hrefs]
    obtain ⟨hg, hmore⟩ := hg
    by_cases hgf : g = f
    · subst hgf
      have hlt : 1 < m.frames.refs g := by simpa using hmore
      left
      rw [if_pos rfl]
      omega
    · rw [if_neg hgf]
      exact hb.accounted g hg

theorem Balanced.dropRefs {l : List FrameId} (hb : Balanced n m (l ++ held) loose) :
    Balanced n (l.foldl Memory.dropRef m) held loose := by
  induction l generalizing m with
  | nil => exact hb
  | cons f l ih => exact ih hb.dropRef

theorem spaces_dropRefs (l : List FrameId) : (l.foldl Memory.dropRef m).spaces = m.spaces := by
  induction l generalizing m with
  | nil => rfl
  | cons f l ih => exact ih

theorem balanced_takeFrame (hb : Balanced n m held loose) :
    (takeFrame m).Meets
      (fun f m' => Balanced n m' held (fun g => loose g ∨ g = f) ∧ m'.spaces = m.spaces ∧ m'.frames.used f = true ∧
        ∀ g, m.frames.used g = true → m'.frames.used g = true)
      (fun _ m' => Balanced n m' held loose ∧ m'.spaces = m.spaces) (fun _ => False) := by
  rw [takeFrame]
  rcases FramePool.alloc_cases hb.pool with ⟨q, hq, ha⟩ | ⟨f, q, hq, hs, -, hr, hu⟩
  · rw [hq]
    exact ⟨hb.alike ha, rfl⟩
  · rw [hq]
    refine ⟨⟨hs, hb.tables, fun g => (hr g).trans (hb.refs_eq g), fun g hg => ?_⟩, rfl, ?_, fun g hg => ?_⟩
    · change q.used g = true at hg
      show 0 < q.refs g ∨ loose g ∨ g = f
      rw [hu, Bool.or_eq_true, beq_iff_eq] at hg
      rw [hr]
      rcases hg with hg | hg
      · exact (hb.accounted g hg).imp_right .inl
      · exact .inr (.inr hg)
    · show q.used f = true
      simp [hu]
    · show q.used g = true
      simp [hu, hg]

/-- Referring to a frame in use never meets a free frame. -/
theorem balanced_addRef (hb : Balanced n m held loose) (hu : m.frames.used f = true) :
    (addRef f m).Meets
      (fun _ m' => Balanced n m' (f :: held) loose ∧ m'.spaces = m.spaces ∧ 0 < m'.refs f ∧
        ∀ g, m'.frames.used g = m.frames.used g)
      (fun _ _ => False) (fun p => p = .addOverflow ∧ countLimit ≤ m.refs f + 1) := by
  rw [addRef]
  rcases FramePool.retain_cases hb.pool hu with ⟨hq, hlim⟩ | ⟨q, hq, hs, hr, hus⟩
  · rw [hq]
    exact ⟨rfl, hlim⟩
  · rw [hq]
    refine ⟨⟨hs, hb.tables, fun g => ?_, fun g hg => ?_⟩, rfl, ?_, hus⟩
    · have h1 := hb.refs_eq g
      have h2 := hr g
      show q.refs g = m.owed g + _
      simp only [refs] at h1
      rw [List.count_cons, h2, h1]
      simp only [beq_iff_eq, eq_comm (a := f)]
      omega
    · change q.used g = true at hg
      show 0 < q.refs g ∨ loose g
      rw [hr]
      exact (hb.accounted g (hus g ▸ hg)).imp_left (Nat.lt_add_right _)
    · show 0 < q.refs f
      simp [hr]

/-- A space that an operation holds the references of goes to a handle that was not live. -/
theorem balanced_store (hb : Balanced n m (s.refs ++ held) loose) (ht : s.table.Sound) :
    (store s m).Meets
      (fun h m' => Balanced n m' held loose ∧ m.isLive h = false ∧ (∀ i, m'.isLive i = (m.isLive i || i == h)) ∧
        m'.liveCount = m.liveCount + 1)
      (fun _ _ => False) (fun _ => False) := by
  simp only [store, Action.advance]
  split
  · next i hfind =>
    obtain ⟨hlt, hnone, -⟩ := Array.findIdx?_eq_some_iff_getElem.mp hfind
    have hi : m.spaces[(⟨i⟩ : Handle).index]? = some none := by simpa [hlt] using hnone
    refine ⟨hb.setSpace hi (List.Perm.refl _) fun s' h' => Option.some.inj h' ▸ ht, ?_, fun j => ?_, ?_⟩
    · simp [isLive, space?, hi]
    · by_cases hj : j = ⟨i⟩
      · subst hj; simp [isLive, space?_setSpace_self hi]
      · simp [isLive, space?_setSpace_of_ne hj, hj]
    · simpa using liveCount_setSpace (b := some s) hi
  · have hpush : ∀ j : Handle, ({ m with spaces := m.spaces.push (some s) } : Memory).space? j =
        if j.index = m.spaces.size then some s else m.space? j := by
      intro j
      simp only [space?, Array.getElem?_push]
      split <;> rfl
    refine ⟨⟨hb.pool, fun j s' hs' => ?_, fun f => ?_, hb.accounted⟩, ?_, fun j => ?_, ?_⟩
    · rw [hpush] at hs'
      split at hs'
      · exact Option.some.inj hs' ▸ ht
      · exact hb.tables j s' hs'
    · have h1 := hb.refs_eq f
      have h2 := tally_push (fun s => (refsOf s).count f) m.spaces (some s)
      rw [List.count_append] at h1
      show m.refs f = tally _ _ + _
      rw [h2, h1]
      show m.owed f + _ = m.owed f + s.refs.count f + _
      omega
    · simp [isLive, space?]
    · rw [isLive, hpush]
      by_cases hj : j.index = m.spaces.size
      · have hj' : j = ⟨m.spaces.size⟩ := by cases j; simp_all
        simp [hj']
      · have hj' : j ≠ ⟨m.spaces.size⟩ := fun e => hj (by rw [e])
        simp [hj, hj', isLive]
    · exact tally_push (fun s : Option Space => if s.isSome then 1 else 0) m.spaces (some s)

end Memory

end Exokernel
