import Exokernel.Proofs.Memory.Supply

/-!
# What a destroyed space gives back

A space that is destroyed drops the references of its mappings, its page-table pages and its root, each of them once.
The frames that no other space refers to come back to the free list, and the others keep what they hold.
-/

set_option autoImplicit false

namespace Exokernel

namespace FramePool

variable {n : Nat} {p q : FramePool} {f : FrameId}

theorem free_suffix_release : p.free <:+ (p.release f).free := by
  have hreclaim : ∀ p : FramePool, p.free <:+ (p.reclaim f).free := by
    intro p
    cases hu : p.used f with
    | false => exact (reclaim_of_unused hu).symm ▸ List.suffix_refl p.free
    | true =>
      obtain ⟨fr, hfr, hin⟩ := frame_of_used hu
      rw [reclaim_eq hfr hin]
      exact List.suffix_cons f.index p.free
  simp only [release]
  split
  · exact hreclaim (p.update f fun x => { x with refs := x.refs - 1 })
  · exact List.suffix_refl _

/-- What a free list gains in front are the frames that went out of use. -/
theorem Sound.given_back (hp : p.Sound n) (hq : q.Sound n) (hs : p.free <:+ q.free) :
    ∃ back, q.free = back ++ p.free ∧ back.Nodup ∧ ∀ i, i ∈ back ↔ p.used ⟨i⟩ = true ∧ q.used ⟨i⟩ = false := by
  obtain ⟨back, hback⟩ := hs
  have hnodup := hq.nodup
  rw [← hback, List.nodup_append'] at hnodup
  refine ⟨back, hback.symm, hnodup.1, fun i => ?_⟩
  have hmem := hq.mem_free i
  rw [← hback, List.mem_append] at hmem
  constructor
  · intro hin
    obtain ⟨hbound, hu⟩ := hmem.mp (.inl hin)
    refine ⟨?_, hu⟩
    by_contra hfree
    exact hnodup.2.2 hin ((hp.mem_free i).mpr ⟨hbound, Bool.not_eq_true _ ▸ hfree⟩)
  · rintro ⟨hu, hfree⟩
    refine (hmem.mpr ⟨hp.used_lt ⟨i⟩ hu, hfree⟩).resolve_right fun hold => ?_
    rw [((hp.mem_free i).mp hold).2] at hu
    cases hu

end FramePool

namespace Memory

variable {n : Nat} {m m' : Memory} {h : Handle} {s : Space} {f : FrameId} {l : List FrameId}

theorem owed_pos : 0 < m.owed f ↔ ∃ i s, m.space? i = some s ∧ f ∈ s.refs := by
  constructor
  · intro hpos
    by_contra hnone
    have hzero : m.owed f = 0 := by
      refine tally_eq_zero fun i o hi => ?_
      cases o with
      | none => rfl
      | some s => exact List.count_eq_zero.mpr fun hm => hnone ⟨⟨i⟩, s, space?_of_getElem? hi, hm⟩
    omega
  · rintro ⟨i, s, hs, hm⟩
    exact Nat.lt_of_lt_of_le (List.count_pos_iff.mpr hm) (refs_count_le_owed hs f)

theorem Balanced.used_iff (hb : Settled n m) : m.frames.used f = true ↔ ∃ i s, m.space? i = some s ∧ f ∈ s.refs := by
  have hrefs := hb.refs_eq f
  rw [List.count_nil, Nat.add_zero] at hrefs
  rw [← owed_pos, hb.used_iff_refs, hrefs]

def Elsewhere (m : Memory) (h : Handle) (f : FrameId) : Prop := ∃ i s, i ≠ h ∧ m.space? i = some s ∧ f ∈ s.refs

theorem Balanced.used_iff_elsewhere (hb : Settled n m) (hs : m.space? h = some s) :
    m.frames.used f = true ↔ f ∈ s.refs ∨ m.Elsewhere h f := by
  rw [hb.used_iff]
  constructor
  · rintro ⟨i, s', hi, hf⟩
    by_cases hne : i = h
    · subst hne
      exact .inl (Option.some.inj (hs.symm.trans hi) ▸ hf)
    · exact .inr ⟨i, s', hne, hi, hf⟩
  · rintro (hf | ⟨i, s', -, hi, hf⟩)
    · exact ⟨h, s, hs, hf⟩
    · exact ⟨i, s', hi, hf⟩

theorem dropRefs_keeps (l : List FrameId) (m : Memory) : m.frames.free <:+ (l.foldl dropRef m).frames.free ∧
    (l.foldl dropRef m).frames.denyNext = m.frames.denyNext ∧
    (l.foldl dropRef m).denyNextMap = m.denyNextMap ∧ (l.foldl dropRef m).invalidations = m.invalidations := by
  induction l generalizing m with
  | nil => exact ⟨List.suffix_refl _, rfl, rfl, rfl⟩
  | cons f l ih =>
    obtain ⟨hfree, hd, hm⟩ := ih (m.dropRef f)
    exact ⟨FramePool.free_suffix_release.trans hfree, hd.trans FramePool.release_free.2, hm⟩

structure Returned (m : Memory) (h : Handle) (s : Space) (m' : Memory) : Prop where
  gone : m'.space? h = none
  others : ∀ i, i ≠ h → m'.space? i = m.space? i
  refs : ∀ f, m'.refs f + s.refs.count f = m.refs f
  used : ∀ f, m'.frames.used f = true ↔ m.Elsewhere h f
  free : ∃ back : List Nat, m'.frames.free = back ++ m.frames.free ∧ back.Nodup ∧
    ∀ i, i ∈ back ↔ ⟨i⟩ ∈ s.refs ∧ ¬m.Elsewhere h ⟨i⟩
  shrunk : m.frames.Shrunk m'.frames
  denyNext : m'.frames.denyNext = m.frames.denyNext
  denyNextMap : m'.denyNextMap = m.denyNextMap
  invalidated : m'.invalidations = m.invalidations + 1
  total : m'.totalFrames = m.totalFrames

def drops (s : Space) : List FrameId := s.table.entries.values.map Mapping.frame ++ s.table.tables.values ++ [s.root]

theorem drops_perm (s : Space) : s.refs.Perm (drops s) := by
  simp only [Space.refs, PageTable.frames, drops]
  exact (List.perm_append_comm.cons _).trans (List.perm_append_singleton _ _).symm

theorem destroy_apply (hs : m.space? h = some s) :
    destroy h m = .done () ((drops s).foldl dropRef (m.setSpace h none)).invalidate := by
  have hok : m.space h = .ok s := by simp only [space, hs]
  rw [destroy, Action.state_bind, hok, Action.lift_ok_bind]
  simp only [drops, List.foldl_append, List.foldl_map]
  rfl

theorem settled_drops (hb : Settled n m) (hs : m.space? h = some s) :
    Settled n ((drops s).foldl dropRef (m.setSpace h none)) := by
  have hp : (refsOf (some s) ++ []).Perm (refsOf none ++ (drops s ++ [])) := by
    rw [List.append_nil, List.append_nil]
    exact drops_perm s
  exact (hb.setSpace (getElem?_of_space? hs) hp fun _ h => nomatch h).dropRefs

/-- A live space is there to be destroyed, and gives back what it alone referred to. -/
theorem destroy_returns (hb : Settled n m) (hc : m.frames.Clear) (hs : m.space? h = some s) :
    ∃ m', destroy h m = .done () m' ∧ Returned m h s m' := by
  have hi := getElem?_of_space? hs
  have hb' : Settled n ((drops s).foldl dropRef (m.setSpace h none)).invalidate :=
    have hd := settled_drops hb hs
    ⟨hd.pool, hd.tables, hd.refs_eq, hd.accounted⟩
  have hspaces : ((drops s).foldl dropRef (m.setSpace h none)).invalidate.spaces = (m.setSpace h none).spaces :=
    spaces_dropRefs _
  obtain ⟨hsuffix, hdeny, hmap, hinval⟩ := dropRefs_keeps (drops s) (m.setSpace h none)
  obtain ⟨-, hshrunk⟩ := dropRefs_effect (drops s) (m := m.setSpace h none) hc
  refine ⟨_, destroy_apply hs, ?_⟩
  generalize hm' : ((drops s).foldl dropRef (m.setSpace h none)).invalidate = m' at hb' hspaces
  have hgone : m'.space? h = none := by
    rw [space?, hspaces]
    exact space?_setSpace_self hi
  have hothers : ∀ i, i ≠ h → m'.space? i = m.space? i := fun i hne => by
    rw [space?, hspaces]
    exact space?_setSpace_of_ne hne
  have hused : ∀ f, m'.frames.used f = true ↔ m.Elsewhere h f := fun f => by
    rw [hb'.used_iff]
    constructor
    · rintro ⟨i, s', hi', hf⟩
      have hne : i ≠ h := fun e => by rw [e, hgone] at hi'; cases hi'
      exact ⟨i, s', hne, (hothers i hne).symm.trans hi', hf⟩
    · rintro ⟨i, s', hne, hi', hf⟩
      exact ⟨i, s', (hothers i hne).trans hi', hf⟩
  subst hm'
  refine ⟨hgone, hothers, fun f => ?_, hused, ?_, hshrunk, hdeny, hmap, congrArg (· + 1) hinval,
    hb'.pool.size.trans hb.pool.size.symm⟩
  · have hnow := hb'.refs_eq f
    have hthen := hb.refs_eq f
    have howed : ((drops s).foldl dropRef (m.setSpace h none)).invalidate.owed f = (m.setSpace h none).owed f := by
      rw [owed, hspaces, owed]
    have hset := owed_setSpace (b := none) hi f
    simp only [refsOf, List.count_nil] at hnow hthen hset
    omega
  · obtain ⟨back, hfree, hnodup, hback⟩ := hb.pool.given_back hb'.pool hsuffix
    refine ⟨back, hfree, hnodup, fun i => (hback i).trans ?_⟩
    rw [hb.used_iff_elsewhere hs, ← Bool.not_eq_true, hused]
    exact and_congr_left fun hnone => or_iff_left hnone

end Memory

end Exokernel
