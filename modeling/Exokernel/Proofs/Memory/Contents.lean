import Exokernel.Proofs.Memory.Pool

/-!
# Contents of frames

Frames that are not in use hold nothing. Taking frames and counting references leaves the frames in use as they
are; giving frames back leaves alone the ones that stay. A frame that was taken and is given back at once leaves no
trace in the pool.
-/

set_option autoImplicit false

namespace Exokernel.FramePool

variable {n : Nat} {p q r : FramePool} {f g : FrameId} {φ : Frame → Frame}

def Clear (p : FramePool) : Prop := ∀ (i : Nat) fr, p.frames[i]? = some fr → fr.inUse = false → fr.contents = none

def Grown (p q : FramePool) : Prop := ∀ f, p.used f = true → q.used f = true ∧ q.page f = p.page f

def Shrunk (p q : FramePool) : Prop := ∀ f, q.used f = true → p.used f = true ∧ q.page f = p.page f

theorem Grown.refl (p : FramePool) : Grown p p := fun _ h => ⟨h, rfl⟩

theorem Shrunk.refl (p : FramePool) : Shrunk p p := fun _ h => ⟨h, rfl⟩

theorem Grown.trans (h : Grown p q) (h' : Grown q r) : Grown p r := fun f hf =>
  have hq := h f hf
  have hr := h' f hq.1
  ⟨hr.1, hr.2.trans hq.2⟩

theorem Shrunk.trans (h : Shrunk p q) (h' : Shrunk q r) : Shrunk p r := fun f hf =>
  have hr := h' f hf
  have hq := h f hr.1
  ⟨hq.1, hr.2.trans hq.2⟩

theorem Alike.trans (h : Alike p q) (h' : Alike q r) : Alike p r :=
  ⟨fun f => (h'.refs f).trans (h.refs f), fun f => (h'.used f).trans (h.used f), h'.free.trans h.free,
    h'.size.trans h.size⟩

theorem clear_ofSize (count : Nat) : (ofSize count).Clear := by
  intro i fr hi _
  simp only [ofSize, Array.getElem?_replicate] at hi
  split at hi
  · rw [← Option.some.inj hi]
  · cases hi

theorem page_update_of_ne (h : g ≠ f) : (p.update f φ).page g = p.page g := by
  have hi : f.index ≠ g.index := fun e => h (by cases f; cases g; simp_all)
  rw [page, getElem?_update, if_neg hi, page]

theorem page_keep (hφ : ∀ x, (φ x).contents = x.contents) : (p.update f φ).page g = p.page g := by
  rw [page, page, getElem?_update]
  split
  · cases p.frames[g.index]? <;> simp [Frame.page, hφ]
  · rfl

theorem Clear.update (h : p.Clear)
    (hφ : ∀ fr, p.frames[f.index]? = some fr → (φ fr).inUse = false → (φ fr).contents = none) :
    (p.update f φ).Clear := by
  intro i fr hi hu
  rw [getElem?_update] at hi
  split at hi
  · next hf =>
    subst hf
    obtain ⟨x, hx, rfl⟩ := Option.map_eq_some_iff.mp hi
    exact hφ x hx hu
  · exact h i fr hi hu

theorem Clear.keep (h : p.Clear) (hφ : ∀ x, (φ x).inUse = x.inUse ∧ (φ x).contents = x.contents) :
    (p.update f φ).Clear := by
  refine h.update fun fr hfr hu => ?_
  obtain ⟨hin, hc⟩ := hφ fr
  rw [hc]
  exact h _ fr hfr (hin ▸ hu)

theorem alloc_eq (h : p.alloc = (some f, q)) : p.denyNext = false ∧ ∃ rest, p.free = f.index :: rest ∧
    q = ({ p with free := rest } : FramePool).update f fun _ => { inUse := true } := by
  unfold alloc at h
  split at h
  · cases h
  · next hd =>
    refine ⟨by simpa using hd, ?_⟩
    split at h
    · cases h
    · next i rest hfree =>
      cases h
      exact ⟨rest, hfree, rfl⟩

theorem Sound.head_blank (hp : p.Sound n) (hc : p.Clear) {rest : List Nat} (h : p.free = f.index :: rest) :
    p.frames[f.index]? = some {} ∧ p.used f = false := by
  obtain ⟨hlt, hu⟩ := (hp.mem_free f.index).mp (by rw [h]; exact List.mem_cons_self)
  have hlt' : f.index < p.frames.size := hp.size ▸ Nat.lt_of_lt_of_le hlt (Nat.mod_le _ _)
  have hfr : p.frames[f.index]? = some p.frames[f.index] := Array.getElem?_eq_getElem hlt'
  have hin : p.frames[f.index].inUse = false := (used_of_frame hfr).symm.trans hu
  have hrefs : p.frames[f.index].refs = 0 := (refs_of_frame hfr).symm.trans (hp.unused f hu)
  have hnone := hc _ _ hfr hin
  refine ⟨hfr.trans (congrArg some ?_), hu⟩
  cases hx : p.frames[f.index] with
  | mk refs inUse contents =>
    rw [hx] at hin hrefs hnone
    simp_all

theorem alloc_clear (hc : p.Clear) (h : p.alloc = (some f, q)) : q.Clear := by
  obtain ⟨-, rest, -, rfl⟩ := alloc_eq h
  exact Clear.update (p := { p with free := rest }) hc fun _ _ hu => nomatch hu

theorem alloc_grown (hp : p.Sound n) (h : p.alloc = (some f, q)) : Grown p q := by
  obtain ⟨-, rest, hfree, rfl⟩ := alloc_eq h
  have hu : p.used f = false := ((hp.mem_free f.index).mp (by rw [hfree]; exact List.mem_cons_self)).2
  intro g hg
  have hne : g ≠ f := fun e => by rw [e, hu] at hg; cases hg
  refine ⟨?_, page_update_of_ne hne⟩
  have hi : f.index ≠ g.index := fun e => hne (by cases f; cases g; simp_all)
  rw [used, getElem?_update, if_neg hi]
  exact hg

theorem alloc_none (h : p.alloc = (none, q)) :
    q = { p with denyNext := q.denyNext } ∧ (q.denyNext = true → p.denyNext = true) := by
  unfold alloc at h
  split at h
  · cases h
    exact ⟨rfl, fun h => nomatch h⟩
  · split at h
    · cases h
      exact ⟨rfl, fun h => h⟩
    · cases h

theorem retain_eq (h : p.retain f = .ok q) : q = p.update f fun x => { x with refs := x.refs + 1 } := by
  unfold retain at h
  split at h
  · cases h
  · split at h
    · cases h
    · split at h
      · cases h
        rfl
      · cases h

theorem retain_grown (h : p.retain f = .ok q) : Grown p q := by
  obtain rfl := retain_eq h
  intro g hg
  have hu : (p.update f fun x => { x with refs := x.refs + 1 }).used g = p.used g := used_keep fun _ => rfl
  exact ⟨hu.trans hg, page_keep fun _ => rfl⟩

theorem retain_clear (hc : p.Clear) (h : p.retain f = .ok q) : q.Clear := by
  obtain rfl := retain_eq h
  exact hc.keep fun _ => ⟨rfl, rfl⟩

theorem reclaim_eq {fr : Frame} (hfr : p.frames[f.index]? = some fr) (hu : fr.inUse = true) :
    p.reclaim f = ({ p with free := f.index :: p.free } : FramePool).update f
      fun x => { x with inUse := false, contents := none } := by
  simp [reclaim, hfr, hu]

theorem reclaim_of_unused (h : p.used f = false) : p.reclaim f = p := by
  unfold reclaim
  split
  · rfl
  · next fr hfr =>
    rw [used_of_frame hfr] at h
    simp [h]

theorem reclaim_shrunk : Shrunk p (p.reclaim f) := by
  cases hu : p.used f with
  | false =>
    rw [reclaim_of_unused hu]
    exact .refl p
  | true =>
    obtain ⟨fr, hfr, hin⟩ := frame_of_used hu
    rw [reclaim_eq hfr hin]
    intro g hg
    have hne : g ≠ f := by
      rintro rfl
      rw [used_update (p := { p with free := g.index :: p.free }) fr hfr, if_pos rfl] at hg
      cases hg
    rw [used_update (p := { p with free := f.index :: p.free }) fr hfr, if_neg hne] at hg
    exact ⟨hg, page_update_of_ne (p := { p with free := f.index :: p.free }) hne⟩

theorem reclaim_clear (hc : p.Clear) : (p.reclaim f).Clear := by
  cases hu : p.used f with
  | false =>
    rw [reclaim_of_unused hu]
    exact hc
  | true =>
    obtain ⟨fr, hfr, hin⟩ := frame_of_used hu
    rw [reclaim_eq hfr hin]
    exact Clear.update (p := { p with free := f.index :: p.free }) hc fun _ _ _ => rfl

theorem release_shrunk : Shrunk p (p.release f) := by
  have hdrop : Shrunk p (p.update f fun x => { x with refs := x.refs - 1 }) := by
    intro g hg
    have hu : (p.update f fun x => { x with refs := x.refs - 1 }).used g = p.used g := used_keep fun _ => rfl
    exact ⟨hu.symm.trans hg, page_keep fun _ => rfl⟩
  simp only [release]
  split
  · exact hdrop.trans reclaim_shrunk
  · exact hdrop

theorem release_clear (hc : p.Clear) : (p.release f).Clear := by
  have hdrop : (p.update f fun x => { x with refs := x.refs - 1 }).Clear := hc.keep fun _ => ⟨rfl, rfl⟩
  simp only [release]
  split
  · exact reclaim_clear hdrop
  · exact hdrop

/-- Giving back a frame that was just taken restores the pool, the order of the free list included. -/
theorem releaseUnused_of_alloc (hp : p.Sound n) (hc : p.Clear) (h : p.alloc = (some f, q)) :
    q.releaseUnused f = p := by
  obtain ⟨-, rest, hfree, rfl⟩ := alloc_eq h
  obtain ⟨hfr, -⟩ := hp.head_blank hc hfree
  have hfr' : (({ p with free := rest } : FramePool).update f fun _ => { inUse := true }).frames[f.index]? =
      some { inUse := true } := by
    rw [getElem?_update, if_pos rfl]
    exact congrArg (Option.map _) hfr
  rw [releaseUnused, refs_of_frame hfr', if_pos rfl, reclaim_eq hfr' rfl]
  -- Only the record of the frame was written, twice, and the second time to what it had been.
  have hframes : (p.frames.modify f.index fun _ => { inUse := true }).modify f.index
      (fun x => { x with inUse := false, contents := none }) = p.frames := by
    apply Array.ext_getElem?
    intro i
    rw [Array.getElem?_modify, Array.getElem?_modify]
    split
    · next hi =>
      subst hi
      rw [hfr]
      rfl
    · rfl
  cases p with
  | mk frames free denyNext =>
    simp only [update] at hframes hfree ⊢
    rw [hframes, hfree]

theorem write_clear {offset : Nat} {data : Bytes} (hc : p.Clear) (hu : p.used f = true) :
    (p.write f offset data).Clear := by
  refine hc.update fun fr hfr hin => ?_
  rw [used_of_frame hfr] at hu
  rw [show fr.inUse = false from hin] at hu
  cases hu

end Exokernel.FramePool
