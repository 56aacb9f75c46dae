import Exokernel.Memory.FramePool
import Mathlib.Data.List.Nodup
import Mathlib.Data.List.Perm.Basic

/-!
# Sound frame pools

The free list names every frame that is not in use once, and such a frame has no references. Each operation on
a pool keeps this and has a plain effect on the two observations of a frame: whether it is in use and how many
references it has.
-/

set_option autoImplicit false

namespace Exokernel.FramePool

variable {n : Nat} {p q : FramePool} {f g : FrameId}

def used (p : FramePool) (f : FrameId) : Bool := (p.frames[f.index]?.map Frame.inUse).getD false

def usedCount (p : FramePool) : Nat := p.frames.toList.countP Frame.inUse

structure Sound (n : Nat) (p : FramePool) : Prop where
  size : p.frames.size = n
  nodup : p.free.Nodup
  mem_free : ∀ i, i ∈ p.free ↔ i < n % countLimit ∧ p.used ⟨i⟩ = false
  used_lt : ∀ f, p.used f = true → f.index < n % countLimit
  unused : ∀ f, p.used f = false → p.refs f = 0

theorem Sound.used_of_refs (hp : p.Sound n) (h : 0 < p.refs f) : p.used f = true := by
  by_contra hu
  have h0 := hp.unused f (by simpa using hu)
  omega

structure Alike (p q : FramePool) : Prop where
  refs : ∀ f, q.refs f = p.refs f
  used : ∀ f, q.used f = p.used f
  free : q.free = p.free
  size : q.frames.size = p.frames.size

theorem Alike.sound (h : Alike p q) (hp : p.Sound n) : q.Sound n where
  size := h.size.trans hp.size
  nodup := h.free ▸ hp.nodup
  mem_free i := by rw [h.free, h.used]; exact hp.mem_free i
  used_lt f hf := hp.used_lt f (h.used f ▸ hf)
  unused f hf := by rw [h.refs]; exact hp.unused f (h.used f ▸ hf)

section update

variable {φ : Frame → Frame}

theorem getElem?_update (i : Nat) :
    (p.update f φ).frames[i]? = if f.index = i then p.frames[i]?.map φ else p.frames[i]? := by
  simp [update, Array.getElem?_modify]

@[simp] theorem free_update : (p.update f φ).free = p.free := rfl

@[simp] theorem size_update : (p.update f φ).frames.size = p.frames.size := by simp [update]

theorem refs_update (fr : Frame) (h : p.frames[f.index]? = some fr) :
    (p.update f φ).refs g = if g = f then (φ fr).refs else p.refs g := by
  rw [refs, getElem?_update]
  by_cases hg : g = f
  · subst hg; simp [h]
  · have hi : f.index ≠ g.index := fun e => hg (by cases f; cases g; simp_all)
    simp [hg, hi, refs]

theorem used_update (fr : Frame) (h : p.frames[f.index]? = some fr) :
    (p.update f φ).used g = if g = f then (φ fr).inUse else p.used g := by
  rw [used, getElem?_update]
  by_cases hg : g = f
  · subst hg; simp [h]
  · have hi : f.index ≠ g.index := fun e => hg (by cases f; cases g; simp_all)
    simp [hg, hi, used]

theorem update_of_none (h : p.frames[f.index]? = none) : p.update f φ = p := by
  have hs : p.frames.modify f.index φ = p.frames := by
    apply Array.ext_getElem?
    intro i
    rw [Array.getElem?_modify]
    split
    · next hi => subst hi; simp [h]
    · rfl
  rw [update, hs]

theorem used_keep (hφ : ∀ x, (φ x).inUse = x.inUse) : (p.update f φ).used g = p.used g := by
  rw [used, used, getElem?_update]
  split
  · cases p.frames[g.index]? <;> simp [hφ]
  · rfl

theorem refs_keep (hφ : ∀ x, (φ x).refs = x.refs) : (p.update f φ).refs g = p.refs g := by
  rw [refs, refs, getElem?_update]
  split
  · cases p.frames[g.index]? <;> simp [hφ]
  · rfl

end update

theorem frame_of_used (h : p.used f = true) : ∃ fr, p.frames[f.index]? = some fr ∧ fr.inUse = true := by
  rw [used] at h
  cases hf : p.frames[f.index]? with
  | none => simp [hf] at h
  | some fr => exact ⟨fr, rfl, by simpa [hf] using h⟩

theorem refs_of_frame {fr : Frame} (h : p.frames[f.index]? = some fr) : p.refs f = fr.refs := by simp [refs, h]

theorem used_of_frame {fr : Frame} (h : p.frames[f.index]? = some fr) : p.used f = fr.inUse := by simp [used, h]

theorem sound_ofSize (count : Nat) : (ofSize count).Sound count := by
  have hused : ∀ f, (ofSize count).used f = false := by
    intro f
    by_cases hf : f.index < count <;> simp [used, ofSize, hf]
  refine ⟨by simp [ofSize], List.nodup_range, fun i => ?_, fun f hf => ?_, fun f _ => ?_⟩
  · rw [hused]; simp [ofSize]
  · rw [hused] at hf; cases hf
  · by_cases hf : f.index < count <;> simp [refs, ofSize, hf]

theorem alike_write (offset : Nat) (data : Bytes) : Alike p (p.write f offset data) :=
  ⟨fun _ => refs_keep fun _ => rfl, fun _ => used_keep fun _ => rfl, rfl, size_update⟩

theorem alike_deny : Alike p p.deny := ⟨fun _ => rfl, fun _ => rfl, rfl, rfl⟩

/-- An allocation fails without a trace or takes a frame that was not in use. -/
theorem alloc_cases (hp : p.Sound n) :
    (∃ q, p.alloc = (none, q) ∧ Alike p q) ∨
    (∃ f q, p.alloc = (some f, q) ∧ q.Sound n ∧ p.used f = false ∧ (∀ g, q.refs g = p.refs g) ∧
      ∀ g, q.used g = (p.used g || g == f)) := by
  unfold alloc
  split
  · exact .inl ⟨_, rfl, fun _ => rfl, fun _ => rfl, rfl, rfl⟩
  · split
    · exact .inl ⟨_, rfl, fun _ => rfl, fun _ => rfl, rfl, rfl⟩
    · next i rest hfree =>
      right
      obtain ⟨hi, hu⟩ := (hp.mem_free i).mp (by simp [hfree])
      have hlt : i < p.frames.size := hp.size ▸ Nat.lt_of_lt_of_le hi (Nat.mod_le _ _)
      have hfr : ({ p with free := rest } : FramePool).frames[i]? = some p.frames[i] := by simp [hlt]
      have hnd := hp.nodup
      rw [hfree, List.nodup_cons] at hnd
      have hr : ∀ g, (({ p with free := rest } : FramePool).update ⟨i⟩ fun _ => { inUse := true }).refs g =
          p.refs g := by
        intro g
        rw [refs_update p.frames[i] hfr]
        split
        · next h => subst h; exact (hp.unused _ hu).symm
        · rfl
      have hus : ∀ g, (({ p with free := rest } : FramePool).update ⟨i⟩ fun _ => { inUse := true }).used g =
          (p.used g || g == ⟨i⟩) := by
        intro g
        rw [used_update p.frames[i] hfr]
        by_cases hg : g = ⟨i⟩
        · simp [hg]
        · simp [hg, used]
      refine ⟨⟨i⟩, _, rfl, ⟨size_update.trans hp.size, hnd.2, fun j => ?_, fun f hf => ?_, fun f hf => ?_⟩, hu, hr, hus⟩
      · have hm := hp.mem_free j
        rw [hfree, List.mem_cons] at hm
        rw [hus, free_update]
        by_cases hj : j = i
        · subst hj; simp [hnd.1]
        · simpa [hj] using hm
      · rw [hus] at hf
        rcases Bool.or_eq_true _ _ ▸ hf with h | h
        · exact hp.used_lt f h
        · obtain rfl : f = ⟨i⟩ := by simpa using h
          exact hi
      · rw [hus] at hf
        rw [hr]
        exact hp.unused f (by simpa using (Bool.or_eq_false_iff.mp hf).1)

/-- A new reference to a frame in use can fail only because the count would not fit. -/
theorem retain_cases (hp : p.Sound n) (hu : p.used f = true) :
    (p.retain f = .error .addOverflow ∧ countLimit ≤ p.refs f + 1) ∨
    (∃ q, p.retain f = .ok q ∧ q.Sound n ∧ (∀ g, q.refs g = p.refs g + if g = f then 1 else 0) ∧
      ∀ g, q.used g = p.used g) := by
  obtain ⟨fr, hfr, hin⟩ := frame_of_used hu
  simp only [retain, hfr, hin, refs_of_frame hfr]
  split
  · simp_all
  · split
    · right
      have hus : ∀ g, (p.update f fun x => { x with refs := x.refs + 1 }).used g = p.used g :=
        fun g => used_keep fun _ => rfl
      have hr : ∀ g, (p.update f fun x => { x with refs := x.refs + 1 }).refs g =
          p.refs g + if g = f then 1 else 0 := by
        intro g
        rw [refs_update fr hfr]
        split
        · next h => subst h; rw [refs_of_frame hfr]
        · rfl
      refine ⟨_, rfl, ⟨size_update.trans hp.size, hp.nodup, fun i => ?_, fun g hg => ?_, fun g hg => ?_⟩, hr, hus⟩
      · rw [hus]; exact hp.mem_free i
      · exact hp.used_lt g (hus g ▸ hg)
      · rw [hus] at hg
        have hne : g ≠ f := fun e => by rw [e, hu] at hg; cases hg
        rw [hr, if_neg hne]
        exact hp.unused g hg
    · left
      exact ⟨rfl, by omega⟩

theorem retain_of_unused (hu : p.used f = false) : p.retain f = .error (.freeFrame f) := by
  unfold retain
  split
  · rfl
  · next fr hfr =>
    rw [used_of_frame hfr] at hu
    simp [hu]

/-- Taking back a frame without references puts it on the free list unless it is there. -/
theorem reclaim_spec (hp : p.Sound n) (h0 : p.refs f = 0) :
    (p.reclaim f).Sound n ∧ (∀ g, (p.reclaim f).refs g = p.refs g) ∧
      ∀ g, (p.reclaim f).used g = (p.used g && g != f) := by
  by_cases hu : p.used f = true
  · obtain ⟨fr, hfr, hin⟩ := frame_of_used hu
    have hq : p.reclaim f = ({ p with free := f.index :: p.free } : FramePool).update f
        fun x => { x with inUse := false, contents := none } := by
      simp [reclaim, hfr, hin]
    rw [hq]
    have hr : ∀ g, (({ p with free := f.index :: p.free } : FramePool).update f
        fun x => { x with inUse := false, contents := none }).refs g = p.refs g := fun g => refs_keep fun _ => rfl
    have hus : ∀ g, (({ p with free := f.index :: p.free } : FramePool).update f
        fun x => { x with inUse := false, contents := none }).used g = (p.used g && g != f) := by
      intro g
      rw [used_update (p := { p with free := f.index :: p.free }) fr hfr]
      by_cases hg : g = f
      · simp [hg]
      · simp [hg, used]
    have hmem : f.index ∉ p.free := fun hm => by
      have := ((hp.mem_free _).mp hm).2
      rw [hu] at this
      cases this
    refine ⟨⟨size_update.trans hp.size, List.nodup_cons.mpr ⟨hmem, hp.nodup⟩, fun i => ?_, fun g hg => ?_,
      fun g hg => ?_⟩, hr, hus⟩
    · rw [hus, free_update, List.mem_cons, hp.mem_free i]
      by_cases hi : i = f.index
      · subst hi; simpa using hp.used_lt f hu
      · have hne : (⟨i⟩ : FrameId) ≠ f := fun e => hi (by rw [← e])
        simp [hi, hne]
    · rw [hus] at hg
      exact hp.used_lt g (Bool.and_eq_true _ _ ▸ hg).1
    · rw [hr]
      by_cases hg' : g = f
      · rw [hg', h0]
      · rw [hus] at hg
        exact hp.unused g (by simpa [hg'] using hg)
  · have hu' : p.used f = false := by simpa using hu
    have hq : p.reclaim f = p := by
      unfold reclaim
      split
      · rfl
      · next fr hfr => rw [used_of_frame hfr] at hu'; simp [hu']
    rw [hq]
    refine ⟨hp, fun _ => rfl, fun g => ?_⟩
    by_cases hg : g = f
    · simp [hg, hu']
    · simp [hg]

theorem release_spec (hp : p.Sound n) :
    (p.release f).Sound n ∧ (∀ g, (p.release f).refs g = p.refs g - if g = f then 1 else 0) ∧
      ∀ g, (p.release f).used g = (p.used g && (g != f || decide (1 < p.refs f))) := by
  have hr : ∀ g, (p.update f fun x => { x with refs := x.refs - 1 }).refs g =
      p.refs g - if g = f then 1 else 0 := by
    intro g
    cases hf : p.frames[f.index]? with
    | none =>
      rw [update_of_none hf]
      split
      · next h => subst h; simp [refs, hf]
      · rfl
    | some fr =>
      rw [refs_update fr hf]
      split
      · next h => subst h; rw [refs_of_frame hf]
      · rfl
  have hus : ∀ g, (p.update f fun x => { x with refs := x.refs - 1 }).used g = p.used g :=
    fun g => used_keep fun _ => rfl
  have hq : (p.update f fun x => { x with refs := x.refs - 1 }).Sound n := by
    refine ⟨size_update.trans hp.size, hp.nodup, fun i => ?_, fun g hg => ?_, fun g hg => ?_⟩
    · rw [hus]; exact hp.mem_free i
    · exact hp.used_lt g (hus g ▸ hg)
    · rw [hr, hp.unused g (hus g ▸ hg), Nat.zero_sub]
  simp only [release]
  have hf := hr f
  rw [if_pos rfl] at hf
  split
  · next h0 =>
    obtain ⟨hs, hrs, hu⟩ := reclaim_spec hq h0
    have h1 : ¬1 < p.refs f := by omega
    exact ⟨hs, fun g => (hrs g).trans (hr g), fun g => by rw [hu, hus]; simp [h1]⟩
  · next h0 =>
    have h1 : 1 < p.refs f := by omega
    exact ⟨hq, hr, fun g => by rw [hus]; simp [h1]⟩

theorem releaseUnused_spec (hp : p.Sound n) :
    (p.releaseUnused f).Sound n ∧ (∀ g, (p.releaseUnused f).refs g = p.refs g) ∧
      ∀ g, (p.releaseUnused f).used g = (p.used g && (g != f || decide (0 < p.refs f))) := by
  unfold releaseUnused
  split
  · next h0 =>
    obtain ⟨hs, hr, hu⟩ := reclaim_spec hp h0
    exact ⟨hs, hr, fun g => by rw [hu]; simp [h0]⟩
  · next h0 => exact ⟨hp, fun _ => rfl, fun g => by simp [Nat.pos_of_ne_zero h0]⟩

theorem Sound.freeCount_add_usedCount (hp : p.Sound n) (hs : n < countLimit) :
    p.freeCount + p.usedCount = n := by
  have hn := Nat.mod_eq_of_lt hs
  have hperm : p.free.Perm ((List.range n).filter fun i => !p.used ⟨i⟩) := by
    rw [List.perm_ext_iff_of_nodup hp.nodup (List.nodup_range.filter _)]
    intro i
    rw [hp.mem_free i, hn]
    simp
  have hfree : p.freeCount = (List.range n).countP fun i => !p.used ⟨i⟩ := by
    rw [freeCount, hperm.length_eq, List.countP_eq_length_filter]
  have hused : p.usedCount = (List.range n).countP fun i => p.used ⟨i⟩ := by
    have hmap : (List.range n).map (fun i => p.used ⟨i⟩) = p.frames.toList.map Frame.inUse := by
      apply List.ext_getElem
      · simp [hp.size]
      · intro i h1 h2
        simp only [List.length_map, Array.length_toList] at h2
        simp [used, h2]
    have hcount := congrArg (List.countP id) hmap
    rw [List.countP_map, List.countP_map] at hcount
    simpa [usedCount] using hcount.symm
  have hsum := List.length_eq_countP_add_countP (fun i => p.used ⟨i⟩) (l := List.range n)
  rw [List.length_range] at hsum
  rw [hfree, hused]
  simp only [Bool.not_eq_true, Bool.decide_eq_false] at hsum
  omega

end Exokernel.FramePool
