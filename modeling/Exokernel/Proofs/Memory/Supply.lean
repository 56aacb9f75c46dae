import Exokernel.Proofs.Memory.Effects

/-!
# Frames in supply

With no failure armed, an operation that is short of frames is the only one that is refused for want of memory. A
page takes one frame, and one more where no page-table page covers its span yet; whatever an operation gives back
stays in supply.
-/

set_option autoImplicit false

namespace Exokernel

namespace FramePool

variable {p q : FramePool} {f : FrameId}

theorem alloc_of_free {rest : List Nat} (hd : p.denyNext = false) (hf : p.free = f.index :: rest) :
    p.alloc = (some f, { p with free := rest }.update f fun _ => { inUse := true }) := by
  rw [alloc, hd, hf]
  rfl

theorem retain_free (h : p.retain f = .ok q) : q.free = p.free ∧ q.denyNext = p.denyNext := by
  rw [retain_eq h]
  exact ⟨rfl, rfl⟩

theorem release_free : p.free.length ≤ (p.release f).free.length ∧ (p.release f).denyNext = p.denyNext := by
  have hreclaim : ∀ p : FramePool, p.free.length ≤ (p.reclaim f).free.length ∧
      (p.reclaim f).denyNext = p.denyNext := by
    intro p
    cases hu : p.used f with
    | false =>
      rw [reclaim_of_unused hu]
      exact ⟨Nat.le_refl _, rfl⟩
    | true =>
      obtain ⟨fr, hfr, hin⟩ := frame_of_used hu
      rw [reclaim_eq hfr hin]
      exact ⟨Nat.le_succ _, rfl⟩
  simp only [release]
  split
  · exact hreclaim (p.update f fun x => { x with refs := x.refs - 1 })
  · exact ⟨Nat.le_refl _, rfl⟩

end FramePool

namespace Memory

variable {n count : Nat} {m m' : Memory} {f frame : FrameId} {h : Handle} {s : Space} {va : Nat} {flags : PageFlags}

structure Stocked (count : Nat) (m : Memory) : Prop where
  granting : m.frames.denyNext = false
  mapping : m.denyNextMap = false
  enough : count ≤ m.freeFrames

def covered (m : Memory) (h : Handle) (va : Nat) : Bool := (m.space? h).any fun s => s.table.covers va

def toll (m : Memory) (h : Handle) (va : Nat) : Nat := if m.covered h va then 0 else 1

def Charted (m m' : Memory) : Prop := ∀ h va, m'.toll h va ≤ m.toll h va

theorem Stocked.less {fewer : Nat} (hs : Stocked count m) (hc : fewer ≤ count) : Stocked fewer m :=
  ⟨hs.granting, hs.mapping, hc.trans hs.enough⟩

theorem Stocked.kept (hs : Stocked count m) (hd : m'.frames.denyNext = m.frames.denyNext)
    (hm : m'.denyNextMap = m.denyNextMap) (hf : m.frames.free.length ≤ m'.frames.free.length) : Stocked count m' :=
  ⟨hd.trans hs.granting, hm.trans hs.mapping, hs.enough.trans hf⟩

theorem Charted.refl (m : Memory) : Charted m m := fun _ _ => Nat.le_refl _

theorem Charted.trans {m'' : Memory} (h : Charted m m') (h' : Charted m' m'') : Charted m m'' :=
  fun i va => (h' i va).trans (h i va)

theorem covered_of_space? (hs : m.space? h = some s) (va : Nat) : m.covered h va = s.table.covers va := by
  rw [covered, hs]
  rfl

theorem toll_of_spaces (hs : m'.spaces = m.spaces) (h : Handle) (va : Nat) : m'.toll h va = m.toll h va := by
  have hc : m'.covered h va = m.covered h va := by rw [covered, covered, space?, space?, hs]
  rw [toll, toll, hc]

theorem charted_of_spaces (hs : m'.spaces = m.spaces) : Charted m m' := fun h va => (toll_of_spaces hs h va).le

theorem toll_le_one (m : Memory) (h : Handle) (va : Nat) : m.toll h va ≤ 1 := by
  unfold toll
  split
  · exact Nat.zero_le _
  · exact Nat.le_refl _

theorem toll_of_covers (hs : m.space? h = some s) (hc : s.table.covers va = true) : m.toll h va = 0 := by
  rw [toll, covered_of_space? hs, if_pos hc]

theorem toll_of_not_covers (hs : m.space? h = some s) (hc : s.table.covers va = false) : m.toll h va = 1 := by
  rw [toll, covered_of_space? hs, hc]
  rfl

theorem covered_of_toll (ht : m.toll h va = 0) : ∃ s, m.space? h = some s ∧ s.table.covers va = true := by
  cases hs : m.space? h with
  | none =>
    rw [toll, covered, hs] at ht
    cases ht
  | some s =>
    refine ⟨s, rfl, ?_⟩
    by_contra hc
    rw [toll_of_not_covers hs (Bool.not_eq_true _ ▸ hc)] at ht
    cases ht

theorem Settled.toll_mapped {e : Mapping} (hb : Settled n m) (he : m.mapping? h va = some e) : m.toll h va = 0 := by
  obtain ⟨s, hs, hl⟩ := Option.bind_eq_some_iff.mp he
  refine toll_of_covers hs ?_
  have hc := (hb.tables h s hs).entries_covered _ (Ascending.mem_of_find? hl)
  rw [PageTable.covers] at hc ⊢
  rwa [show spanBase va = spanBase (pageBase va) by simp only [spanBase, pageBase, spanSize, pageSize]; omega]

theorem charted_setSpace {s' : Space} (hs : m.space? h = some s)
    (hc : ∀ w, s.table.covers w = true → s'.table.covers w = true) : Charted m (m.setSpace h (some s')) := by
  intro i w
  by_cases hi : i = h
  · subst hi
    cases hw : s.table.covers w with
    | true => rw [toll_of_covers (space?_setSpace_self (getElem?_of_space? hs)) (hc w hw), toll_of_covers hs hw]
    | false =>
      rw [toll_of_not_covers hs hw]
      exact toll_le_one ..
  · rw [toll, toll, covered, covered, space?_setSpace_of_ne hi]

theorem stocked_takeFrame (hs : Stocked (count + 1) m) :
    (takeFrame m).Meets (fun _ m' => Stocked count m' ∧ m'.spaces = m.spaces) (fun _ _ => False) (fun _ => False) := by
  have hlt : 0 < m.frames.free.length := Nat.lt_of_lt_of_le (Nat.succ_pos count) hs.enough
  obtain ⟨i, rest, hfree⟩ := List.exists_cons_of_length_pos hlt
  rw [takeFrame, FramePool.alloc_of_free (f := ⟨i⟩) hs.granting hfree]
  have henough : count + 1 ≤ m.frames.free.length := hs.enough
  rw [hfree, List.length_cons] at henough
  exact ⟨⟨hs.granting, hs.mapping, Nat.le_of_succ_le_succ henough⟩, rfl⟩

theorem stocked_addRef (hs : Stocked count m) :
    (addRef f m).Meets (fun _ m' => Stocked count m' ∧ m'.spaces = m.spaces) (fun _ _ => False) (fun _ => True) := by
  rw [addRef]
  cases hr : m.frames.retain f with
  | error p => exact trivial
  | ok q =>
    obtain ⟨hfree, hd⟩ := FramePool.retain_free hr
    exact ⟨hs.kept hd rfl (by rw [hfree]), rfl⟩

theorem stocked_dropRef (hs : Stocked count m) (f : FrameId) : Stocked count (m.dropRef f) :=
  hs.kept FramePool.release_free.2 rfl FramePool.release_free.1

theorem stocked_create (hs : Stocked (count + 1) m) :
    (create m).Meets (fun _ m' => Stocked count m') (fun _ _ => False) (fun _ => True) := by
  rw [create]
  refine Action.meets_bind (stocked_takeFrame hs).halting fun root m₁ h₁ => ?_
  refine Action.meets_bind (stocked_addRef h₁.1) fun _ m₂ h₂ => ?_
  simp only [store, Action.advance]
  split
  · exact h₂.1.kept rfl rfl (Nat.le_refl _)
  · exact h₂.1.kept rfl rfl (Nat.le_refl _)

theorem stocked_coverSpan (hl : m.isLive h = true) (hs : Stocked (count + m.toll h va) m) :
    (coverSpan h va m).Meets (fun _ m' => Stocked count m' ∧ Charted m m' ∧ m'.toll h va = 0) (fun _ _ => False)
      (fun _ => True) := by
  obtain ⟨s, hsp⟩ := Option.isSome_iff_exists.mp hl
  rw [coverSpan]
  simp only [Action.state_bind, space, hsp, Action.lift_ok_bind]
  cases hc : s.table.covers va with
  | true =>
    simp only [if_true]
    exact ⟨hs.less (Nat.le_add_right _ _), .refl m, toll_of_covers hsp hc⟩
  | false =>
    rw [toll_of_not_covers hsp hc] at hs
    simp only [Bool.false_eq_true, if_false]
    refine Action.meets_bind (stocked_takeFrame hs).halting fun table m₁ h₁ => ?_
    refine Action.meets_bind (stocked_addRef h₁.1) fun _ m₂ h₂ => ?_
    have hspaces : m₂.spaces = m.spaces := h₂.2.trans h₁.2
    have hsp₂ : m₂.space? h = some s := by rw [space?, hspaces]; exact hsp
    refine ⟨h₂.1.kept rfl rfl (Nat.le_refl _), (charted_of_spaces hspaces).trans (charted_setSpace hsp₂ ?_), ?_⟩
    · intro w hw
      rw [PageTable.covers_install, hw, Bool.true_or]
    · refine toll_of_covers (space?_setSpace_self (getElem?_of_space? hsp₂)) ?_
      rw [PageTable.covers_install, beq_self_eq_true, Bool.or_true]

theorem stocked_insert (hl : m.isLive h = true) (hv : PageTable.validate va flags = .ok ())
    (hs : Stocked (count + m.toll h va) m) :
    (insert h frame va flags m).Meets (fun _ m' => Stocked count m' ∧ Charted m m' ∧ m'.toll h va = 0)
      (fun _ _ => False) (fun _ => True) := by
  rw [insert]
  simp only [Action.state_bind, hs.mapping, Bool.false_eq_true, if_false, hv, Action.mapError_ofExcept_ok,
    Action.ofExcept_ok_bind]
  refine Action.meets_bind (stocked_coverSpan hl hs) fun _ m₁ h₁ => ?_
  obtain ⟨hs₁, hc₁, ht₁⟩ := h₁
  refine Action.meets_bind (stocked_addRef hs₁) fun _ m₂ h₂ => ?_
  obtain ⟨hs₂, hsp₂⟩ := h₂
  have ht₂ : m₂.toll h va = 0 := (toll_of_spaces hsp₂ h va).trans ht₁
  obtain ⟨s, hsp, hcover⟩ := covered_of_toll ht₂
  simp only [Action.state_bind, space, hsp, Action.lift_ok_bind, map_of_covers hv hcover]
  generalize hs' : ({ s with table := { s.table with entries := Ascending.insert va { frame, flags } s.table.entries } }
    : Space) = s'
  have htable : s'.table.tables = s.table.tables := by rw [← hs']
  have hcovers : ∀ w, s'.table.covers w = s.table.covers w := fun w => by rw [PageTable.covers, htable]; rfl
  have hcharted : Charted m (m₂.setSpace h (some s')) := by
    refine hc₁.trans ((charted_of_spaces hsp₂).trans (charted_setSpace hsp fun w hw => ?_))
    rw [hcovers, hw]
  have htoll : (m₂.setSpace h (some s')).toll h va = 0 :=
    toll_of_covers (space?_setSpace_self (getElem?_of_space? hsp)) ((hcovers va).trans hcover)
  have hstocked : Stocked count (m₂.setSpace h (some s')) := hs₂.kept rfl rfl (Nat.le_refl _)
  cases Ascending.find? va s.table.entries with
  | none => exact ⟨hstocked, hcharted, htoll⟩
  | some old => exact ⟨(stocked_dropRef hstocked old.frame).kept rfl rfl (Nat.le_refl _), hcharted, htoll⟩

theorem stocked_allocPage (hl : m.isLive h = true) (hv : PageTable.validate va flags = .ok ())
    (hs : Stocked (count + m.toll h va + 1) m) :
    (allocPage h va flags m).Meets (fun _ m' => Stocked count m' ∧ Charted m m' ∧ m'.toll h va = 0)
      (fun _ _ => False) (fun _ => True) := by
  obtain ⟨s, hsp⟩ := Option.isSome_iff_exists.mp hl
  rw [allocPage]
  simp only [Action.state_bind, space, hsp, Action.lift_ok_bind]
  refine Action.meets_bind (stocked_takeFrame hs).halting fun frame m₁ h₁ => ?_
  obtain ⟨hs₁, hsp₁⟩ := h₁
  have hl₁ : m₁.isLive h = true := ((kept_of_spaces hsp₁).live h).trans hl
  rw [← toll_of_spaces hsp₁] at hs₁
  refine Action.meets_attempt_bind (stocked_insert hl₁ hv hs₁) (fun _ m₂ h₂ => ?_) fun _ _ h => h.elim
  obtain ⟨hs₂, hc₂, ht₂⟩ := h₂
  exact ⟨hs₂, (charted_of_spaces hsp₁).trans hc₂, ht₂⟩

theorem stocked_remove (hs : Stocked count m) :
    (remove h va m).Meets (fun _ m' => Stocked count m' ∧ Charted m m') (fun _ m' => m' = m) (fun _ => True) := by
  rw [remove]
  rcases space_cases m h with ⟨s, hsp, hok⟩ | ⟨-, herr⟩
  · simp only [Action.state_bind, hok, Action.lift_ok_bind, Action.modify_bind]
    have hcharted : Charted m (m.setSpace h (some { s with table := (s.table.unmap va).2 })) :=
      charted_setSpace hsp fun _ hw => hw
    have hstocked : Stocked count (m.setSpace h (some { s with table := (s.table.unmap va).2 })) :=
      hs.kept rfl rfl (Nat.le_refl _)
    cases (s.table.unmap va).1 with
    | none => exact ⟨hstocked, hcharted⟩
    | some old => exact ⟨(stocked_dropRef hstocked old.frame).kept rfl rfl (Nat.le_refl _), hcharted⟩
  · simp only [Action.state_bind, herr, Action.lift_error_bind]
    rfl

end Memory

end Exokernel
