import Exokernel.Proofs.Memory.Exchanging
import Exokernel.Proofs.Memory.Storing

/-!
# Fresh pages

A page that is allocated gets a frame that was not in use. One mapping refers to that frame and nothing else does, and
it holds zeros, whatever was stored in it before and whoever gave it back. A mapping that the page replaces gives back
its one reference.
-/

set_option autoImplicit false

namespace Exokernel.Memory

variable {n count : Nat} {m m' : Memory} {f frame : FrameId} {h : Handle} {va : Nat} {flags : PageFlags} {s : Space}
  {e : Mapping}

section clearing

/-- Whatever memory is asked for, frames that are not in use hold nothing. -/
theorem Op.clears (hm : Settled n m) (hc : m.frames.Clear) {op : Op} (hr : op.run m = .ok m') : m'.frames.Clear := by
  have hafter : ∀ {ε α : Type} {o : Outcome Memory ε α},
      o.Meets (fun _ m' => m'.frames.Clear) (fun _ m' => m'.frames.Clear) (fun _ => True) → o.after = .ok m' →
        m'.frames.Clear := by
    intro ε α o ho hr
    rcases ho.after with ⟨m₁, h₁, hs⟩ | ⟨p, h₁, -⟩
    · rw [hr] at h₁
      exact Except.ok.inj h₁ ▸ hs
    · rw [hr] at h₁
      cases h₁
  cases op with
  | create =>
    exact hafter ((create_effect hm.pool hc).mono (fun _ _ h => h.2.2) (fun _ _ h => h.clear hc) fun _ h => h) hr
  | destroy h =>
    exact hafter ((destroy_effect h hc).mono (fun _ _ h => h.2.2) (fun _ _ h => h ▸ hc) fun _ _ => trivial) hr
  | insert h frame va flags =>
    exact hafter ((insert_effect h frame va flags hm.pool hc).mono (fun _ _ h => h.clear) (fun _ _ h => h.clear hc)
      fun _ h => h) hr
  | allocPage h va flags =>
    exact hafter ((allocPage_effect h va flags hm hc).mono (fun _ _ ⟨_, _, h⟩ => h.clear) (fun _ _ h => h.clear hc)
      fun _ h => h) hr
  | remove h va =>
    exact hafter ((remove_effect h va hm hc).mono (fun _ _ h => h.clear) (fun _ _ h => h ▸ hc) fun _ _ => trivial) hr
  | writeUser h va data =>
    exact hafter ((writeUser_effect h va data hm hc).mono (fun _ _ h => h.clear) (fun _ _ h => h.clear)
      fun _ _ => trivial) hr
  | readUser h va len =>
    by_cases hva : va < addressLimit
    · exact hafter ((readUser_spec hm hva).mono (fun _ _ h => h ▸ hc) (fun _ _ h => h ▸ hc) fun _ _ => trivial) hr
    · exact hafter ((readUser_beyond hva).mono (fun _ _ h => h ▸ hc) (fun _ _ h => h ▸ hc) fun _ h => h) hr
  | denyAlloc =>
    cases hr
    exact hc
  | denyMap =>
    cases hr
    exact hc

theorem Attainable.clear (hm : Attainable count m) : m.frames.Clear := by
  induction hm with
  | start => exact FramePool.clear_ofSize count
  | step op hm hr ih => exact Op.clears hm.settled ih hr
  | invalidated _ ih => exact ih

end clearing

section exclusive

structure Exclusive (m : Memory) (h : Handle) (va : Nat) (f : FrameId) : Prop where
  mapped : ∃ flags, m.mapping? h va = some { frame := f, flags }
  refs : m.refs f = 1
  alone : ∀ i w e, m.mapping? i w = some e → e.frame = f → i = h ∧ pageBase w = pageBase va
  untabled : ∀ i s, m.space? i = some s → s.root ≠ f ∧ f ∉ s.table.tables.values

theorem owed_unmapped (hs : m.space? h = some s) (he : s.table.lookup va = some e) :
    (m.setSpace h (some { s with table := (s.table.unmap va).2 })).owed e.frame + 1 = m.owed e.frame := by
  have hset := owed_setSpace (b := some { s with table := (s.table.unmap va).2 }) (getElem?_of_space? hs) e.frame
  have hcount := PageTable.count_unmap s.table va e.frame
  have hone : (s.table.unmap va).1 = some e := he
  rw [hone, Option.toList_some, List.map_singleton, List.count_singleton_self] at hcount
  simp only [refsOf, Space.refs, List.count_cons] at hset
  omega

/-- A frame with a single reference that is mapped has no other owner. -/
theorem exclusive_of_refs (hb : Settled n m) (he : m.mapping? h va = some e) (hr : m.refs e.frame = 1) :
    Exclusive m h va e.frame := by
  obtain ⟨s, hs, hl⟩ := Option.bind_eq_some_iff.mp he
  have hrefs := hb.refs_eq e.frame
  have howed := owed_unmapped hs hl
  have hself := space?_setSpace_self (b := some { s with table := (s.table.unmap va).2 }) (getElem?_of_space? hs)
  generalize hm₁ : m.setSpace h (some { s with table := (s.table.unmap va).2 }) = m₁ at howed hself
  -- Without the page of `va`, no space refers to the frame.
  have hnone : ∀ i s', m₁.space? i = some s' → e.frame ∉ s'.refs := fun i s' hs' hmem => by
    have hle := refs_count_le_owed hs' e.frame
    have hpos := List.count_pos_iff.mpr hmem
    rw [List.count_nil] at hrefs
    omega
  have hother : ∀ i, i ≠ h → m₁.space? i = m.space? i := fun i hi => by rw [← hm₁, space?_setSpace_of_ne hi]
  refine ⟨⟨e.flags, he⟩, hr, fun i w e' he' hf => ?_, fun i s' hs' => ?_⟩
  · obtain ⟨s', hs', hl'⟩ := Option.bind_eq_some_iff.mp he'
    by_cases hi : i = h
    · subst hi
      obtain rfl : s = s' := Option.some.inj (hs.symm.trans hs')
      refine ⟨rfl, ?_⟩
      by_contra hw
      have hkept : (s.table.unmap va).2.lookup w = some e' := by
        rw [← hl', PageTable.lookup, PageTable.unmap, Ascending.find?_erase_of_ne hw, PageTable.lookup]
      exact hnone i _ hself (hf ▸ List.mem_cons_of_mem _ (PageTable.lookup_mem_frames hkept))
    · exact absurd (hf ▸ List.mem_cons_of_mem _ (PageTable.lookup_mem_frames hl'))
        (hnone i s' ((hother i hi).trans hs'))
  · by_cases hi : i = h
    · subst hi
      obtain rfl : s = s' := Option.some.inj (hs.symm.trans hs')
      have hmem := hnone i _ hself
      simp only [Space.refs, PageTable.frames, PageTable.unmap, List.mem_cons, List.mem_append, not_or] at hmem
      exact ⟨fun hroot => hmem.1 hroot.symm, hmem.2.1⟩
    · have hmem := hnone i s' ((hother i hi).trans hs')
      simp only [Space.refs, PageTable.frames, List.mem_cons, List.mem_append, not_or] at hmem
      exact ⟨fun hroot => hmem.1 hroot.symm, hmem.2.1⟩

/-- A frame with a single mapping stays so when another page is mapped to another frame. -/
theorem Exclusive.inserted {k : Handle} {v : Nat} (hb : Settled n m) (hc : m.frames.Clear) (hx : Exclusive m k v f)
    (hd : insert h frame va flags m = .done () m') (hne : frame ≠ f) (hoff : ¬(k = h ∧ pageBase v = va)) :
    Exclusive m' k v f ∧ m'.frames.page f = m.frames.page f := by
  obtain ⟨fl, hv⟩ := hx.mapped
  have hu := Settled.used_of_mapping? hb hv
  have hmap := (insert_effect h frame va flags hb.pool hc).of_done hd
  have hb' : Settled n m' := ((balanced_insert_any hb).of_done hd).1
  obtain ⟨taken, hex⟩ := insert_exchanges hb hc hd
  have hbase := insert_aligned hd
  have hv' : m'.mapping? k v = some { frame := f, flags := fl } := by rw [hmap.mapping, if_neg hoff, hv]
  -- The mapping that is replaced, if any, is to another frame, and so are the frames that are mapped and taken.
  have hold : ((m.mapping? h va).toList.map Mapping.frame).count f = 0 := List.count_eq_zero.mpr fun hmem => by
    obtain ⟨e, he, hef⟩ := List.mem_map.mp hmem
    obtain ⟨hk, hw⟩ := hx.alone h va e (Option.mem_toList.mp he) hef
    exact hoff ⟨hk.symm, hw.symm.trans hbase⟩
  have hnew : [frame].count f = 0 := List.count_eq_zero.mpr fun hmem => hne (List.mem_singleton.mp hmem).symm
  have htaken : taken.toList.count f = 0 := List.count_eq_zero.mpr fun hmem => by
    rw [hex.fresh f (Option.mem_toList.mp hmem)] at hu
    cases hu
  have hone : m'.refs f = 1 := by
    have hsum := hex.refs f
    rwa [hold, hnew, htaken, hx.refs] at hsum
  exact ⟨exclusive_of_refs hb' hv' hone, hmap.steady.page hu (Settled.used_of_mapping? hb' hv')⟩

end exclusive

section allocation

/-- An allocation that is done maps the frame that it takes. -/
theorem allocPage_inv (hd : allocPage h va flags m = .done () m') :
    ∃ frame m₁, takeFrame m = .done frame m₁ ∧ insert h frame va flags m₁ = .done () m' := by
  rw [allocPage, Action.state_bind] at hd
  obtain ⟨s, -, hd⟩ := Action.lift_bind_inv hd
  obtain ⟨frame, m₁, htake, hd⟩ := Action.bind_inv hd
  obtain ⟨r, m₂, hattempt, hd⟩ := Action.bind_inv hd
  refine ⟨frame, m₁, htake, ?_⟩
  rw [Action.attempt] at hattempt
  cases hi : insert h frame va flags m₁ with
  | done u m₃ =>
    rw [hi] at hattempt
    cases hattempt
    cases hd
    rfl
  | refused e m₃ =>
    rw [hi] at hattempt
    cases hattempt
    cases hd
  | halted p =>
    rw [hi] at hattempt
    cases hattempt

structure Takes (m : Memory) (frame : FrameId) (taken : Option FrameId) : Prop where
  unused : m.frames.used frame = false
  fresh : ∀ f, taken = some f → m.frames.used f = false ∧ f ≠ frame

section takes

variable {taken : Option FrameId} (ht : Takes m frame taken)
include ht

theorem Takes.ne_frame (hu : m.frames.used f = true) : f ≠ frame := by
  rintro rfl
  cases ht.unused.symm.trans hu

theorem Takes.count_used (hu : m.frames.used f = true) : [frame].count f + taken.toList.count f = 0 := by
  have hframe : [frame].count f = 0 := by
    rw [List.count_eq_zero, List.mem_singleton]
    exact ht.ne_frame hu
  have htaken : taken.toList.count f = 0 := by
    rw [List.count_eq_zero]
    intro hmem
    cases (ht.fresh f (Option.mem_toList.mp hmem)).1.symm.trans hu
  omega

theorem Takes.refs_frame (hb : Settled n m) : m.refs frame + [frame].count frame + taken.toList.count frame = 1 := by
  have hzero : m.refs frame = 0 := hb.pool.unused frame ht.unused
  have htaken : taken.toList.count frame = 0 := by
    rw [List.count_eq_zero]
    exact fun hmem => (ht.fresh frame (Option.mem_toList.mp hmem)).2 rfl
  rw [hzero, htaken, List.count_singleton_self]

end takes

/-- Where only the reference of `old` was dropped, a frame in use goes if that was its last one. -/
theorem freed_iff_of_refs (old : Option Mapping) (hb : Settled n m) (hb' : Settled n m') (hu : m.frames.used f = true)
    (hrefs : m'.refs f + (old.toList.map Mapping.frame).count f = m.refs f) :
    m'.frames.used f = false ↔ m.refs f = 1 ∧ ∃ e, old = some e ∧ e.frame = f := by
  have hpos := (hb.used_iff_refs f).mp hu
  rw [← Bool.not_eq_true, hb'.used_iff_refs]
  cases old with
  | none =>
    rw [Option.toList_none, List.map_nil, List.count_nil] at hrefs
    simp only [reduceCtorEq, false_and, exists_false, and_false, iff_false]
    omega
  | some e =>
    rw [Option.toList_some, List.map_singleton, List.count_singleton] at hrefs
    simp only [Option.some.injEq, exists_eq_left']
    by_cases hef : e.frame = f
    · rw [hef, beq_self_eq_true, if_pos rfl] at hrefs
      simp only [hef, and_true]
      omega
    · rw [if_neg (by simpa using hef)] at hrefs
      simp only [hef, and_false, iff_false]
      omega

/-- The page at `va` in the space `h` is new: its frame was not in use and belongs to the page alone. -/
structure Furnished (m m' : Memory) (h : Handle) (va : Nat) (flags : PageFlags) (frame : FrameId)
    (taken : Option FrameId) : Prop extends Remapped m m' h va (some { frame, flags }), Takes m frame taken where
  aligned : pageBase va = va
  blank : m'.frames.page frame = Page.blank
  exclusive : Exclusive m' h va frame
  charged : taken = none ↔ m.covered h va = true
  refs : ∀ f, m'.refs f + ((m.mapping? h va).toList.map Mapping.frame).count f =
    m.refs f + [frame].count f + taken.toList.count f

theorem takeFrame_blank (hd : takeFrame m = .done f m') : m'.frames.page f = Page.blank := by
  rw [takeFrame] at hd
  split at hd
  · next f' q ha =>
    cases hd
    obtain ⟨-, rest, -, rfl⟩ := FramePool.alloc_eq ha
    rw [FramePool.page, FramePool.getElem?_update, if_pos rfl]
    cases m.frames.frames[f.index]? with
    | none => rfl
    | some fr => rfl
  · cases hd

/-- What an allocation takes, and what becomes of the references. -/
theorem allocPage_takes (hb : Settled n m) (hc : m.frames.Clear) (hd : allocPage h va flags m = .done () m') :
    ∃ frame taken m₁, takeFrame m = .done frame m₁ ∧ insert h frame va flags m₁ = .done () m' ∧
      Takes m frame taken ∧ (taken = none ↔ m.covered h va = true) ∧
      ∀ f, m'.refs f + ((m.mapping? h va).toList.map Mapping.frame).count f =
        m.refs f + [frame].count f + taken.toList.count f := by
  obtain ⟨frame, m₁, htake, hinsert⟩ := allocPage_inv hd
  obtain ⟨ha, -, hc₁, hgrown, hunused⟩ := (takeFrame_effect hb.pool hc).of_done htake
  obtain ⟨hb₁, hspaces, hused₁, -⟩ := (balanced_takeFrame hb).of_done htake
  obtain ⟨taken, hex⟩ := insert_exchanges hb₁ hc₁ hinsert
  have hrefs₁ : ∀ f, m₁.refs f = m.refs f := fun f => by
    rcases FramePool.alloc_cases hb.pool with ⟨q, hq, -⟩ | ⟨g, q, hq, -, -, hr, -⟩
    · cases hq.symm.trans ha
    · cases hq.symm.trans ha
      exact hr f
  have hfresh : ∀ f, taken = some f → m.frames.used f = false ∧ f ≠ frame := fun f hf => by
    have hu₁ := hex.fresh f hf
    refine ⟨?_, fun e => by rw [e, hused₁] at hu₁; cases hu₁⟩
    by_contra hu
    rw [(hgrown f (by simpa using hu)).1] at hu₁
    cases hu₁
  refine ⟨frame, taken, m₁, htake, hinsert, ⟨hunused, hfresh⟩, ?_, fun f => ?_⟩
  · rw [hex.charged, covered, covered, space?, space?, hspaces]
  · rw [← mapping?_of_spaces hspaces, ← hrefs₁]
    exact hex.refs f

theorem allocPage_furnishes (hb : Settled n m) (hc : m.frames.Clear) (hd : allocPage h va flags m = .done () m') :
    ∃ frame taken, Furnished m m' h va flags frame taken := by
  have hb' := ((balanced_allocPage hb).of_done hd).1
  obtain ⟨frame, taken, m₁, htake, hinsert, htakes, hcharged, hrefs⟩ := allocPage_takes hb hc hd
  obtain ⟨-, -, hc₁, hgrown, -⟩ := (takeFrame_effect hb.pool hc).of_done htake
  obtain ⟨hb₁, hspaces, hused₁, -⟩ := (balanced_takeFrame hb).of_done htake
  obtain ⟨hmap, hsteady, hc'⟩ := (insert_effect h frame va flags hb₁.pool hc₁).of_done hinsert
  have hbase := insert_aligned hinsert
  have hnew : m'.mapping? h va = some { frame, flags } := by rw [hmap, if_pos ⟨rfl, hbase⟩]
  -- The frame that was replaced, if any, was in use, so the reference to the new one is its first.
  have hold : ((m.mapping? h va).toList.map Mapping.frame).count frame = 0 := by
    rw [List.count_eq_zero]
    intro hmem
    obtain ⟨e, he, hef⟩ := List.mem_map.mp hmem
    exact htakes.ne_frame (Settled.used_of_mapping? hb (Option.mem_toList.mp he)) hef
  have hone : m'.refs frame = 1 := by
    have hsum := hrefs frame
    rwa [hold, htakes.refs_frame hb] at hsum
  exact ⟨frame, taken,
    { mapping := fun i w => by rw [hmap, mapping?_of_spaces hspaces]
      steady := by
        obtain ⟨p, hg, hs⟩ := hsteady
        exact ⟨p, hgrown.trans hg, hs⟩
      clear := hc'
      aligned := hbase
      toTakes := htakes
      blank := (hsteady.page hused₁ (Settled.used_of_mapping? hb' hnew)).trans (takeFrame_blank htake)
      exclusive := exclusive_of_refs hb' hnew hone
      charged := hcharged
      refs := hrefs }⟩

theorem Furnished.refs_used {taken : Option FrameId} (hf : Furnished m m' h va flags frame taken)
    (hu : m.frames.used f = true) :
    m'.refs f + ((m.mapping? h va).toList.map Mapping.frame).count f = m.refs f := by
  rw [hf.refs, Nat.add_assoc, hf.count_used hu, Nat.add_zero]

theorem Furnished.used_kept {taken : Option FrameId} (hf : Furnished m m' h va flags frame taken) (hb : Settled n m)
    (hb' : Settled n m') (hnone : m.mapping? h va = none) (hu : m.frames.used f = true) :
    m'.frames.used f = true := by
  have hrefs := hf.refs_used hu
  rw [hnone, Option.toList_none, List.map_nil, List.count_nil, Nat.add_zero] at hrefs
  exact (hb'.used_iff_refs f).mpr (hrefs ▸ (hb.used_iff_refs f).mp hu)

theorem byteAt_blank (hp : m.frames.page f = Page.blank) (o : Fin pageSize) : m.byteAt f o = 0 := by
  rw [byteAt, hp]
  exact Vector.getElem_replicate _

/-- Whatever memory went through, a page that is allocated is mapped with its flags to a frame that nothing else refers
to and that reads as zeros. No other mapping changes, the frames that stay in use keep their bytes, and of the
references there were, only that of a mapping that was replaced is dropped. -/
theorem allocated_page_is_private_and_blank (hm : Attainable count m) (hd : allocPage h va flags m = .done () m') :
    ∃ frame taken, Furnished m m' h va flags frame taken ∧ (∀ o, m'.byteAt frame o = 0) ∧
      (flags.contains (accessNeeds false) = true →
        readUser h va pageSize m' = .done (List.replicate pageSize 0) m') ∧
      ∀ f, m.frames.used f = true →
        (m'.frames.used f = true → ∀ o, m'.byteAt f o = m.byteAt f o) ∧
        m'.refs f + ((m.mapping? h va).toList.map Mapping.frame).count f = m.refs f ∧
        (m'.frames.used f = false ↔ m.refs f = 1 ∧ ∃ e, m.mapping? h va = some e ∧ e.frame = f) := by
  have hb := hm.settled
  have hb' := ((balanced_allocPage hb).of_done hd).1
  obtain ⟨frame, taken, hf⟩ := allocPage_furnishes hb hm.clear hd
  refine ⟨frame, taken, hf, byteAt_blank hf.blank, fun hflags => ?_, fun f hu => ⟨fun hu' o => ?_, hf.refs_used hu,
    freed_iff_of_refs _ hb hb' hu (hf.refs_used hu)⟩⟩
  · have hmapped : ∀ k, k < pageSize → m'.mapping? h (va + k) = some { frame, flags } := fun k hk => by
      rw [hf.mapping, if_pos ⟨rfl, pageBase_offset hf.aligned hk⟩]
    have hzeros : (m'.view h).read va pageSize = List.replicate pageSize 0 := by
      refine List.eq_replicate_iff.mpr ⟨Flat.length_read .., fun b hb => ?_⟩
      obtain ⟨k, hk, rfl⟩ := List.mem_map.mp hb
      rw [view_of_mapping (hmapped k (List.mem_range.mp hk))]
      exact byteAt_blank hf.blank _
    rw [readUser_view va pageSize hb' fun k hk => ⟨_, hmapped k hk, hflags⟩, hzeros]
  · rw [byteAt, byteAt, hf.steady.page hu hu']

/-- In place of one of two pages of a frame: the frame stays with the other page, and the new page reads as zeros. -/
theorem allocated_page_sharedPage : Attainable 4 sharedPage ∧
    ∃ m', allocPage ⟨0⟩ 0x400000 ⟨7⟩ sharedPage = .done () m' ∧ sharedPage.refs ⟨1⟩ = 2 ∧ m'.refs ⟨1⟩ = 1 ∧
      readUser ⟨0⟩ 0x400000 pageSize m' = .done (List.replicate pageSize 0) m' := by
  have hm := reachable_sharedPage.attainable
  have hrun : (allocPage ⟨0⟩ 0x400000 ⟨7⟩ sharedPage).result?.isSome = true := by decide +kernel
  obtain ⟨⟨_, m'⟩, hrun⟩ := Option.isSome_iff_exists.mp hrun
  have hd := Outcome.result?_eq_some hrun
  obtain ⟨frame, taken, -, -, hload, hothers⟩ := allocated_page_is_private_and_blank hm hd
  have hrefs := (hothers ⟨1⟩ (by decide)).2.1
  have hone : ((sharedPage.mapping? ⟨0⟩ 0x400000).toList.map Mapping.frame).count ⟨1⟩ = 1 := by decide
  have htwo : sharedPage.refs ⟨1⟩ = 2 := by decide
  exact ⟨hm, m', hd, htwo, by omega, hload (by decide)⟩

end allocation

end Exokernel.Memory
