import Exokernel.Proofs.Memory.Contents
import Exokernel.Proofs.Memory.UserAccess

/-!
# What operations on memory do

An operation that is refused leaves no trace but the failure on demand that it ran into. One that is done maps or
unmaps a single page, makes or unmakes a whole space, or stores bytes; the contents of frames change by stores only,
and a store reaches frames through writable mappings only.
-/

set_option autoImplicit false

namespace Exokernel

namespace Flags

variable {T : FlagTable} {x y z : Flags T}

theorem contains_trans (h : x.contains y = true) (h' : y.contains z = true) : x.contains z = true := by
  simp only [contains, beq_iff_eq] at *
  rw [← h', ← UInt64.and_assoc, h]

theorem contains_or_of_disjoint (hd : y.bits &&& z.bits = 0) : (x ||| y).contains z = x.contains z := by
  have h : (x.bits ||| y.bits) &&& z.bits = x.bits &&& z.bits := by
    apply UInt64.eq_of_toBitVec_eq
    have hd' := congrArg UInt64.toBitVec hd
    simp only [UInt64.toBitVec_and, UInt64.toBitVec_or] at *
    rw [BitVec.and_or_distrib_right, hd']
    exact BitVec.or_zero
  show ((x.bits ||| y.bits) &&& z.bits == z.bits) = _
  rw [h]
  rfl

end Flags

namespace Memory

variable {n : Nat} {m m' m'' : Memory} {f frame : FrameId} {h : Handle} {s : Space} {va : Nat} {flags : PageFlags}

def mapping? (m : Memory) (h : Handle) (va : Nat) : Option Mapping := (m.space? h).bind fun s => s.table.lookup va

theorem mapping?_of_space? (hs : m.space? h = some s) (va : Nat) : m.mapping? h va = s.table.lookup va := by
  simp [mapping?, hs]

theorem mapping?_of_spaces (hs : m'.spaces = m.spaces) (h : Handle) (va : Nat) :
    m'.mapping? h va = m.mapping? h va := by
  simp only [mapping?, space?, hs]

theorem mapping?_of_lookup {r : Option Mapping} (hl : m.lookup h va = .ok r) : m.mapping? h va = r := by
  unfold lookup at hl
  rcases space_cases m h with ⟨s, hs, hok⟩ | ⟨-, herr⟩
  · rw [hok] at hl
    rw [mapping?_of_space? hs]
    exact Except.ok.inj hl
  · rw [herr] at hl
    cases hl

def Writable (m : Memory) (h : Handle) (va : Nat) (f : FrameId) : Prop :=
  ∃ e, m.mapping? h va = some e ∧ e.frame = f ∧ e.flags.contains PageFlags.writable = true

theorem Settled.used_of_mapping? {e : Mapping} (hb : Settled n m) (he : m.mapping? h va = some e) :
    m.frames.used e.frame = true := by
  obtain ⟨s, hs, hl⟩ := Option.bind_eq_some_iff.mp he
  exact hb.used_of_mem hs (List.mem_cons_of_mem _ (PageTable.lookup_mem_frames hl))

def armed (m : Memory) (deny denyMap : Bool) : Memory :=
  { m with frames := { m.frames with denyNext := deny }, denyNextMap := denyMap }

def Spent (m m' : Memory) : Prop :=
  ∃ deny denyMap, m' = m.armed deny denyMap ∧ (deny = true → m.frames.denyNext = true) ∧
    (denyMap = true → m.denyNextMap = true)

theorem Spent.refl (m : Memory) : Spent m m := ⟨m.frames.denyNext, m.denyNextMap, rfl, fun h => h, fun h => h⟩

theorem Spent.trans (h : Spent m m') (h' : Spent m' m'') : Spent m m'' := by
  obtain ⟨a, b, rfl, ha, hb⟩ := h
  obtain ⟨c, d, rfl, hc, hd⟩ := h'
  exact ⟨c, d, rfl, fun h => ha (hc h), fun h => hb (hd h)⟩

theorem Spent.spaces (h : Spent m m') : m'.spaces = m.spaces := by
  obtain ⟨a, b, rfl, -⟩ := h
  rfl

theorem Spent.invalidations (h : Spent m m') : m'.invalidations = m.invalidations := by
  obtain ⟨a, b, rfl, -⟩ := h
  rfl

theorem Spent.used (h : Spent m m') (f : FrameId) : m'.frames.used f = m.frames.used f := by
  obtain ⟨a, b, rfl, -⟩ := h
  rfl

theorem Spent.page (h : Spent m m') (f : FrameId) : m'.frames.page f = m.frames.page f := by
  obtain ⟨a, b, rfl, -⟩ := h
  rfl

theorem Spent.clear (h : Spent m m') (hc : m.frames.Clear) : m'.frames.Clear := by
  obtain ⟨a, b, rfl, -⟩ := h
  exact hc

theorem settled_armed (hb : Settled n m) (deny denyMap : Bool) : Settled n (m.armed deny denyMap) :=
  ⟨⟨hb.pool.size, hb.pool.nodup, hb.pool.mem_free, hb.pool.used_lt, hb.pool.unused⟩, hb.tables, hb.refs_eq,
    hb.accounted⟩

theorem Spent.settled (h : Spent m m') (hb : Settled n m) : Settled n m' := by
  obtain ⟨a, b, rfl, -⟩ := h
  exact settled_armed hb a b

theorem Spent.mapping? (h : Spent m m') (i : Handle) (va : Nat) : m'.mapping? i va = m.mapping? i va :=
  mapping?_of_spaces h.spaces i va

def Steady (m m' : Memory) : Prop := ∃ p, m.frames.Grown p ∧ p.Shrunk m'.frames

theorem steady_of_grown (h : m.frames.Grown m'.frames) : Steady m m' := ⟨_, h, .refl _⟩

theorem steady_of_shrunk (h : m.frames.Shrunk m'.frames) : Steady m m' := ⟨_, .refl _, h⟩

theorem Spent.steady (h : Spent m m') : Steady m m' :=
  steady_of_grown fun f hf => ⟨(h.used f).trans hf, h.page f⟩

theorem Steady.page (h : Steady m m') (hu : m.frames.used f = true) (hu' : m'.frames.used f = true) :
    m'.frames.page f = m.frames.page f := by
  obtain ⟨p, hg, hs⟩ := h
  exact (hs f hu').2.trans (hg f hu).2

theorem Steady.spent_left (hm : Spent m m') (h : Steady m' m'') : Steady m m'' := by
  obtain ⟨p, hg, hs⟩ := h
  exact ⟨p, fun f hf => ⟨(hg f ((hm.used f).trans hf)).1, (hg f ((hm.used f).trans hf)).2.trans (hm.page f)⟩, hs⟩

section frames

theorem takeFrame_effect (hb : m.frames.Sound n) (hc : m.frames.Clear) :
    (takeFrame m).Meets
      (fun f m' => m.frames.alloc = (some f, m'.frames) ∧ m' = { m with frames := m'.frames } ∧ m'.frames.Clear ∧
        m.frames.Grown m'.frames ∧ m.frames.used f = false)
      (fun _ m' => Spent m m') (fun _ => False) := by
  rw [takeFrame]
  cases ha : m.frames.alloc with
  | mk r q =>
    cases r with
    | none =>
      obtain ⟨hq, hd⟩ := FramePool.alloc_none ha
      exact ⟨q.denyNext, m.denyNextMap, congrArg (fun p => { m with frames := p }) hq, hd, fun h => h⟩
    | some f =>
      obtain ⟨-, rest, hfree, -⟩ := FramePool.alloc_eq ha
      exact ⟨rfl, rfl, FramePool.alloc_clear hc ha, FramePool.alloc_grown hb ha, (hb.head_blank hc hfree).2⟩

theorem addRef_effect (hc : m.frames.Clear) :
    (addRef f m).Meets (fun _ m' => m' = { m with frames := m'.frames } ∧ m'.frames.Clear ∧ m.frames.Grown m'.frames)
      (fun _ _ => False) (fun _ => True) := by
  rw [addRef]
  cases hr : m.frames.retain f with
  | error p => exact trivial
  | ok q => exact ⟨rfl, FramePool.retain_clear hc hr, FramePool.retain_grown hr⟩

theorem dropRefs_effect (l : List FrameId) (hc : m.frames.Clear) :
    (l.foldl dropRef m).frames.Clear ∧ m.frames.Shrunk (l.foldl dropRef m).frames := by
  induction l generalizing m with
  | nil => exact ⟨hc, .refl _⟩
  | cons f l ih =>
    obtain ⟨hc', hs⟩ := ih (m := m.dropRef f) (FramePool.release_clear hc)
    exact ⟨hc', FramePool.release_shrunk.trans hs⟩

end frames

structure Remapped (m m' : Memory) (h : Handle) (va : Nat) (new : Option Mapping) : Prop where
  mapping : ∀ i w, m'.mapping? i w = if i = h ∧ pageBase w = va then new else m.mapping? i w
  steady : Steady m m'
  clear : m'.frames.Clear

theorem Remapped.spent_left {h' : Handle} {new : Option Mapping} (hs : Spent m m') (h : Remapped m' m'' h' va new) :
    Remapped m m'' h' va new :=
  ⟨fun i w => by rw [h.mapping, hs.mapping?], h.steady.spent_left hs, h.clear⟩

theorem create_effect (hb : m.frames.Sound n) (hc : m.frames.Clear) :
    (create m).Meets
      (fun _ m' => (∀ i w, m'.mapping? i w = m.mapping? i w) ∧ m.frames.Grown m'.frames ∧ m'.frames.Clear)
      (fun _ m' => Spent m m') (fun _ => True) := by
  rw [create]
  refine Action.meets_bind (takeFrame_effect hb hc).halting fun root m₁ h₁ => ?_
  obtain ⟨-, he₁, hc₁, hg₁, -⟩ := h₁
  refine Action.meets_bind (addRef_effect hc₁).unrefused fun _ m₂ h₂ => ?_
  obtain ⟨he₂, hc₂, hg₂⟩ := h₂
  have hspaces : m₂.spaces = m.spaces := by rw [he₂, he₁]
  simp only [store, Action.advance]
  split
  · next i hfind =>
    obtain ⟨hlt, hnone, -⟩ := Array.findIdx?_eq_some_iff_getElem.mp hfind
    have hi : m₂.spaces[(⟨i⟩ : Handle).index]? = some none := by simpa [hlt] using hnone
    refine ⟨fun j w => ?_, hg₁.trans hg₂, hc₂⟩
    rw [← mapping?_of_spaces hspaces j w]
    by_cases hj : j = ⟨i⟩
    · subst hj
      rw [mapping?_of_space? (space?_setSpace_self hi)]
      simp [mapping?, space?, hi, PageTable.lookup, Ascending.find?]
    · simp [mapping?, space?_setSpace_of_ne hj]
  · refine ⟨fun j w => ?_, hg₁.trans hg₂, hc₂⟩
    rw [← mapping?_of_spaces hspaces j w]
    simp only [mapping?, space?, Array.getElem?_push]
    split
    · next hj =>
      have hnone : m₂.spaces[j.index]? = none := by simp [hj]
      simp [hnone, PageTable.lookup, Ascending.find?]
    · rfl

theorem destroy_effect (h : Handle) (hc : m.frames.Clear) :
    (destroy h m).Meets
      (fun _ m' => (∀ i w, m'.mapping? i w = if i = h then none else m.mapping? i w) ∧
        m.frames.Shrunk m'.frames ∧ m'.frames.Clear)
      (fun _ m' => m' = m) (fun _ => False) := by
  rw [destroy]
  rcases space_cases m h with ⟨s, hs, hok⟩ | ⟨hs, herr⟩
  · simp only [Action.state_bind, hok, Action.lift_ok_bind]
    obtain ⟨hc₁, hs₁⟩ := dropRefs_effect (s.table.entries.values.map Mapping.frame) (m := m.setSpace h none) hc
    obtain ⟨hc₂, hs₂⟩ := dropRefs_effect s.table.tables.values hc₁
    obtain ⟨hc₃, hs₃⟩ := dropRefs_effect [s.root] hc₂
    rw [List.foldl_map] at hc₃ hs₁ hs₂ hs₃
    refine ⟨fun i w => ?_, (hs₁.trans hs₂).trans hs₃, hc₃⟩
    have hsp : ∀ l l' l'' : List FrameId, (l''.foldl dropRef (l'.foldl dropRef
        (l.foldl dropRef (m.setSpace h none)))).spaces = (m.setSpace h none).spaces := by
      intro l l' l''
      rw [spaces_dropRefs, spaces_dropRefs, spaces_dropRefs]
    have hall := mapping?_of_spaces (hsp (s.table.entries.values.map Mapping.frame) s.table.tables.values [s.root]) i w
    rw [List.foldl_map] at hall
    refine hall.trans ?_
    split
    · next hi =>
      subst hi
      simp [mapping?, space?_setSpace_self (getElem?_of_space? hs)]
    · next hi => simp [mapping?, space?_setSpace_of_ne hi]
  · simp only [Action.state_bind, herr, Action.lift_error_bind]
    rfl

theorem coverSpan_effect (hb : m.frames.Sound n) (hc : m.frames.Clear) :
    (coverSpan h va m).Meets
      (fun _ m' => (∀ i w, m'.mapping? i w = m.mapping? i w) ∧ m.frames.Grown m'.frames ∧ m'.frames.Clear ∧
        ∃ s, m'.space? h = some s ∧ s.table.covers va = true)
      (fun _ m' => Spent m m') (fun _ => True) := by
  rw [coverSpan]
  rcases space_cases m h with ⟨s, hs, hok⟩ | ⟨hs, herr⟩
  · simp only [Action.state_bind, hok, Action.lift_ok_bind]
    cases hcover : s.table.covers va with
    | true =>
      simp only [if_true]
      exact ⟨fun _ _ => rfl, .refl _, hc, s, hs, hcover⟩
    | false =>
      simp only [Bool.false_eq_true, if_false]
      refine Action.meets_bind (takeFrame_effect hb hc).halting fun table m₁ h₁ => ?_
      obtain ⟨-, he₁, hc₁, hg₁, -⟩ := h₁
      refine Action.meets_bind (addRef_effect hc₁).unrefused fun _ m₂ h₂ => ?_
      obtain ⟨he₂, hc₂, hg₂⟩ := h₂
      have hspaces : m₂.spaces = m.spaces := by rw [he₂, he₁]
      have hs₂ : m₂.space? h = some s := by
        rw [space?, hspaces]
        exact hs
      have hself := space?_setSpace_self (b := some { s with table := s.table.install va table })
        (getElem?_of_space? hs₂)
      refine ⟨fun i w => ?_, hg₁.trans hg₂, hc₂, _, hself, by simp [PageTable.covers, PageTable.install, Ascending.has]⟩
      rw [← mapping?_of_spaces hspaces i w]
      by_cases hi : i = h
      · subst hi
        rw [mapping?_of_space? hself, mapping?_of_space? hs₂]
        rfl
      · simp [mapping?, space?_setSpace_of_ne hi]
  · simp only [Action.state_bind, herr, Action.lift_error_bind]
    exact .refl m

theorem map_of_covers {t : PageTable} (hv : PageTable.validate va flags = .ok ()) (hc : t.covers va = true) :
    t.map va { frame, flags } =
      .ok (Ascending.find? va t.entries, { t with entries := Ascending.insert va { frame, flags } t.entries }) := by
  simp only [PageTable.map, hv, bind, Except.bind, hc, if_true]
  rfl

theorem insert_effect (h : Handle) (frame : FrameId) (va : Nat) (flags : PageFlags) (hb : m.frames.Sound n)
    (hc : m.frames.Clear) :
    (insert h frame va flags m).Meets (fun _ m' => Remapped m m' h va (some { frame, flags }))
      (fun _ m' => Spent m m') (fun _ => True) := by
  rw [insert]
  simp only [Action.state_bind]
  cases hd : m.denyNextMap with
  | true =>
    simp only [if_true]
    exact ⟨m.frames.denyNext, false, rfl, fun h => h, fun h => absurd h Bool.false_ne_true⟩
  | false =>
    simp only [Bool.false_eq_true, if_false]
    cases hv : PageTable.validate va flags with
    | error e =>
      simp only [Action.mapError_ofExcept_error, Action.ofExcept_error_bind]
      exact .refl m
    | ok u =>
      simp only [Action.mapError_ofExcept_ok, Action.ofExcept_ok_bind]
      refine Action.meets_bind (coverSpan_effect hb hc) fun _ m₁ h₁ => ?_
      obtain ⟨hm₁, hg₁, hc₁, s, hs₁, hcover⟩ := h₁
      refine Action.meets_bind (addRef_effect hc₁).unrefused fun _ m₂ h₂ => ?_
      obtain ⟨he₂, hc₂, hg₂⟩ := h₂
      have hs₂ : m₂.space? h = some s := by
        rw [he₂]
        exact hs₁
      have hm₂ : ∀ i w, m₂.mapping? i w = m.mapping? i w := fun i w =>
        (mapping?_of_spaces (by rw [he₂]) i w).trans (hm₁ i w)
      simp only [Action.state_bind, space, hs₂, Action.lift_ok_bind, map_of_covers hv hcover]
      have hself := space?_setSpace_self (getElem?_of_space? hs₂)
        (b := some { s with table := { s.table with entries := Ascending.insert va { frame, flags } s.table.entries } })
      have hmap : ∀ i w, (m₂.setSpace h (some { s with table :=
          { s.table with entries := Ascending.insert va { frame, flags } s.table.entries } })).mapping? i w =
          if i = h ∧ pageBase w = va then some { frame, flags } else m.mapping? i w := by
        intro i w
        rw [← hm₂ i w]
        by_cases hi : i = h
        · subst hi
          rw [mapping?_of_space? hself, mapping?_of_space? hs₂]
          by_cases hw : pageBase w = va
          · simp [PageTable.lookup, hw]
          · simp [PageTable.lookup, hw, Ascending.find?_insert_of_ne hw]
        · simp [mapping?, space?_setSpace_of_ne hi, hi]
      cases Ascending.find? va s.table.entries with
      | none => exact ⟨hmap, steady_of_grown (hg₁.trans hg₂), hc₂⟩
      | some old =>
        exact ⟨hmap, ⟨m₂.frames, hg₁.trans hg₂, FramePool.release_shrunk⟩, FramePool.release_clear hc₂⟩

/-- A page is allocated with a frame that was not in use. -/
theorem allocPage_effect (h : Handle) (va : Nat) (flags : PageFlags) (hb : Settled n m) (hc : m.frames.Clear) :
    (allocPage h va flags m).Meets
      (fun _ m' => ∃ frame, m.frames.used frame = false ∧ Remapped m m' h va (some { frame, flags }))
      (fun _ m' => Spent m m') (fun _ => True) := by
  rw [allocPage]
  rcases space_cases m h with ⟨s, hs, hok⟩ | ⟨hs, herr⟩
  · simp only [Action.state_bind, hok, Action.lift_ok_bind]
    refine Action.meets_bind ((Outcome.Meets.and (takeFrame_effect hb.pool hc) (balanced_takeFrame hb)).mono
      (fun _ _ h => h) (fun _ _ h => h.1) fun _ _ => trivial) fun frame m₁ h₁ => ?_
    obtain ⟨⟨ha, he₁, hc₁, hg₁, hu⟩, hb₁, hs₁, -⟩ := h₁
    refine Action.meets_attempt_bind (insert_effect h frame va flags hb₁.pool hc₁) (fun _ m₂ h₂ => ?_)
      fun _ m₂ h₂ => ?_
    · obtain ⟨hmap, ⟨p, hg, hp⟩, hc₂⟩ := h₂
      refine ⟨frame, hu, fun i w => ?_, ⟨p, hg₁.trans hg, hp⟩, hc₂⟩
      rw [hmap, mapping?_of_spaces hs₁ i w]
    · -- The frame goes back to where it came from.
      obtain ⟨a, b, rfl, hdeny, hmap⟩ := h₂
      have hd₁ : m₁.frames.denyNext = false := by
        obtain ⟨hd, rest, -, hq⟩ := FramePool.alloc_eq ha
        rw [hq]
        exact hd
      obtain rfl : a = false := by
        cases a with
        | false => rfl
        | true => exact absurd (hdeny rfl) (by rw [hd₁]; decide)
      have hpool : (m₁.armed false b).frames = m₁.frames := by
        rw [← hd₁]
        rfl
      refine ⟨m.frames.denyNext, b, ?_, fun h => h, fun h => ?_⟩
      · show { m₁.armed false b with frames := (m₁.armed false b).frames.releaseUnused frame } = _
        rw [hpool, FramePool.releaseUnused_of_alloc hb.pool hc ha, he₁]
        rfl
      · have hdm := hmap h
        rw [he₁] at hdm
        exact hdm
  · simp only [Action.state_bind, herr, Action.lift_error_bind]
    exact .refl m

theorem remove_effect (h : Handle) (va : Nat) (hb : Settled n m) (hc : m.frames.Clear) :
    (remove h va m).Meets (fun _ m' => Remapped m m' h (pageBase va) none) (fun _ m' => m' = m) (fun _ => False) := by
  rw [remove]
  rcases space_cases m h with ⟨s, hs, hok⟩ | ⟨hs, herr⟩
  · simp only [Action.state_bind, hok, Action.lift_ok_bind, Action.modify_bind]
    have hself := space?_setSpace_self (b := some { s with table := (s.table.unmap va).2 }) (getElem?_of_space? hs)
    have hmap : ∀ i w, (m.setSpace h (some { s with table := (s.table.unmap va).2 })).mapping? i w =
        if i = h ∧ pageBase w = pageBase va then none else m.mapping? i w := by
      intro i w
      by_cases hi : i = h
      · subst hi
        rw [mapping?_of_space? hself, mapping?_of_space? hs]
        by_cases hw : pageBase w = pageBase va
        · simp [PageTable.lookup, PageTable.unmap, hw, Ascending.find?_erase_self (hb.tables i s hs).entries_sorted]
        · simp [PageTable.lookup, PageTable.unmap, hw, Ascending.find?_erase_of_ne hw]
      · simp [mapping?, space?_setSpace_of_ne hi, hi]
    cases (s.table.unmap va).1 with
    | none => exact ⟨hmap, steady_of_grown (.refl _), hc⟩
    | some old => exact ⟨hmap, steady_of_shrunk FramePool.release_shrunk, FramePool.release_clear hc⟩
  · simp only [Action.state_bind, herr, Action.lift_error_bind]
    rfl

theorem writable_of_frameFor (hf : m.frameFor h va true = .ok f) : m.Writable h va f := by
  unfold frameFor at hf
  split at hf
  · cases hf
  · next e he =>
    split at hf
    · next hneeds =>
      have hw : (accessNeeds true).contains PageFlags.writable = true := by decide
      exact ⟨e, he, Except.ok.inj hf, Flags.contains_trans hneeds hw⟩
    · cases hf

structure Stored (m m' : Memory) (h : Handle) : Prop where
  pool : m' = { m with frames := m'.frames }
  alike : m.frames.Alike m'.frames
  page : ∀ f, m'.frames.page f = m.frames.page f ∨ ∃ va, m.Writable h va f
  clear : m'.frames.Clear

theorem stored_refl (hc : m.frames.Clear) : Stored m m h :=
  ⟨rfl, ⟨fun _ => rfl, fun _ => rfl, rfl, rfl⟩, fun _ => .inl rfl, hc⟩

theorem Stored.spaces (hs : Stored m m' h) : m'.spaces = m.spaces := by rw [hs.pool]

theorem Stored.trans (h₁ : Stored m m' h) (h₂ : Stored m' m'' h) : Stored m m'' h := by
  refine ⟨?_, h₁.alike.trans h₂.alike, fun f => ?_, h₂.clear⟩
  · rw [h₂.pool, h₁.pool]
  · rcases h₂.page f with hp | ⟨va, e, he, hw⟩
    · rw [hp]
      exact h₁.page f
    · exact .inr ⟨va, e, (mapping?_of_spaces h₁.spaces h va).symm.trans he, hw⟩

theorem Stored.settled (hs : Stored m m' h) (hb : Settled n m) : Settled n m' := by
  rw [hs.pool]
  exact hb.alike hs.alike

theorem writeUser_effect (h : Handle) (va : Nat) (data : Bytes) (hb : Settled n m) (hc : m.frames.Clear) :
    (writeUser h va data m).Meets (fun _ m' => Stored m m' h) (fun _ m' => Stored m m' h)
      (fun p => p = .addOverflow) := by
  have hself : Stored m m h := stored_refl hc
  generalize hn : data.length = count
  induction count using Nat.strong_induction_on generalizing va data m with
  | h count ih =>
    rw [writeUser]
    split
    · exact hself
    · next hd =>
      split
      · rw [Action.state_bind]
        cases hf : m.frameFor h va true with
        | error e =>
          rw [Action.lift_error_bind]
          exact hself
        | ok f =>
          rw [Action.lift_ok_bind, Action.modify_bind]
          obtain ⟨e, he, rfl, hflags⟩ := writable_of_frameFor hf
          have hu := Settled.used_of_mapping? hb he
          have hpos := @chunk_pos va _ hd
          have hrest : (data.drop (chunk va data.length)).length < count := by
            rw [List.length_drop]
            omega
          have hb₁ := settled_write hb e.frame (va % pageSize) (data.take (chunk va data.length))
          have hc₁ : (m.frames.write e.frame (va % pageSize) (data.take (chunk va data.length))).Clear :=
            FramePool.write_clear hc hu
          have halike := FramePool.alike_write (p := m.frames) (f := e.frame) (va % pageSize)
            (data.take (chunk va data.length))
          -- The pages that the rest of the store reaches were reached by the same mappings before.
          have hstep : ∀ m', Stored { m with
              frames := m.frames.write e.frame (va % pageSize) (data.take (chunk va data.length)) } m' h →
              Stored m m' h := by
            intro m' hs
            refine ⟨hs.pool, halike.trans hs.alike, fun g => ?_, hs.clear⟩
            by_cases hg : g = e.frame
            · exact .inr ⟨va, e, he, hg.symm, hflags⟩
            · refine (hs.page g).imp_left fun h => h.trans ?_
              exact FramePool.page_update_of_ne hg
          exact (ih _ hrest _ _ hb₁ hc₁ (stored_refl hc₁) rfl).mono (fun _ m' => hstep m') (fun _ m' => hstep m')
            fun _ h => h
      · exact rfl

end Memory

end Exokernel
