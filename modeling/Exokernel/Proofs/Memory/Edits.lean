import Exokernel.Proofs.Memory.Balance

/-!
# Edits of address spaces keep the balance

Every operation on memory, whether it succeeds or is refused, leaves every reference with a live space. None of
them refers to a free frame. A count could leave its range only with more live spaces than the table has slots.
-/

set_option autoImplicit false

namespace Exokernel.Memory

variable {n : Nat} {m m' : Memory} {f : FrameId} {h : Handle} {s : Space} {va : Nat} {flags : PageFlags}
  {held : List FrameId} {loose : FrameId → Prop}

def Crowded (m : Memory) (p : Panic) : Prop := p = .addOverflow ∧ spaceLimit < m.liveCount

theorem Balanced.crowded (hb : Balanced n m held loose) (hh : held.length ≤ 1) {p : Panic}
    (hp : p = .addOverflow ∧ countLimit ≤ m.refs f + 1) : Crowded m p := by
  refine ⟨hp.1, ?_⟩
  by_contra hl
  have hroom := hb.refs_room (by omega) hh f
  omega

theorem space_cases (m : Memory) (h : Handle) :
    (∃ s, m.space? h = some s ∧ m.space h = .ok s) ∨ (m.space? h = none ∧ m.space h = .error .invalidHandle) := by
  unfold space
  cases hs : m.space? h with
  | none => exact .inr ⟨rfl, rfl⟩
  | some s => exact .inl ⟨s, rfl, rfl⟩

theorem balanced_create (hb : Settled n m) :
    (create m).Meets
      (fun h m' => Settled n m' ∧ m.isLive h = false ∧ (∀ i, m'.isLive i = (m.isLive i || i == h)) ∧
        m'.liveCount = m.liveCount + 1)
      (fun _ m' => Settled n m' ∧ Kept m m') (Crowded m) := by
  rw [create]
  refine Action.meets_bind ((balanced_takeFrame hb).mono (fun _ _ h => h) (fun _ m₁ h => ⟨h.1, kept_of_spaces h.2⟩)
    fun _ => False.elim) fun root m₁ ⟨hb₁, hs₁, hu₁, _⟩ => ?_
  have hk₁ : Kept m m₁ := kept_of_spaces hs₁
  refine Action.meets_bind ((balanced_addRef hb₁ hu₁).mono (fun _ _ h => h) (fun _ _ => False.elim) fun p hp => ?_)
    fun _ m₂ ⟨hb₂, hs₂, hr₂, _⟩ => ?_
  · obtain ⟨rfl, hl⟩ := hb₁.crowded (by simp) hp
    exact ⟨rfl, hk₁.count ▸ hl⟩
  · have hk₂ : Kept m m₂ := hk₁.trans (kept_of_spaces hs₂)
    have hb₃ : Balanced n m₂ (Space.refs { root } ++ []) fun _ => False :=
      hb₂.narrow fun f hf => by
        rcases hf with hf | rfl
        · exact .inl hf
        · exact .inr hr₂
    refine (balanced_store hb₃ PageTable.sound_empty).mono (fun h m₃ ⟨hb₄, hn, hl, hc⟩ => ?_) (fun _ _ => False.elim)
      fun _ => False.elim
    refine ⟨hb₄, hk₂.live h ▸ hn, fun i => ?_, ?_⟩
    · rw [hl i, hk₂.live i]
    · rw [hc, hk₂.count]

theorem balanced_destroy (hb : Settled n m) :
    (destroy h m).Meets
      (fun _ m' => Settled n m' ∧ m.isLive h = true ∧ (∀ i, m'.isLive i = (m.isLive i && i != h)) ∧
        m'.liveCount + 1 = m.liveCount)
      (fun _ m' => m' = m ∧ m.isLive h = false) (fun _ => False) := by
  rw [destroy]
  rcases space_cases m h with ⟨s, hs, hok⟩ | ⟨hs, herr⟩
  · simp only [Action.state_bind, hok, Action.lift_ok_bind]
    -- The space hands its references over in the order in which they are dropped.
    have hi := getElem?_of_space? hs
    have hperm : (refsOf (some s) ++ []).Perm
        (refsOf none ++ (s.table.entries.values.map Mapping.frame ++ (s.table.tables.values ++ ([s.root] ++ [])))) := by
      simp only [refsOf, Space.refs, PageTable.frames, List.append_nil, List.nil_append]
      apply (List.perm_append_comm.cons _).trans
      rw [← List.append_assoc]
      exact (List.perm_append_singleton _ _).symm
    have hb₁ := hb.setSpace hi hperm (by simp)
    have hb₂ := hb₁.dropRefs.dropRefs.dropRefs
    have hsp : ∀ l l' l'' : List FrameId, (l''.foldl dropRef (l'.foldl dropRef
        (l.foldl dropRef (m.setSpace h none)))).spaces = (m.setSpace h none).spaces := by
      intro l l' l''
      rw [spaces_dropRefs, spaces_dropRefs, spaces_dropRefs]
    have hk := kept_of_spaces (hsp (s.table.entries.values.map Mapping.frame) s.table.tables.values [s.root])
    rw [List.foldl_map] at hb₂ hk
    refine ⟨⟨hb₂.pool, hb₂.tables, hb₂.refs_eq, hb₂.accounted⟩, by simp [isLive, hs], fun i => ?_, ?_⟩
    · apply (hk.live i).trans
      by_cases hih : i = h
      · subst hih; simp [isLive, space?_setSpace_self hi]
      · simp [isLive, space?_setSpace_of_ne hih, hih]
    · have hc := liveCount_setSpace (b := none) hi
      have hk' := hk.count
      simp only [Option.isSome_some, Option.isSome_none, if_true] at hc
      exact (congrArg (· + 1) hk').trans (by simpa using hc)
  · simp only [Action.state_bind, herr, Action.lift_error_bind]
    exact ⟨rfl, by simp [isLive, hs]⟩

theorem destroy_done (hb : Settled n m) (hl : m.isLive h = true) :
    ∃ m', destroy h m = .done () m' ∧ Settled n m' ∧ (∀ i, m'.isLive i = (m.isLive i && i != h)) ∧
      m'.liveCount + 1 = m.liveCount := by
  have hd := balanced_destroy (h := h) hb
  cases hr : destroy h m with
  | done u m' =>
    rw [hr] at hd
    exact ⟨m', rfl, hd.1, hd.2.2⟩
  | refused e m' =>
    rw [hr] at hd
    exact absurd (hl.symm.trans hd.2) (by decide)
  | halted p =>
    rw [hr] at hd
    exact hd.elim

theorem balanced_coverSpan (hb : Balanced n m [] loose) (hva : va < utop) :
    (coverSpan h va m).Meets
      (fun _ m' => Balanced n m' [] loose ∧ Kept m m' ∧ m'.isLive h = true ∧
        ∀ g, m.frames.used g = true → m'.frames.used g = true)
      (fun _ m' => Balanced n m' [] loose ∧ Kept m m') (Crowded m) := by
  rw [coverSpan]
  rcases space_cases m h with ⟨s, hs, hok⟩ | ⟨hs, herr⟩
  · simp only [Action.state_bind, hok, Action.lift_ok_bind]
    cases hc : s.table.covers va with
    | true =>
      simp only [if_true]
      exact ⟨hb, kept_of_spaces rfl, by simp [isLive, hs], fun g hg => hg⟩
    | false =>
      simp only [Bool.false_eq_true, if_false]
      refine Action.meets_bind ((balanced_takeFrame hb).mono (fun _ _ h => h)
        (fun _ _ h => ⟨h.1, kept_of_spaces h.2⟩) fun _ => False.elim) ?_
      intro table m₁ h₁
      obtain ⟨hb₁, hs₁, hu₁, hmono⟩ := h₁
      have hk₁ : Kept m m₁ := kept_of_spaces hs₁
      refine Action.meets_bind ((balanced_addRef hb₁ hu₁).mono (fun _ _ h => h) (fun _ _ => False.elim)
        fun p hp => ?_) ?_
      · obtain ⟨rfl, hl⟩ := hb₁.crowded (by simp) hp
        exact ⟨rfl, hk₁.count ▸ hl⟩
      · intro _ m₂ h₂
        obtain ⟨hb₂, hs₂, hr₂, hus⟩ := h₂
        have hk₂ : Kept m m₂ := hk₁.trans (kept_of_spaces hs₂)
        have hsm : m₂.space? h = some s := by rw [space?, hs₂, hs₁]; exact hs
        have hb₃ : Balanced n m₂ [table] loose := hb₂.narrow fun f hf => hf.imp_right fun h : f = table => h ▸ hr₂
        have hperm : (s.refs ++ [table]).Perm (refsOf (some { s with table := s.table.install va table }) ++ []) := by
          simp only [refsOf, Space.refs, List.append_nil]
          refine (List.perm_append_singleton _ _).trans ((List.Perm.swap _ _ _).trans ?_)
          exact (PageTable.frames_install hc).symm.cons _
        have ht := (hb₃.tables h s hsm).install hva table
        have hi := getElem?_of_space? hsm
        refine ⟨hb₃.setSpace hi hperm fun s' h' => ?_, hk₂.trans (kept_setSpace hsm), ?_, fun g hg => ?_⟩
        · rw [← Option.some.inj h']
          exact ht
        · simp [isLive, space?_setSpace_self hi]
        · exact (hus g).trans (hmono g hg)
  · simp only [Action.state_bind, herr, Action.lift_error_bind]
    exact ⟨hb, kept_of_spaces rfl⟩

theorem Balanced.entered {s : Space} {x : Mapping} {replaced : Option Mapping} {table : PageTable}
    (hb : Balanced n m [x.frame] loose) (hs : m.space? h = some s) (hm : s.table.map va x = .ok (replaced, table)) :
    Balanced n (m.setSpace h (some { s with table })) (replaced.toList.map Mapping.frame) loose := by
  obtain ⟨ht, hperm⟩ := PageTable.map_ok (hb.tables h s hs) hm
  have hswap : (s.refs ++ [x.frame]).Perm
      (refsOf (some { s with table }) ++ replaced.toList.map Mapping.frame) := by
    refine (List.perm_append_singleton _ _).trans ((List.Perm.swap _ _ _).trans ?_)
    exact (hperm.symm.trans List.perm_append_comm).cons _
  exact hb.setSpace (getElem?_of_space? hs) hswap fun s' h' => by rw [← Option.some.inj h']; exact ht

/-- Mapping a frame keeps the balance if referring to it does. -/
theorem balanced_insert_of {frame : FrameId} {H : Panic → Prop} (hb : Balanced n m [] loose)
    (hcrowded : ∀ p, Crowded m p → H p)
    (hadd : ∀ m₁, Balanced n m₁ [] loose → Kept m m₁ →
      (∀ g, m.frames.used g = true → m₁.frames.used g = true) →
      (addRef frame m₁).Meets (fun _ m₂ => Balanced n m₂ [frame] loose ∧ m₂.spaces = m₁.spaces) (fun _ _ => False) H) :
    (insert h frame va flags m).Meets
      (fun _ m' => Balanced n m' [] loose ∧ Kept m m' ∧ 0 < m'.refs frame)
      (fun _ m' => Balanced n m' [] loose ∧ Kept m m') H := by
  rw [insert]
  simp only [Action.state_bind]
  cases hd : m.denyNextMap with
  | true =>
    simp only [if_true]
    exact ⟨⟨hb.pool, hb.tables, hb.refs_eq, hb.accounted⟩, kept_of_spaces rfl⟩
  | false =>
    simp only [Bool.false_eq_true, if_false]
    cases hv : PageTable.validate va flags with
    | error e =>
      simp only [Action.mapError_ofExcept_error, Action.ofExcept_error_bind]
      exact ⟨hb, kept_of_spaces rfl⟩
    | ok u =>
      obtain ⟨-, hva⟩ := PageTable.validate_ok hv
      simp only [Action.mapError_ofExcept_ok, Action.ofExcept_ok_bind]
      refine Action.meets_bind ((balanced_coverSpan hb hva).mono (fun _ _ h => h) (fun _ _ h => h) hcrowded)
        fun _ m₁ ⟨hb₁, hk₁, hl₁, hmono⟩ => ?_
      refine Action.meets_bind ((hadd m₁ hb₁ hk₁ hmono).mono (fun _ _ h => h) (fun _ _ => False.elim)
        fun _ h => h) fun _ m₂ ⟨hb₂, hs₂⟩ => ?_
      have hk₂ : Kept m m₂ := hk₁.trans (kept_of_spaces hs₂)
      have hl₂ : m₂.isLive h = true := ((kept_of_spaces hs₂).live h).trans hl₁
      obtain ⟨s, hs⟩ := Option.isSome_iff_exists.mp hl₂
      simp only [Action.state_bind, space, hs, Action.lift_ok_bind]
      cases hm : s.table.map va { frame, flags } with
      | error e => exact ⟨hb₂.dropRef, hk₂.trans (kept_of_spaces rfl)⟩
      | ok r =>
        obtain ⟨replaced, table⟩ := r
        have hb₃ := hb₂.entered hs hm
        have hk₃ : Kept m (m₂.setSpace h (some { s with table })) := hk₂.trans (kept_setSpace hs)
        have hnew : (m₂.setSpace h (some { s with table })).space? h = some { s with table } :=
          space?_setSpace_self (getElem?_of_space? hs)
        have hmem : frame ∈ Space.refs { s with table } := List.mem_cons_of_mem _ (PageTable.map_mem_frames hm)
        cases replaced with
        | none => exact ⟨hb₃, hk₃, hb₃.refs_pos hnew hmem⟩
        | some old =>
          have hb₄ := hb₃.dropRef
          exact ⟨⟨hb₄.pool, hb₄.tables, hb₄.refs_eq, hb₄.accounted⟩, hk₃.trans (kept_of_spaces rfl),
            hb₄.refs_pos hnew hmem⟩

theorem balanced_insert {frame : FrameId} (hb : Balanced n m [] loose) (hu : m.frames.used frame = true) :
    (insert h frame va flags m).Meets
      (fun _ m' => Balanced n m' [] loose ∧ Kept m m' ∧ 0 < m'.refs frame)
      (fun _ m' => Balanced n m' [] loose ∧ Kept m m') (Crowded m) := by
  refine balanced_insert_of hb (fun _ h => h) fun m₁ hb₁ hk₁ hmono => ?_
  refine (balanced_addRef hb₁ (hmono _ hu)).mono (fun _ _ h => ⟨h.1, h.2.1⟩) (fun _ _ h => h) fun p hp => ?_
  obtain ⟨rfl, hl⟩ := hb₁.crowded (by simp) hp
  exact ⟨rfl, hk₁.count ▸ hl⟩

theorem balanced_insert_any {frame : FrameId} (hb : Balanced n m [] loose) :
    (insert h frame va flags m).Meets (fun _ m' => Balanced n m' [] loose ∧ Kept m m' ∧ 0 < m'.refs frame)
      (fun _ m' => Balanced n m' [] loose ∧ Kept m m') (fun _ => True) := by
  refine balanced_insert_of hb (fun _ _ => trivial) fun m₁ hb₁ _ _ => ?_
  by_cases hu : m₁.frames.used frame = true
  · exact (balanced_addRef hb₁ hu).mono (fun _ _ h => ⟨h.1, h.2.1⟩) (fun _ _ h => h) fun _ _ => trivial
  · rw [addRef, FramePool.retain_of_unused (by simpa using hu)]
    trivial

theorem balanced_allocPage (hb : Settled n m) :
    (allocPage h va flags m).Meets (fun _ m' => Settled n m' ∧ Kept m m') (fun _ m' => Settled n m' ∧ Kept m m')
      (Crowded m) := by
  rw [allocPage]
  rcases space_cases m h with ⟨s, hs, hok⟩ | ⟨hs, herr⟩
  · simp only [Action.state_bind, hok, Action.lift_ok_bind]
    refine Action.meets_bind ((balanced_takeFrame hb).mono (fun _ _ h => h)
      (fun _ _ h => ⟨h.1, kept_of_spaces h.2⟩) fun _ => False.elim) fun frame m₁ ⟨hb₁, hs₁, hu₁, _⟩ => ?_
    have hk₁ : Kept m m₁ := kept_of_spaces hs₁
    refine Action.meets_attempt_bind ((balanced_insert hb₁ hu₁).mono (fun _ _ h => h) (fun _ _ h => h)
      fun p hp => ⟨hp.1, hk₁.count ▸ hp.2⟩) (fun _ m₂ h₂ => ?_) fun _ m₂ h₂ => ?_
    · obtain ⟨hb₂, hk₂, hr₂⟩ := h₂
      refine ⟨hb₂.narrow fun f hf => ?_, hk₁.trans hk₂⟩
      rcases hf with hf | rfl
      · exact .inl hf
      · exact .inr hr₂
    · obtain ⟨hb₂, hk₂⟩ := h₂
      obtain ⟨hpool, hrefs, hused⟩ := FramePool.releaseUnused_spec (f := frame) hb₂.pool
      refine ⟨⟨hpool, hb₂.tables, fun f => (hrefs f).trans (hb₂.refs_eq f), fun f hf => .inl ?_⟩,
        (hk₁.trans hk₂).trans (kept_of_spaces rfl)⟩
      show 0 < (m₂.frames.releaseUnused frame).refs f
      change (m₂.frames.releaseUnused frame).used f = true at hf
      rw [hused, Bool.and_eq_true] at hf
      rw [hrefs]
      rcases hb₂.accounted f hf.1 with h | h | rfl
      · exact h
      · exact h.elim
      · simpa using hf.2
  · simp only [Action.state_bind, herr, Action.lift_error_bind]
    exact ⟨hb, kept_of_spaces rfl⟩

theorem balanced_remove (hb : Settled n m) :
    (remove h va m).Meets (fun _ m' => Settled n m' ∧ Kept m m') (fun _ m' => m' = m) (fun _ => False) := by
  rw [remove]
  rcases space_cases m h with ⟨s, hs, hok⟩ | ⟨hs, herr⟩
  · simp only [Action.state_bind, hok, Action.lift_ok_bind]
    have hi := getElem?_of_space? hs
    have hswap : (s.refs ++ []).Perm (refsOf (some { s with table := (s.table.unmap va).2 }) ++
        (s.table.unmap va).1.toList.map Mapping.frame) := by
      rw [List.append_nil]
      exact (PageTable.frames_unmap.symm.trans List.perm_append_comm).cons _
    have hb₁ := hb.setSpace hi hswap fun s' h' => by
      rw [← Option.some.inj h']
      exact (hb.tables h s hs).unmap va
    have hk₁ : Kept m (m.setSpace h (some { s with table := (s.table.unmap va).2 })) := kept_setSpace hs
    simp only [Action.modify_bind]
    cases hr : (s.table.unmap va).1 with
    | none =>
      rw [hr] at hb₁
      exact ⟨hb₁, hk₁⟩
    | some old =>
      rw [hr] at hb₁
      have hb₂ := hb₁.dropRef
      exact ⟨⟨hb₂.pool, hb₂.tables, hb₂.refs_eq, hb₂.accounted⟩, hk₁.trans (kept_of_spaces rfl)⟩
  · simp only [Action.state_bind, herr, Action.lift_error_bind]
    exact rfl

end Exokernel.Memory
