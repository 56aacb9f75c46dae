import Exokernel.Proofs.Memory.Ascending

/-!
# Sound page tables

Spans and pages of a table are aligned, ascending and below `utop`, so that a table refers to a bounded number of
frames, and every page lies in a span that a page-table page covers. An edit of a table exchanges the frame that goes
for the one that comes.
-/

set_option autoImplicit false

namespace Exokernel

section pages

variable {va base : Nat}

theorem pageBase_mod (va : Nat) : pageBase va % pageSize = 0 := by
  simp only [pageBase, pageSize]
  omega

theorem pageBase_of_mod (h : va % pageSize = 0) : pageBase va = va := by rw [pageBase, h, Nat.sub_zero]

theorem pageBase_pageBase (va : Nat) : pageBase (pageBase va) = pageBase va := pageBase_of_mod (pageBase_mod va)

theorem pageBase_offset (hb : pageBase base = base) {k : Nat} (hk : k < pageSize) : pageBase (base + k) = base := by
  simp only [pageBase, pageSize] at *
  omega

theorem offset_mod (hb : pageBase base = base) {k : Nat} (hk : k < pageSize) : (base + k) % pageSize = k := by
  simp only [pageBase, pageSize] at *
  omega

theorem pageBase_add_mod (va : Nat) : pageBase va + va % pageSize = va := by
  simp only [pageBase, pageSize]
  omega

end pages

namespace PageTable

variable {t t' : PageTable} {va : Nat} {f : FrameId} {m : Mapping}

structure Sound (t : PageTable) : Prop where
  tables_sorted : Ascending.Sorted t.tables
  entries_sorted : Ascending.Sorted t.entries
  tables_keys : ∀ p ∈ t.tables, p.1 % spanSize = 0 ∧ p.1 < utop
  entries_keys : ∀ p ∈ t.entries, p.1 % pageSize = 0 ∧ p.1 < utop
  entries_covered : ∀ p ∈ t.entries, t.covers p.1 = true

def frames (t : PageTable) : List FrameId := t.tables.values ++ t.entries.values.map Mapping.frame

def framesLimit : Nat := utop / spanSize + utop / pageSize

theorem sound_empty : Sound {} := ⟨Ascending.sorted_nil, Ascending.sorted_nil, by simp, by simp, by simp⟩

theorem covers_install (va w : Nat) : (t.install va f).covers w = (t.covers w || spanBase w == spanBase va) := by
  by_cases hw : spanBase w = spanBase va
  · simp [covers, install, Ascending.has, hw]
  · simp [covers, install, Ascending.has, Ascending.find?_insert_of_ne hw, hw]

theorem spanBase_mod (va : Nat) : spanBase va % spanSize = 0 := by
  have := Nat.div_add_mod va spanSize
  have h : spanBase va = spanSize * (va / spanSize) := by unfold spanBase; omega
  rw [h, Nat.mul_mod_right]

theorem pageBase_lt_utop (h : pageBase va < utop) : va < utop := by
  simp only [pageBase, utop, pageSize] at *
  omega

theorem validate_ok {flags : PageFlags} (h : validate va flags = .ok ()) : aligned va = true ∧ va < utop := by
  unfold validate at h
  split at h
  · cases h
  · next ha =>
    split at h
    · cases h
    · next hu => exact ⟨by simpa using ha, by omega⟩

theorem Sound.install (ht : t.Sound) (hva : va < utop) (f : FrameId) : (t.install va f).Sound where
  tables_sorted := Ascending.sorted_insert _ _ ht.tables_sorted
  entries_sorted := ht.entries_sorted
  tables_keys p hp := by
    rcases Ascending.mem_insert hp with rfl | hp
    · exact ⟨spanBase_mod va, Nat.lt_of_le_of_lt (Nat.sub_le _ _) hva⟩
    · exact ht.tables_keys p hp
  entries_keys := ht.entries_keys
  entries_covered p hp := by rw [covers_install, ht.entries_covered p hp, Bool.true_or]

theorem frames_install (h : t.covers va = false) : (t.install va f).frames.Perm (f :: t.frames) := by
  have hf : Ascending.find? (spanBase va) t.tables = none := by simpa [covers, Ascending.has] using h
  have hp := (Ascending.insert_perm_of_find?_none f hf).map Prod.snd
  exact hp.append_right _

/-- What a successful mapping does to the frames that a table refers to. -/
theorem map_ok {replaced : Option Mapping} (ht : t.Sound) (h : t.map va m = .ok (replaced, t')) :
    t'.Sound ∧ (replaced.toList.map Mapping.frame ++ t'.frames).Perm (m.frame :: t.frames) := by
  unfold map at h
  cases hv : validate va m.flags with
  | error e => rw [hv] at h; cases h
  | ok u =>
    obtain ⟨ha, hu⟩ := validate_ok hv
    rw [hv] at h
    simp only [bind, Except.bind] at h
    split at h
    · next hc =>
      obtain ⟨rfl, rfl⟩ : Ascending.find? va t.entries = replaced ∧
          { t with entries := Ascending.insert va m t.entries } = t' := by
        simpa [pure, Except.pure] using h
      refine ⟨⟨ht.tables_sorted, Ascending.sorted_insert _ _ ht.entries_sorted, ht.tables_keys, fun p hp => ?_,
        fun p hp => ?_⟩, ?_⟩
      · rcases Ascending.mem_insert hp with rfl | hp
        · exact ⟨by simpa [aligned] using ha, hu⟩
        · exact ht.entries_keys p hp
      · rcases Ascending.mem_insert hp with rfl | hp
        · exact hc
        · exact ht.entries_covered p hp
      · -- Only the leaf entries change, and they stand after the page-table pages.
        have hmove : ∀ (a : FrameId) (l : List FrameId),
            (a :: (t.tables.values ++ l)).Perm (t.tables.values ++ a :: l) := fun a l => List.perm_middle.symm
        cases hf : Ascending.find? va t.entries with
        | none =>
          have hp := (Ascending.insert_perm_of_find?_none m hf).map fun p => p.2.frame
          simp only [List.map_cons] at hp
          simp only [Option.toList_none, List.map_nil, List.nil_append, frames, Ascending.values, List.map_map]
          exact (hp.append_left _).trans (hmove _ _).symm
        | some old =>
          have hp := (Ascending.insert_perm_of_find?_some m ht.entries_sorted hf).map fun p => p.2.frame
          simp only [List.map_cons] at hp
          simp only [Option.toList_some, List.map_cons, List.map_nil, List.singleton_append, frames,
            Ascending.values, List.map_map]
          exact (hmove _ _).trans ((hp.append_left _).trans (hmove _ _).symm)
    · cases h

theorem map_mem_frames {replaced : Option Mapping} (h : t.map va m = .ok (replaced, t')) : m.frame ∈ t'.frames := by
  unfold map at h
  cases hv : validate va m.flags with
  | error e => rw [hv] at h; cases h
  | ok u =>
    rw [hv] at h
    simp only [bind, Except.bind] at h
    split at h
    · obtain ⟨-, rfl⟩ : Ascending.find? va t.entries = replaced ∧
          { t with entries := Ascending.insert va m t.entries } = t' := by
        simpa [pure, Except.pure] using h
      have hm := Ascending.mem_of_find? (Ascending.find?_insert_self va m t.entries)
      exact List.mem_append_right _ (List.mem_map_of_mem (List.mem_map_of_mem hm))
    · cases h

theorem Sound.unmap (ht : t.Sound) (va : Nat) : (t.unmap va).2.Sound :=
  ⟨ht.tables_sorted, Ascending.sorted_erase _ ht.entries_sorted, ht.tables_keys,
    fun p hp => ht.entries_keys p ((Ascending.erase_sublist _ _).subset hp),
    fun p hp => ht.entries_covered p ((Ascending.erase_sublist _ _).subset hp)⟩

theorem frames_unmap : ((t.unmap va).1.toList.map Mapping.frame ++ (t.unmap va).2.frames).Perm t.frames := by
  cases hf : Ascending.find? (pageBase va) t.entries with
  | none => simp [unmap, lookup, hf, Ascending.erase_eq_self hf]
  | some old =>
    have hp := (Ascending.erase_perm hf).map fun p => p.2.frame
    simp only [List.map_cons] at hp
    simp only [unmap, lookup, hf, Option.toList_some, List.map_cons, List.map_nil, List.singleton_append, frames,
      Ascending.values, List.map_map]
    exact List.perm_middle.symm.trans (hp.append_left _)

theorem Sound.entries_length_le (ht : t.Sound) : t.entries.length ≤ utop / pageSize :=
  Ascending.length_le_of_multiples ht.entries_sorted fun p hp => by
    obtain ⟨h0, h1⟩ := ht.entries_keys p hp
    exact ⟨h0, h1⟩

theorem Sound.frames_length_le (ht : t.Sound) : t.frames.length ≤ framesLimit := by
  have hs : t.tables.length ≤ utop / spanSize :=
    Ascending.length_le_of_multiples ht.tables_sorted fun p hp => by
      obtain ⟨h0, h1⟩ := ht.tables_keys p hp
      exact ⟨h0, h1⟩
  have he := ht.entries_length_le
  simp only [frames, Ascending.values, List.length_append, List.length_map, framesLimit]
  omega

theorem Sound.lookup_lt (ht : t.Sound) (h : t.lookup va = some m) : va < utop :=
  pageBase_lt_utop (ht.entries_keys _ (Ascending.mem_of_find? h)).2

theorem lookup_mem_frames (h : t.lookup va = some m) : m.frame ∈ t.frames := by
  have hm := Ascending.mem_of_find? h
  exact List.mem_append_right _ (List.mem_map_of_mem (List.mem_map_of_mem hm))

end PageTable

end Exokernel
