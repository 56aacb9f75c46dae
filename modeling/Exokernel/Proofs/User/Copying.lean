import Exokernel.Proofs.Kernel.Deeds
import Exokernel.Proofs.Memory.Bytes
import Exokernel.User.Library
import Mathlib.Data.Finset.Card

/-!
# A private copy of a page

A page that is marked copy-on-write and may not be stored to is exchanged for a copy of its own: the copy is made at
the scratch page, mapped in place of the old page, and unmapped from the scratch page. Every space shows the bytes that
it showed before, and the space has one page less that waits for its copy. This takes one frame, and one more if the
span of the scratch page has no page-table page yet.
-/

set_option autoImplicit false

namespace Exokernel

variable {n count : Nat} {t : Env.Table} {m m' : Memory} {h i : Handle} {va v w base : Nat} {flags : PageFlags}
  {e : Mapping} {frame : FrameId} {new : Option Mapping}

def Mapping.isLazy (e : Mapping) : Bool := e.flags.contains PageFlags.cow && !e.flags.contains PageFlags.writable

theorem Ascending.find?_of_mem {α : Type} {key : Nat} {a : α} {l : Ascending α} (hs : Sorted l) (hm : (key, a) ∈ l) :
    find? key l = some a := by
  induction l with
  | nil => cases hm
  | cons p rest ih =>
    obtain ⟨hp, hrest⟩ := List.pairwise_cons.mp hs
    rw [find?]
    rcases List.mem_cons.mp hm with rfl | hm
    · simp
    · rw [if_neg (Nat.ne_of_lt (hp _ hm))]
      exact ih hrest hm

namespace Memory

def lazyPages (m : Memory) (h : Handle) : Finset Nat :=
  ((((m.space? h).elim [] fun s => s.table.entries).filter fun p => p.2.isLazy).map Prod.fst).toFinset

theorem mem_lazyPages (hb : Settled n m) :
    base ∈ m.lazyPages h ↔ pageBase base = base ∧ ∃ e, m.mapping? h base = some e ∧ e.isLazy = true := by
  rw [lazyPages, List.mem_toFinset]
  cases hs : m.space? h with
  | none => simp [mapping?, hs]
  | some s =>
    have hsound := hb.tables h s hs
    simp only [Option.elim_some, List.mem_map, List.mem_filter, mapping?_of_space? hs, PageTable.lookup]
    constructor
    · rintro ⟨⟨key, e⟩, ⟨hm, hl⟩, rfl⟩
      have hkey : pageBase key = key := pageBase_of_mod (hsound.entries_keys _ hm).1
      exact ⟨hkey, e, hkey.symm ▸ Ascending.find?_of_mem hsound.entries_sorted hm, hl⟩
    · rintro ⟨hkey, e, he, hl⟩
      rw [hkey] at he
      exact ⟨(base, e), ⟨Ascending.mem_of_find? he, hl⟩, rfl⟩

theorem lazyPages_of_spaces (hs : m'.spaces = m.spaces) (h : Handle) : m'.lazyPages h = m.lazyPages h := by
  rw [lazyPages, lazyPages, space?, space?, hs]

theorem isLive_of_mapping (he : m.mapping? h va = some e) : m.isLive h = true := by
  obtain ⟨s, hs, -⟩ := Option.bind_eq_some_iff.mp he
  rw [isLive, hs]
  rfl

namespace Remapped

theorem view (hr : Remapped m m' h va new) (hb : Settled n m) (hb' : Settled n m')
    (hne : ¬(i = h ∧ pageBase w = va)) : m'.view i w = m.view i w := by
  have hmap := hr.mapping i w
  rw [if_neg hne] at hmap
  cases hw : m.mapping? i w with
  | none => rw [view_of_unmapped hw, view_of_unmapped (hmap.trans hw)]
  | some e =>
    have hw' := hmap.trans hw
    exact view_of_frame hw hw' (hr.steady.page (hb.used_of_mapping? hw) (hb'.used_of_mapping? hw'))

/-- A page that is mapped to a frame in use shows what that frame showed at another page. -/
theorem view_new (hr : Remapped m m' h va (some { frame, flags })) (hb : Settled n m) (hb' : Settled n m')
    (he : m.mapping? i v = some e) (hf : e.frame = frame) (hw : pageBase w = va) (hmod : w % pageSize = v % pageSize) :
    m'.view h w = m.view i v := by
  have hmap := hr.mapping h w
  rw [if_pos ⟨rfl, hw⟩] at hmap
  subst hf
  have hu : m'.frames.used e.frame = true := Settled.used_of_mapping? hb' (e := ⟨e.frame, flags⟩) hmap
  have hoffset : pageOffset w = pageOffset v := Fin.ext hmod
  rw [view_of_mapping he, view_of_mapping hmap, hoffset, hr.steady.page (hb.used_of_mapping? he) hu]

end Remapped

end Memory

open Memory

namespace Proper

variable (hp : Proper n t m)
include hp

theorem allocPage_done (hl : m.isLive h = true) (hv : PageTable.validate va flags = .ok ())
    (hs : Stocked (count + m.toll h va + 1) m) :
    ∃ m', allocPage h va flags m = .done () m' ∧ Proper n t m' ∧ (Stocked count m' ∧ Charted m m' ∧ m'.toll h va = 0) ∧
      ∃ frame, m.frames.used frame = false ∧ Remapped m m' h va (some { frame, flags }) := by
  have hx := ((allocPage_effect h va flags hp.intact.memory hp.clear).and (stocked_allocPage hl hv hs)).and
    (balanced_allocPage hp.intact.memory)
  obtain ⟨_, m', hd, ⟨⟨hr, hs'⟩, -⟩⟩ := (hx.mono (fun _ _ h => h) (fun _ _ h => h.1.2.elim)
    fun _ h => hp.intact.not_crowded h.2).done
  exact ⟨m', hd, hp.allocated hd, hs', hr⟩

theorem insert_done (hl : m.isLive h = true) (hu : m.frames.used frame = true)
    (hv : PageTable.validate va flags = .ok ()) (hs : Stocked (count + m.toll h va) m) :
    ∃ m', insert h frame va flags m = .done () m' ∧ Proper n t m' ∧ (Stocked count m' ∧ Charted m m') ∧
      Remapped m m' h va (some { frame, flags }) := by
  have hx := ((insert_effect h frame va flags hp.intact.memory.pool hp.clear).and (stocked_insert hl hv hs)).and
    (balanced_insert hp.intact.memory hu)
  obtain ⟨_, m', hd, ⟨⟨hr, hs'⟩, -⟩⟩ := (hx.mono (fun _ _ h => h) (fun _ _ h => h.1.2.elim)
    fun _ h => hp.intact.not_crowded h.2).done
  exact ⟨m', hd, hp.inserted hu hd, ⟨hs'.1, hs'.2.1⟩, hr⟩

theorem remove_done (va : Nat) (hl : m.isLive h = true) (hs : Stocked count m) :
    ∃ r m', remove h va m = .done r m' ∧ Proper n t m' ∧ (Stocked count m' ∧ Charted m m') ∧
      Remapped m m' h (pageBase va) none := by
  have hrefused : (remove h va m).Meets (fun _ _ => True) (fun _ _ => False) fun _ => True := by
    obtain ⟨s, hsp⟩ := Option.isSome_iff_exists.mp hl
    rw [remove]
    simp only [Action.state_bind, space, hsp, Action.lift_ok_bind]
    exact trivial
  have hx := ((remove_effect h va hp.intact.memory hp.clear).and (stocked_remove hs)).and hrefused
  obtain ⟨r, m', hd, ⟨⟨hr, hs'⟩, -⟩⟩ := (hx.mono (fun _ _ h => h) (fun _ _ h => h.2) fun _ h => h.1.1).done
  exact ⟨r, m', hd, hp.removed hd, hs', hr⟩

end Proper

theorem toNat_userPage (h : base < utop) : (UInt64.ofNat base).toNat = base := by
  rw [UInt64.toNat_ofNat']
  simp only [utop] at h
  omega

theorem validate_dataPage (hb : pageBase base = base) (hlt : base < utop) :
    PageTable.validate base Program.dataPage = .ok () := by
  have ha : aligned base = true := by
    rw [aligned, ← hb, pageBase_mod]
    rfl
  rw [PageTable.validate, ha]
  simp only [Bool.not_true, Bool.false_eq_true, if_false, if_neg (Nat.not_le.mpr hlt)]
  rfl

theorem dataPage_open (write : Bool) : Program.dataPage.contains (accessNeeds write) = true := by
  cases write <;> decide

theorem scratchPage_spec : pageBase scratchPage = scratchPage ∧ scratchPage < utop := by decide

theorem Memory.Wrote.stocked {watched : Handle → Nat → Prop} {data : Bytes} (hw : Wrote watched m m' h va data)
    (hs : Stocked count m) : Stocked count m' := by
  refine hs.kept hw.denying ?_ (Nat.le_of_eq (congrArg List.length hw.stored.alike.free).symm)
  rw [hw.stored.pool]

structure Filled (m m' : Memory) (h : Handle) (base : Nat) (frame : FrameId) : Prop where
  fresh : m.frames.used frame = false
  mapping : ∀ i w, m'.mapping? i w =
    if i = h ∧ pageBase w = scratchPage then some { frame, flags := Program.dataPage } else m.mapping? i w
  copied : ∀ w, pageBase w = scratchPage → m'.view h w = m.view h (base + w % pageSize)
  kept : ∀ i w, ¬(i = h ∧ pageBase w = scratchPage) → m'.view i w = m.view i w

theorem Memory.Remapped.alone_of_fresh (hr : Remapped m m' h va (some { frame, flags })) (hb : Settled n m)
    (hfree : m.frames.used frame = false) (hw : pageBase w = va) : Alone (fun _ _ => True) m' h w := by
  intro e he i v e' _ he' hf
  rw [hr.mapping, if_pos ⟨rfl, hw⟩] at he
  cases he
  by_contra hne
  have hv : ¬(i = h ∧ pageBase v = va) := fun h' => hne ⟨h'.1, h'.2.trans hw.symm⟩
  rw [hr.mapping, if_neg hv] at he'
  have hu := hb.used_of_mapping? he'
  rw [hf, hfree] at hu
  cases hu

/-- The scratch page got a frame that was free, and then the bytes of the page `base` were stored there. -/
theorem filled_of_wrote {m₁ m₂ : Memory} (hb : Settled n m) (hb₁ : Settled n m₁) (hfree : m.frames.used frame = false)
    (hr : Remapped m m₁ h scratchPage (some ⟨frame, Program.dataPage⟩)) (hbase : pageBase base = base)
    (hne : base ≠ scratchPage)
    (hw : Wrote (fun _ _ => True) m₁ m₂ h scratchPage ((m₁.view h).read base pageSize)) : Filled m m₂ h base frame := by
  obtain ⟨hscratch, -⟩ := scratchPage_spec
  refine ⟨hfree, fun i w => (hw.mapping? i w).trans (hr.mapping i w), fun w hw' => ?_, fun i w hiw => ?_⟩
  · have hmod := Nat.mod_lt w (show 0 < pageSize by decide)
    have hsplit : scratchPage + w % pageSize = w := by rw [← hw', pageBase_add_mod]
    have hlow : scratchPage ≤ w := by omega
    have hsub : w - scratchPage = w % pageSize := by omega
    have hpage := pageBase_offset hbase hmod
    rw [hw.shown h w trivial, if_pos rfl, Flat.write, if_pos hlow, hsub, Flat.read, List.getElem?_map,
      List.getElem?_range hmod, Option.map_some, Option.getD_some]
    exact hr.view hb hb₁ fun h' => hne (hpage.symm.trans h'.2)
  · rw [hw.shown i w trivial, ← hr.view hb hb₁ hiw]
    split
    · next hi =>
      subst hi
      refine Flat.write_of_lt _ _ ?_
      by_contra hin
      rw [Flat.length_read] at hin
      refine hiw ⟨rfl, ?_⟩
      rw [← Nat.add_sub_cancel' (show scratchPage ≤ w by omega)]
      exact pageBase_offset hscratch (by omega)
    · rfl

theorem Proper.fills (hp : Proper n t m) (hbase : pageBase base = base) (hne : base ≠ scratchPage)
    (ho : m.Open h base false) (hs : Stocked (count + 1 + m.toll h scratchPage) m) :
    ∃ m₁ page m₂ frame, allocPage h scratchPage Program.dataPage m = .done () m₁ ∧
      readUser h base pageSize m₁ = .done page m₁ ∧ writeUser h scratchPage page m₁ = .done () m₂ ∧
      Proper n t m₂ ∧ (Stocked count m₂ ∧ Charted m m₂ ∧ m₂.toll h scratchPage = 0) ∧ Filled m m₂ h base frame := by
  obtain ⟨hscratch, hlt⟩ := scratchPage_spec
  obtain ⟨e, he, hopen⟩ := ho
  rw [Nat.add_right_comm] at hs
  obtain ⟨m₁, hd₁, hp₁, ⟨hs₁, hc₁, ht₁⟩, frame, hfree, hr⟩ :=
    hp.allocPage_done (isLive_of_mapping he) (validate_dataPage hscratch hlt) hs
  have hnew : ∀ w, pageBase w = scratchPage → m₁.mapping? h w = some ⟨frame, Program.dataPage⟩ := fun w hw => by
    rw [hr.mapping, if_pos ⟨rfl, hw⟩]
  have hread := readUser_view (h := h) base pageSize hp₁.intact.memory fun k hk => by
    have hk' := pageBase_offset hbase hk
    refine ⟨e, ?_, hopen⟩
    rw [hr.mapping, if_neg fun h' => hne (hk'.symm.trans h'.2), mapping?_congr (hk'.trans hbase.symm), he]
  have hlen : ((m₁.view h).read base pageSize).length = pageSize := Flat.length_read ..
  -- The store finds the scratch page open, and its frame mapped there alone.
  have hopenNew : ∀ k, k < ((m₁.view h).read base pageSize).length → m₁.Open h (scratchPage + k) true := fun k hk =>
    ⟨_, hnew _ (pageBase_offset hscratch (hlen ▸ hk)), dataPage_open true⟩
  have hstore := writeUser_view (h := h) scratchPage ((m₁.view h).read base pageSize) hp₁.intact.memory hp₁.clear
    (fun k hk => (hopenNew k hk).read)
    fun k hk _ => hr.alone_of_fresh hp.intact.memory hfree (pageBase_offset hscratch (hlen ▸ hk))
  obtain ⟨_, m₂, hd₂, hw, -⟩ := (hstore.mono (fun _ _ h => h) (fun f _ h => (by
    obtain ⟨k, hk, -, hclosed, -⟩ := h
    exact hclosed (hopenNew k hk) : False)) fun _ h => h).done
  have hfilled := filled_of_wrote hp.intact.memory hp₁.intact.memory hfree hr hbase hne hw
  exact ⟨m₁, _, m₂, frame, hd₁, hread, hd₂, hp₁.stored hw.stored, ⟨hw.stocked hs₁,
    hc₁.trans (charted_of_spaces hw.stored.spaces), (toll_of_spaces hw.stored.spaces h scratchPage).trans ht₁⟩, hfilled⟩

structure Mended (m m' : Memory) (h : Handle) (base : Nat) : Prop where
  mapping : ∃ frame, m.frames.used frame = false ∧ ∀ i w, m'.mapping? i w =
    if i = h ∧ pageBase w = base then some { frame, flags := Program.dataPage } else m.mapping? i w
  view : ∀ i w, m'.view i w = m.view i w

theorem Proper.swaps {m₂ : Memory} (hp : Proper n t m₂) (hf : Filled m m₂ h base frame) (hbase : pageBase base = base)
    (hne : base ≠ scratchPage) (ho : m.Open h base false) (hb : Settled n m)
    (hscratch : m.mapping? h scratchPage = none) (hs : Stocked count m₂) :
    ∃ m₃ r m₄, m₂.mapping? h scratchPage = some ⟨frame, Program.dataPage⟩ ∧
      insert h frame base Program.dataPage m₂ = .done () m₃ ∧ remove h scratchPage m₃ = .done r m₄ ∧
      Proper n t m₄ ∧ (Stocked count m₄ ∧ Charted m₂ m₄) ∧ Mended m m₄ h base := by
  obtain ⟨hscratchBase, -⟩ := scratchPage_spec
  obtain ⟨e, he, hopen⟩ := ho
  have hlt := Open.lt_utop hb ⟨e, he, hopen⟩
  have hnew : m₂.mapping? h scratchPage = some ⟨frame, Program.dataPage⟩ := by
    rw [hf.mapping, if_pos ⟨rfl, hscratchBase⟩]
  have hold : m₂.mapping? h base = some e := by
    rw [hf.mapping, if_neg fun h' => hne (hbase.symm.trans h'.2), he]
  have hu : m₂.frames.used frame = true := Settled.used_of_mapping? hp.intact.memory hnew
  have hs' : Stocked (count + m₂.toll h base) m₂ := by
    rw [hp.intact.memory.toll_mapped hold]
    exact hs
  obtain ⟨m₃, hd₃, hp₃, ⟨hs₃, hc₃⟩, hr₃⟩ :=
    hp.insert_done (isLive_of_mapping hold) hu (validate_dataPage hbase hlt) hs'
  have hmap₃ : m₃.mapping? h base = some ⟨frame, Program.dataPage⟩ := by rw [hr₃.mapping, if_pos ⟨rfl, hbase⟩]
  obtain ⟨r, m₄, hd₄, hp₄, ⟨hs₄, hc₄⟩, hr₄⟩ :=
    hp₃.remove_done scratchPage (isLive_of_mapping hmap₃) hs₃
  rw [hscratchBase] at hr₄
  refine ⟨m₃, r, m₄, hnew, hd₃, hd₄, hp₄, ⟨hs₄, hc₃.trans hc₄⟩, ⟨frame, hf.fresh, fun i w => ?_⟩, fun i w => ?_⟩
  · rw [hr₄.mapping, hr₃.mapping, hf.mapping]
    by_cases hw : i = h ∧ pageBase w = scratchPage
    · obtain ⟨rfl, hw⟩ := hw
      have hnot : ¬(i = i ∧ pageBase w = base) := fun h' => hne (h'.2.symm.trans hw)
      rw [if_pos ⟨rfl, hw⟩, if_neg hnot, mapping?_congr (hw.trans hscratchBase.symm), hscratch]
    · rw [if_neg hw, if_neg hw]
  · by_cases hw : i = h ∧ pageBase w = scratchPage
    · -- Nothing is mapped there, before or after.
      obtain ⟨rfl, hw⟩ := hw
      rw [view_of_unmapped (by rw [hr₄.mapping, if_pos ⟨rfl, hw⟩]),
        view_of_unmapped (by rw [mapping?_congr (hw.trans hscratchBase.symm), hscratch])]
    · rw [hr₄.view hp₃.intact.memory hp₄.intact.memory hw]
      by_cases hw' : i = h ∧ pageBase w = base
      · obtain ⟨rfl, hw'⟩ := hw'
        have hmod := Nat.mod_lt w (show 0 < pageSize by decide)
        have hpage := pageBase_offset hscratchBase hmod
        have hoffset := offset_mod hscratchBase hmod
        have hcopy : m₃.view i w = m₂.view i (scratchPage + w % pageSize) :=
          hr₃.view_new hp.intact.memory hp₃.intact.memory
            ((mapping?_congr (hpage.trans hscratchBase.symm)).trans hnew) rfl hw' hoffset.symm
        rw [hcopy, hf.copied _ hpage, hoffset, ← hw', pageBase_add_mod]
      · rw [hr₃.view hp.intact.memory hp₃.intact.memory hw', hf.kept i w hw]

namespace Mended

variable (hm : Mended m m' h base)
include hm

theorem opened {write : Bool} (ho : m.Open i w write) : m'.Open i w write := by
  obtain ⟨frame, -, hmap⟩ := hm.mapping
  rw [Open, hmap]
  split
  · exact ⟨_, rfl, dataPage_open write⟩
  · exact ho

/-- A page that may be stored to is as alone as it was; the new one is, since its frame was not in use. -/
theorem alone {watched : Handle → Nat → Prop} (hb : Settled n m) (ha : m.Open i w true → Alone watched m i w)
    (ho : m'.Open i w true) : Alone watched m' i w := by
  obtain ⟨frame, hfree, hmap⟩ := hm.mapping
  have hnew : ∀ j v e, (j = h ∧ pageBase v = base) → m'.mapping? j v = some e → e.frame = frame := by
    intro j v e hv he
    rw [hmap, if_pos hv] at he
    rw [← Option.some.inj he]
  have hold : ∀ j v e, ¬(j = h ∧ pageBase v = base) → m'.mapping? j v = some e → e.frame ≠ frame := by
    rintro j v e hv he rfl
    rw [hmap, if_neg hv] at he
    rw [hb.used_of_mapping? he] at hfree
    cases hfree
  intro e he j v e' hv he' hf
  by_cases h₁ : i = h ∧ pageBase w = base
  · by_cases h₂ : j = h ∧ pageBase v = base
    · exact ⟨h₂.1.trans h₁.1.symm, h₂.2.trans h₁.2.symm⟩
    · exact absurd (hf.trans (hnew i w e h₁ he)) (hold j v e' h₂ he')
  · by_cases h₂ : j = h ∧ pageBase v = base
    · exact absurd (hf.symm.trans (hnew j v e' h₂ he')) (hold i w e h₁ he)
    · rw [Open, hmap, if_neg h₁] at ho
      rw [hmap, if_neg h₁] at he
      rw [hmap, if_neg h₂] at he'
      exact ha ho e he j v e' hv he' hf

/-- The space has one page less that waits for its copy, and the others wait for as many as they did. -/
theorem lazyPages (hb : Settled n m) (hb' : Settled n m') (i : Handle) :
    m'.lazyPages i = if i = h then (m.lazyPages h).erase base else m.lazyPages i := by
  obtain ⟨frame, -, hmap⟩ := hm.mapping
  have hnot : (⟨frame, Program.dataPage⟩ : Mapping).isLazy = false := by
    have hw : Program.dataPage.contains PageFlags.writable = true := by decide
    rw [Mapping.isLazy, hw]
    simp
  ext q
  rw [mem_lazyPages hb', hmap]
  by_cases hi : i = h
  · subst hi
    rw [if_pos rfl, Finset.mem_erase, mem_lazyPages hb]
    by_cases hq : pageBase q = base
    · rw [if_pos ⟨rfl, hq⟩]
      constructor
      · rintro ⟨-, e, he, hl⟩
        cases he
        rw [hnot] at hl
        cases hl
      · rintro ⟨hne, hq', -⟩
        exact absurd (hq'.symm.trans hq) hne
    · rw [if_neg fun h' => hq h'.2]
      constructor
      · rintro ⟨hq', hl⟩
        exact ⟨fun h' => hq (hq'.trans h'), hq', hl⟩
      · exact fun h' => h'.2
  · rw [if_neg hi, if_neg fun h' => hi h'.1, mem_lazyPages hb]

end Mended

end Exokernel
