import Exokernel.Proofs.Memory.Fresh
import Exokernel.Proofs.User.ShareFork

/-!
# What a repaired page costs and what it leaves

The handler of a program either sees at once that a fault is none of its business, or it exchanges the page of the fault
for a copy. Whoever else has the old frame keeps it, with its bytes and one reference less; the copy has a frame of its
own, and the access that faulted can be made.
-/

set_option autoImplicit false

namespace Exokernel

namespace Memory

variable {n : Nat} {m m₁ m₂ m₃ m' : Memory} {h : Handle} {base va : Nat} {x y : Mapping} {f frame : FrameId}
  {taken : Option FrameId} {r : Option Mapping}

/-- A whole page of bytes that was stored: they are what the frame of the page holds, and no other frame changed. -/
theorem stored_page {data : Bytes} (hb : Settled n m) (hy : m.mapping? h va = some y) (hva : pageBase va = va)
    (hlt : va < addressLimit) (hlen : data.length = pageSize) (hd : writeUser h va data m = .done () m') :
    Repainted m m' ∧ (∀ o : Fin pageSize, data[o.val]? = some (m'.byteAt y.frame o)) ∧
      ∀ f, f ≠ y.frame → ∀ o, m'.byteAt f o = m.byteAt f o := by
  have htarget : ∀ i, i < pageSize → m.target h (va + i) = some (y.frame, pageOffset (va + i)) := fun i hi =>
    target_of_mapping ((mapping?_congr ((pageBase_offset hva hi).trans hva.symm)).trans hy)
  have hapart : Apart m h va data.length := fun i j _ _ hi hj _ _ _ => by
    rw [pageBase_offset hva (hlen ▸ hi), pageBase_offset hva (hlen ▸ hj)]
  obtain ⟨size, hle, -, ⟨hdone, rfl⟩ | ⟨_, hrefused, -⟩⟩ := writeUser_ends data hb hlt
  · rw [hd, List.take_length] at hdone
    obtain ⟨-, rfl⟩ := Outcome.done.inj hdone
    refine ⟨repainted_pokes .., fun o => ?_, fun f hf o => ?_⟩
    · have hto := htarget o.val o.isLt
      rw [show pageOffset (va + o.val) = o from Fin.ext (offset_mod hva o.isLt)] at hto
      exact (holds_pokes hb y.frame o).apart hapart (Nat.lt_of_lt_of_eq o.isLt hlen.symm) hto
    · have hholds : Holds m h va data data.length f o ((m.pokes h va data).byteAt f o) := holds_pokes hb f o
      rcases hholds with ⟨i, hi, ht, -⟩ | ⟨-, hsame⟩
      · rw [htarget i (hlen ▸ hi)] at ht
        exact absurd (congrArg Prod.fst (Option.some.inj ht)).symm hf
      · exact hsame
  · rw [hd] at hrefused
    cases hrefused

theorem page_of_bytes {g : FrameId} (hbytes : ∀ o, m'.byteAt f o = m.byteAt g o) :
    m'.frames.page f = m.frames.page g :=
  Vector.ext fun i hi => hbytes ⟨i, hi⟩

/-- The bytes of a page stored to another one: the frame there is a copy of the frame here. -/
theorem copied_page (hb : Settled n m) (hx : m.mapping? h base = some x) (hy : m.mapping? h va = some y)
    (hbase : pageBase base = base) (hva : pageBase va = va) (hlt : va < addressLimit)
    (hd : writeUser h va ((m.view h).read base pageSize) m = .done () m') : Repainted m m' ∧
      m'.frames.page y.frame = m.frames.page x.frame ∧ ∀ f, f ≠ y.frame → m'.frames.page f = m.frames.page f := by
  obtain ⟨hr, hnew, hothers⟩ := stored_page hb hy hva hlt (Flat.length_read ..) hd
  refine ⟨hr, page_of_bytes fun o => ?_, fun f hf => page_of_bytes (hothers f hf)⟩
  have hpage := pageBase_offset hbase o.isLt
  have ho : pageOffset (base + o.val) = o := Fin.ext (offset_mod hbase o.isLt)
  have hview : m.view h (base + o.val) = m.byteAt x.frame o := by
    rw [view_of_mapping ((mapping?_congr (hpage.trans hbase.symm)).trans hx), ho]
    rfl
  have hbyte := hnew o
  rw [Flat.read, List.getElem?_map, List.getElem?_range o.isLt, Option.map_some, hview] at hbyte
  exact (Option.some.inj hbyte).symm

theorem Settled.covered_mapped (hb : Settled n m) (hx : m.mapping? h va = some x) : m.covered h va = true := by
  by_contra hc
  have htoll := hb.toll_mapped hx
  rw [toll, if_neg hc] at htoll
  cases htoll

/-- The page `base` of the space `h`, which was mapped as `x` tells, has a copy in `frame` instead, and no other page
has changed. `taken` went for the page-table page of the span where the copy was made, if it had none. -/
structure Renewed (m m' : Memory) (h : Handle) (base : Nat) (x : Mapping) (frame : FrameId)
    (taken : Option FrameId) : Prop extends Takes m frame taken where
  mapping : ∀ i w, m'.mapping? i w =
    if i = h ∧ pageBase w = base then some { frame, flags := Program.dataPage } else m.mapping? i w
  exclusive : Exclusive m' h base frame
  copied : m'.frames.page frame = m.frames.page x.frame
  kept : ∀ f, m.frames.used f = true → m'.frames.used f = true → m'.frames.page f = m.frames.page f
  charged : taken = none ↔ m.covered h scratchPage = true
  refs : ∀ f, m'.refs f + [x.frame].count f = m.refs f + [frame].count f + taken.toList.count f

structure Moved (m m' : Memory) (h : Handle) (va base : Nat) (x y : Mapping) (perm : PageFlags) : Prop where
  mapping : ∀ i w, m'.mapping? i w = if i = h ∧ pageBase w = va then none
    else if i = h ∧ pageBase w = base then some { y with flags := perm } else m.mapping? i w
  refs : ∀ f, m'.refs f + [x.frame].count f = m.refs f
  kept : ∀ f, m.frames.used f = true → m'.frames.used f = true → m'.frames.page f = m.frames.page f

theorem moved_page {perm : PageFlags} (hb : Settled n m) (hc : m.frames.Clear) (hx : m.mapping? h base = some x)
    (hy : m.mapping? h va = some y) (hva : pageBase va = va) (hne : base ≠ va)
    (hinsert : insert h y.frame base perm m = .done () m₁) (hremove : remove h va m₁ = .done r m') :
    Settled n m' ∧ Moved m m' h va base x y perm := by
  obtain ⟨taken, hex⟩ := insert_exchanges hb hc hinsert
  -- The span of the page has its page-table page.
  obtain rfl : taken = none := hex.charged.mpr (Settled.covered_mapped hb hx)
  have hmap₁ := (insert_effect h y.frame base perm hb.pool hc).of_done hinsert
  have hb₁ : Settled n m₁ := ((balanced_insert_any hb).of_done hinsert).1
  have hy₁ : m₁.mapping? h va = some y := by
    rw [hmap₁.mapping, if_neg fun h' => hne (h'.2.symm.trans hva), hy]
  have hmap' := (remove_effect h va hb₁ hmap₁.clear).of_done hremove
  have hb' : Settled n m' := ((balanced_remove hb₁).of_done hremove).1
  refine ⟨hb', fun i w => ?_, fun f => ?_, fun f hu hu' => ?_⟩
  · rw [hmap'.mapping, hmap₁.mapping, hva]
  · have hfirst := hex.refs f
    have hlast := remove_refs hb₁ hremove f
    rw [hx, Option.toList_some, List.map_singleton, Option.toList_none, List.count_nil] at hfirst
    rw [hy₁, Option.toList_some, List.map_singleton] at hlast
    omega
  · have hu₁ : m₁.frames.used f = true := by
      have hpos := (hb'.used_iff_refs f).mp hu'
      have hlast := remove_refs hb₁ hremove f
      exact (hb₁.used_iff_refs f).mpr (by omega)
    exact (hmap'.steady.page hu₁ hu').trans (hmap₁.steady.page hu hu₁)

/-- A page that is copied at the scratch page, mapped from there and unmapped there. -/
theorem renews (hb : Settled n m) (hc : m.frames.Clear) (hx : m.mapping? h base = some x)
    (hbase : pageBase base = base) (hscratch : m.mapping? h scratchPage = none)
    (halloc : allocPage h scratchPage Program.dataPage m = .done () m₁)
    (hwrite : writeUser h scratchPage ((m₁.view h).read base pageSize) m₁ = .done () m₂)
    (hy : m₂.mapping? h scratchPage = some y) (hinsert : insert h y.frame base Program.dataPage m₂ = .done () m₃)
    (hremove : remove h scratchPage m₃ = .done r m') : ∃ frame taken, Renewed m m' h base x frame taken := by
  obtain ⟨hscratchBase, -⟩ := scratchPage_spec
  have hne : base ≠ scratchPage := by
    rintro rfl
    rw [hscratch] at hx
    cases hx
  -- The scratch page gets a new frame.
  obtain ⟨frame, taken, hf⟩ := allocPage_furnishes hb hc halloc
  have hb₁ := ((balanced_allocPage hb).of_done halloc).1
  have hx₁ : m₁.mapping? h base = some x := by rw [hf.mapping, if_neg fun h' => hne (hbase.symm.trans h'.2), hx]
  have hy₁ : m₁.mapping? h scratchPage = some ⟨frame, Program.dataPage⟩ := by
    rw [hf.mapping, if_pos ⟨rfl, hscratchBase⟩]
  have hrefs₁ : ∀ f, m₁.refs f = m.refs f + [frame].count f + taken.toList.count f := fun f => by
    have hrefs := hf.refs f
    rwa [hscratch] at hrefs
  have hused₁ : ∀ f, m.frames.used f = true → m₁.frames.used f = true := fun f hu =>
    hf.used_kept hb hb₁ hscratch hu
  -- It takes the bytes of the page.
  obtain ⟨hr, hcopy, hothers⟩ := copied_page hb₁ hx₁ hy₁ hbase hscratchBase (by decide) hwrite
  have hc₂ := ((writeUser_effect h scratchPage _ hb₁ hf.clear).of_done hwrite).clear
  have hx₂ : m₂.mapping? h base = some x := (mapping?_of_spaces hr.spaces ..).trans hx₁
  obtain rfl := Option.some.inj (((mapping?_of_spaces hr.spaces ..).trans hy₁).symm.trans hy)
  -- The frame is mapped in place of the old one, and then at no other page.
  obtain ⟨hb', hmoved⟩ := moved_page (hr.settled hb₁) hc₂ hx₂ hy hscratchBase hne hinsert hremove
  have hrefs : ∀ f, m'.refs f + [x.frame].count f = m.refs f + [frame].count f + taken.toList.count f := fun f =>
    ((hmoved.refs f).trans (hr.counts.refs f)).trans (hrefs₁ f)
  have hmapping : ∀ i w, m'.mapping? i w =
      if i = h ∧ pageBase w = base then some ⟨frame, Program.dataPage⟩ else m.mapping? i w := fun i w => by
    rw [hmoved.mapping, mapping?_of_spaces hr.spaces, hf.mapping]
    by_cases hw : i = h ∧ pageBase w = scratchPage
    · obtain ⟨rfl, hw⟩ := hw
      have hnot : ¬(i = i ∧ pageBase w = base) := fun h' => hne (h'.2.symm.trans hw)
      rw [if_pos ⟨rfl, hw⟩, if_neg hnot, mapping?_congr (hw.trans hscratchBase.symm), hscratch]
    · rw [if_neg hw, if_neg hw]
  have hnew : m'.mapping? h base = some ⟨frame, Program.dataPage⟩ := by rw [hmapping, if_pos ⟨rfl, hbase⟩]
  have hxu := Settled.used_of_mapping? hb hx
  have hone : m'.refs frame = 1 := by
    have hsum := hrefs frame
    rwa [List.count_eq_zero.mpr fun hmem => hf.ne_frame hxu (List.mem_singleton.mp hmem).symm, Nat.add_zero,
      hf.refs_frame hb] at hsum
  have hused₂ : ∀ f, m.frames.used f = true → m₂.frames.used f = true := fun f hu =>
    (hr.counts.used f).trans (hused₁ f hu)
  refine ⟨frame, taken, hf.toTakes, hmapping, exclusive_of_refs hb' hnew hone, ?_, fun f hu hu' => ?_, hf.charged,
    hrefs⟩
  · rw [hmoved.kept frame (Settled.used_of_mapping? (hr.settled hb₁) hy) (Settled.used_of_mapping? hb' hnew), hcopy,
      hf.steady.page hxu (hused₁ _ hxu)]
  · rw [hmoved.kept f (hused₂ f hu) hu', hothers f (hf.ne_frame hu), hf.steady.page hu (hused₁ f hu)]

theorem Renewed.refs_used (hr : Renewed m m' h base x frame taken) (hu : m.frames.used f = true) :
    m'.refs f + [x.frame].count f = m.refs f := by
  rw [hr.refs, Nat.add_assoc, hr.count_used hu, Nat.add_zero]

end Memory

namespace Simulation.Machine

open Memory Env.Table

variable {n base : Nat} {cpu : Cpu} {id : Env.Id} {h : Handle} {m m' : Machine} {e : Env} {x : Mapping}
  {r : FaultRecord}

theorem yields_loadPage {page : Word} (hb : Settled n m.kernel.memory) (hk : m.kernel.spaceOf id = .ok h)
    (hx : m.kernel.memory.mapping? h page.toNat = some x) (hopen : x.flags.contains (accessNeeds false) = true)
    (hbase : pageBase page.toNat = page.toNat) : Yields cpu id (Program.read page pageSize) m fun bytes m' =>
      m' = m ∧ bytes = (m.kernel.memory.view h).read page.toNat pageSize := by
  have hread := readUser_view page.toNat pageSize hb fun k hk => by
    have hpage := (pageBase_offset hbase hk).trans hbase.symm
    exact ⟨x, (mapping?_congr hpage).trans hx, hopen⟩
  exact (costs_load hk hread).yields ⟨rfl, rfl⟩

/-- Bytes that user mode may store to. -/
theorem yields_store {va : Word} {data : Bytes} (hp : Proper n m.kernel.envs m.kernel.memory)
    (hk : m.kernel.spaceOf id = .ok h)
    (hopen : ∀ i, i < data.length → m.kernel.memory.Open h (va.toNat + i) true) :
    Yields cpu id (Program.write va data) m fun _ m' => Edited n m m' ∧
      writeUser h va.toNat data m.kernel.memory = .done () m'.kernel.memory := by
  have hwrite := writeUser_open data hp.intact.memory (UInt64.toNat_lt _) hopen
  obtain ⟨m', hcost, hbeside, hmem, -⟩ := costs_store cpu hk hwrite
  have hstored := (writeUser_effect h va.toNat data hp.intact.memory hp.clear).of_done hwrite
  refine hcost.yields ⟨⟨?_, hbeside.envs, hbeside.handlers⟩, hmem.symm ▸ hwrite⟩
  rw [hmem]
  exact (hp.touched hbeside.touched).stored hstored

section exchange

variable (hp : Proper n m.kernel.envs m.kernel.memory) (hf : m.kernel.envs.find? id = some e) (hs : e.space = some h)
  (hopen : x.flags.contains (accessNeeds false) = true) (hfree : m.kernel.memory.mapping? h scratchPage = none)
include hp hf hs hopen hfree

/-- The steps that exchange the page `base` for a copy. -/
theorem yields_exchange {scratch page : Word} (hscratch : scratch.toNat = scratchPage) (hpage : page.toNat = base)
    (hbase : pageBase base = base) (hx : m.kernel.memory.mapping? h base = some x) :
    Yields cpu id (do
      Program.step (.allocPage .self scratch Program.dataPage)
      let bytes ← Program.read page pageSize
      Program.write scratch bytes
      Program.step (.mapPage .self scratch .self page Program.dataPage)
      Program.step (.unmapPage .self scratch) : Program.Part ForkError Unit).run m (either
        (fun _ m' => Edited n m m' ∧ ∃ frame taken,
          Renewed m.kernel.memory m'.kernel.memory h base x frame taken)
        fun _ _ => True) := by
  obtain ⟨hscratchBase, -⟩ := scratchPage_spec
  have hst : m.Stands m.kernel.envs.records m.handlers := ⟨rfl, rfl⟩
  have hself : Reaches m.kernel.envs.records id .self h := ⟨bare e, records_of_find? hf, hs⟩
  have hne : base ≠ scratchPage := by
    rintro rfl
    rw [hfree] at hx
    cases hx
  -- The scratch page is allocated.
  refine Yields.bind_part (yields_step (yields_alloc hp hst hself)) fun _ m₁ h₁ => ?_
  obtain ⟨hedit₁, halloc⟩ := h₁
  rw [hscratch] at halloc
  obtain ⟨frame, -, hr⟩ := (allocPage_effect _ _ _ hp.intact.memory hp.clear).of_done halloc
  have hst₁ := hedit₁.stands hst
  have hx₁ : m₁.kernel.memory.mapping? h page.toNat = some x := by
    rw [hpage, hr.mapping, if_neg fun h' => hne (hbase.symm.trans h'.2), hx]
  -- It takes the bytes of the page.
  have hpageBase : pageBase page.toNat = page.toNat := by rw [hpage, hbase]
  refine Yields.bind_part (Yields.lift (yields_loadPage hedit₁.proper.intact.memory (hst₁.spaceOf hself) hx₁ hopen
    hpageBase)) ?_
  rintro bytes m₂ ⟨rfl, hbytes⟩
  refine Yields.bind_part (Yields.lift (yields_store hedit₁.proper (hst₁.spaceOf hself) fun i hi => ?_))
    fun _ m₃ h₃ => ?_
  · rw [hbytes, Flat.length_read] at hi
    refine ⟨⟨frame, Program.dataPage⟩, ?_, dataPage_open true⟩
    rw [hscratch, hr.mapping, if_pos ⟨rfl, pageBase_offset hscratchBase hi⟩]
  obtain ⟨hedit₃, hwrite⟩ := h₃
  have hst₃ := hedit₃.stands hst₁
  -- Its frame is mapped in place of the page, and the scratch page is given up.
  refine Yields.bind_part (yields_step (yields_insert hedit₃.proper hst₃ hself hself)) fun _ m₄ h₄ => ?_
  obtain ⟨hedit₄, y, hy, hinsert⟩ := h₄
  refine (yields_step (yields_remove hedit₄.proper (hedit₄.stands hst₃) hself)).mono_ok fun _ m₅ h₅ => ?_
  obtain ⟨hedit₅, old, hremove⟩ := h₅
  rw [hscratch, hbytes, hpage] at hwrite
  rw [hscratch] at hy hremove
  rw [hpage] at hinsert
  exact ⟨((hedit₁.trans hedit₃).trans hedit₄).trans hedit₅,
    renews hp.intact.memory hp.clear hx hbase hfree halloc hwrite hy hinsert hremove⟩

/-- The handler that finds a copy-on-write page at the address of a write. -/
theorem yields_copyPage (hx : m.kernel.memory.mapping? h r.va.toNat = some x)
    (hcow : x.flags.contains PageFlags.cow = true)
    (hcode : (⟨r.err⟩ : FaultCode).contains (FaultCode.protection ||| FaultCode.write ||| FaultCode.user) = true) :
    Yields cpu id (Program.copyPage r).run m (either
      (fun _ m' => Edited n m m' ∧ ∃ frame taken,
        Renewed m.kernel.memory m'.kernel.memory h (pageBase r.va.toNat) x frame taken)
      fun _ _ => True) := by
  have hself := pageBase_pageBase r.va.toNat
  have hbase : m.kernel.memory.mapping? h (pageBase r.va.toNat) = some x := (mapping?_congr hself).trans hx
  have hlt := Open.lt_utop hp.intact.memory ⟨x, hbase, hopen⟩
  have hk := Kernel.spaceOf_of_find? hf hs
  refine Yields.bind_part (Yields.lift ((costs_spanAt r.va).yields (Q := fun present m' => m' = m ∧ present = true)
    ⟨rfl, Kernel.spanPresent_of_mapping hp.intact.memory hk hx⟩)) ?_
  rintro _ _ ⟨rfl, rfl⟩
  refine Yields.bind_part (Yields.lift ((costs_entryAt r.va).yields (Q := fun entry m' => m' = _ ∧
    entry = some x.flags) ⟨rfl, Kernel.pageEntry_of_mapping hk hx⟩)) ?_
  rintro _ _ ⟨rfl, rfl⟩
  simp only [hcode, hcow, Option.map_some, Option.getD_some, Bool.not_true, Bool.or_self, Bool.false_eq_true, if_false]
  exact yields_exchange hp hf hs hopen hfree (toNat_userPage scratchPage_spec.2) (toNat_userPage hlt) hself hbase

end exchange

/-- The handler has nothing to do with a fault that was no write of user mode to a page, or whose page does not wait for
a copy. -/
theorem costs_copyPage_refused (hk : m.kernel.spaceOf id = .ok h)
    (hno : (⟨r.err⟩ : FaultCode).contains (FaultCode.protection ||| FaultCode.write ||| FaultCode.user) = false ∨
      ∀ x, m.kernel.memory.mapping? h r.va.toNat = some x → x.flags.contains PageFlags.cow = false) :
    Costs cpu id (Program.copyPage r).run m 0 (.error (.notCopyOnWrite r.va r.err)) m := by
  -- Whatever the handler read of the page, the check fails.
  have hcheck : ∀ shared : Option PageFlags,
      (∀ f, shared = some f → ∃ x, m.kernel.memory.mapping? h r.va.toNat = some x ∧ x.flags = f) →
      (!(⟨r.err⟩ : FaultCode).contains (FaultCode.protection ||| FaultCode.write ||| FaultCode.user) ||
        !(shared.map fun e => e.contains PageFlags.cow).getD false) = true := by
    intro shared hshared
    rcases hno with hcode | hcow
    · rw [hcode]
      rfl
    · cases shared with
      | none => exact Bool.or_true _
      | some f =>
        obtain ⟨x, hx, rfl⟩ := hshared f rfl
        simp only [Option.map_some, Option.getD_some, hcow x hx, Bool.not_false, Bool.or_true]
  show Costs cpu id _ m (0 + (0 + 0)) _ m
  refine (costs_spanAt r.va).lift.bind_ok ?_
  cases m.kernel.spanPresent id r.va.toNat with
  | true =>
    have hpage := hcheck (m.kernel.pageEntry id r.va.toNat) fun f hf => by
      rw [Kernel.pageEntry_eq hk] at hf
      exact Option.map_eq_some_iff.mp hf
    refine (costs_entryAt r.va).lift.bind_ok ?_
    simp only [hpage, if_true]
    exact costs_done
  | false =>
    have hnone := hcheck none fun f hf => by cases hf
    refine costs_done.lift.bind_ok ?_
    simp only [hnone, if_true]
    exact costs_done

/-- An access within a page that user mode may store to is made without a trap. -/
theorem drive_within {a : Access} {y : Mapping} (hp : Proper n m.kernel.envs m.kernel.memory)
    (hk : m.kernel.spaceOf id = .ok h) (hy : ∀ w, pageBase w = base → m.kernel.memory.mapping? h w = some y)
    (hopen : y.flags.contains (accessNeeds true) = true) (ha : a.Within (· = base) (· = base)) :
    ∃ m', drive cpu id 0 (a.request.program 0) m = some (a.answer (m.kernel.memory.view h), m') := by
  have hstorable : ∀ w, pageBase w = base → m.kernel.memory.Open h w true := fun w hw => ⟨y, hy w hw, hopen⟩
  cases a with
  | read va count =>
    have hread := readUser_view va.toNat count hp.intact.memory fun k hk =>
      (hstorable _ (ha.read va count rfl k hk)).read
    exact ⟨m, drive_read (costs_load hk hread) 0⟩
  | write va data =>
    have hwrite := writeUser_open data hp.intact.memory (UInt64.toNat_lt va) fun k hk =>
      hstorable _ (ha.write va data rfl k hk)
    obtain ⟨m', hcost, -⟩ := costs_store cpu hk hwrite
    exact ⟨m', drive_write hcost 0⟩

/-- The handler refuses a fault that was no write of user mode to a present page, or whose page does not wait for a
copy: it makes no call then, and nothing changes. Otherwise, if the page may be loaded from and nothing is at the
scratch page, a handler that comes back without an error has exchanged the page for a copy in a frame of its own. The
old frame has lost one reference, and is freed if that was its last; every other mapping, and whatever other frames
hold, is as before, and an access within the page is made without another fault. -/
theorem copyPage_resolves {patience : Nat} (hr : m.kernel.Reachable) (hf : m.kernel.envs.find? id = some e)
    (hs : e.space = some h) (r : FaultRecord) :
    ((⟨r.err⟩ : FaultCode).contains (FaultCode.protection ||| FaultCode.write ||| FaultCode.user) = false ∨
        (∀ x, m.kernel.memory.mapping? h r.va.toNat = some x → x.flags.contains PageFlags.cow = false) →
      ∀ budget, drive cpu id budget ((Request.copyPage r).program patience) m =
        some (.handled (.error (.notCopyOnWrite r.va r.err)), m)) ∧
    ∀ x budget m',
      (⟨r.err⟩ : FaultCode).contains (FaultCode.protection ||| FaultCode.write ||| FaultCode.user) = true →
      m.kernel.memory.mapping? h r.va.toNat = some x → x.flags.contains PageFlags.cow = true →
      x.flags.contains (accessNeeds false) = true → m.kernel.memory.mapping? h scratchPage = none →
      drive cpu id budget ((Request.copyPage r).program patience) m = some (.handled (.ok ()), m') →
        m'.kernel.envs.records = m.kernel.envs.records ∧ m'.handlers = m.handlers ∧
        (∃ frame taken, Renewed m.kernel.memory m'.kernel.memory h (pageBase r.va.toNat) x frame taken) ∧
        m'.kernel.memory.mapping? h scratchPage = none ∧
        (∀ f, m.kernel.memory.frames.used f = true →
          m'.kernel.memory.refs f + [x.frame].count f = m.kernel.memory.refs f ∧
          (m'.kernel.memory.frames.used f = false ↔ m.kernel.memory.refs f = 1 ∧ x.frame = f)) ∧
        ∀ a : Access, a.Within (· = pageBase r.va.toNat) (· = pageBase r.va.toNat) →
          ∃ m'', drive cpu id 0 (a.request.program 0) m' = some (a.answer (m'.kernel.memory.view h), m'') := by
  obtain ⟨n, hp⟩ := hr.proper
  refine ⟨fun hno budget => ?_, fun x budget m' hcode hx hcow hopen hfree hd => ?_⟩
  · refine ((costs_copyPage_refused (Kernel.spaceOf_of_find? hf hs) hno).drive .handled budget).trans ?_
    rw [if_pos (Nat.zero_le _)]
  · obtain ⟨_, hok, hq⟩ := (yields_copyPage hp hf hs hopen hfree hx hcow hcode).of_drive hd
    cases hok
    obtain ⟨hedit, frame, taken, hrenewed⟩ := hq
    have hb := hp.intact.memory
    have hb' := hedit.proper.intact.memory
    have hne : ¬(h = h ∧ pageBase scratchPage = pageBase r.va.toNat) := fun h' => by
      rw [mapping?_congr h'.2, hx] at hfree
      cases hfree
    have hself : Reaches m.kernel.envs.records id .self h := ⟨bare e, records_of_find? hf, hs⟩
    refine ⟨hedit.records, hedit.handlers, ⟨frame, taken, hrenewed⟩, ?_, fun f hu => ⟨hrenewed.refs_used hu, ?_⟩,
      fun a ha => ?_⟩
    · rw [hrenewed.mapping, if_neg hne, hfree]
    · rw [freed_iff_of_refs (some x) hb hb' hu (hrenewed.refs_used hu)]
      simp only [Option.some.injEq, exists_eq_left']
    · exact drive_within hedit.proper ((hedit.stands ⟨rfl, rfl⟩).spaceOf hself)
        (fun w hw => (hrenewed.mapping h w).trans (if_pos ⟨rfl, hw⟩)) (dataPage_open true) ha

def lazyWrite : FaultRecord := { va := 0x300010, err := 7 }

/-- The page gets a frame of its own, and the old one, which nobody else has, is freed. A read is refused. -/
theorem copyPage_resolves_owner : (owner lazyPage).kernel.Reachable ∧
    drive ⟨0⟩ ⟨0x401⟩ 0 ((Request.copyPage { lazyWrite with err := 5 }).program 0) (owner lazyPage) =
      some (.handled (.error (.notCopyOnWrite 0x300010 5)), owner lazyPage) ∧
    ∃ m', drive ⟨0⟩ ⟨0x401⟩ 3 ((Request.copyPage lazyWrite).program 0) (owner lazyPage) =
        some (.handled (.ok ()), m') ∧
      (∃ frame taken,
        Renewed (owner lazyPage).kernel.memory m'.kernel.memory ⟨1⟩ 0x300000 ⟨⟨2⟩, lazyPage⟩ frame taken) ∧
      m'.kernel.memory.frames.used ⟨2⟩ = false := by
  have hreach : (owner lazyPage).kernel.Reachable := reachable_owner (by decide +kernel)
  have hfound : ((owner lazyPage).kernel.envs.find? ⟨0x401⟩).map Env.space = some (some ⟨1⟩) := by decide +kernel
  obtain ⟨e, hf, hs⟩ := Option.map_eq_some_iff.mp hfound
  have hpage : (owner lazyPage).kernel.memory.mapping? ⟨1⟩ lazyWrite.va.toNat = some ⟨⟨2⟩, lazyPage⟩ := by
    decide +kernel
  have hfree : (owner lazyPage).kernel.memory.mapping? ⟨1⟩ scratchPage = none := by decide +kernel
  have hone : (owner lazyPage).kernel.memory.refs ⟨2⟩ = 1 ∧
      (owner lazyPage).kernel.memory.frames.used ⟨2⟩ = true := by decide +kernel
  have hstocked : Stocked (0 + 1 + (owner lazyPage).kernel.memory.toll ⟨1⟩ scratchPage)
      (owner lazyPage).kernel.memory := ⟨by decide +kernel, by decide +kernel, by decide +kernel⟩
  have hcode : (⟨lazyWrite.err⟩ : FaultCode).contains
      (FaultCode.protection ||| FaultCode.write ||| FaultCode.user) = true := by decide
  obtain ⟨n, hp⟩ := hreach.proper
  obtain ⟨m', hcost, -⟩ := costs_copyPage ⟨0⟩ hp hstocked hf hs hfree hpage (by decide) (by decide) hcode
  have hd : drive ⟨0⟩ ⟨0x401⟩ 3 ((Request.copyPage lazyWrite).program 0) (owner lazyPage) =
      some (.handled (.ok ()), m') := (hcost.drive .handled 3).trans (if_pos (Nat.le_refl 3))
  obtain ⟨-, -, hrenewed, -, hcounts, -⟩ := (copyPage_resolves hreach hf hs lazyWrite).2 _ 3 m'
    hcode hpage (by decide) (by decide) hfree hd
  refine ⟨hreach, ?_, m', hd, hrenewed, ((hcounts ⟨2⟩ hone.2).2).mpr ⟨hone.1, rfl⟩⟩
  exact (copyPage_resolves hreach hf hs { lazyWrite with err := 5 }).1 (.inl (by decide)) 0

end Simulation.Machine

end Exokernel
