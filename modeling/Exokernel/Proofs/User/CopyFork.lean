import Exokernel.Proofs.User.Forking
import Exokernel.Proofs.User.Private

/-!
# Clones with memories of their own

A clone by `copyFork` leaves no page that may be stored to on either side but the exception pages, whose frames nobody
else has. From there on parent and child see memories of their own: both start with the bytes that the parent showed,
and no store of one of them shows at the other.
-/

set_option autoImplicit false

namespace Exokernel

namespace Flags

variable {T : FlagTable} {x y z : Flags T}

theorem contains_inter (hz : y.contains z = true) : (x &&& y).contains z = x.contains z := by
  show (x.bits &&& y.bits &&& z.bits == z.bits) = (x.bits &&& z.bits == z.bits)
  rw [UInt64.and_assoc, eq_of_beq hz]

theorem contains_diff (hz : ~~~y.bits &&& z.bits = z.bits) : (x \ y).contains z = x.contains z := by
  show (x.bits &&& ~~~y.bits &&& z.bits == z.bits) = (x.bits &&& z.bits == z.bits)
  rw [UInt64.and_assoc, hz]

theorem not_contains_diff (hy : y.bits ≠ 0) : (x \ y).contains y = false := by
  show (x.bits &&& ~~~y.bits &&& y.bits == y.bits) = false
  rw [UInt64.and_assoc, UInt64.not_and_self, UInt64.and_zero]
  exact beq_eq_false_iff_ne.mpr (Ne.symm hy)

theorem or_contains : (x ||| y).contains y = true := by
  show ((x.bits ||| y.bits) &&& y.bits == y.bits) = true
  refine beq_iff_eq.mpr (UInt64.eq_of_toBitVec_eq ?_)
  rw [UInt64.toBitVec_and, UInt64.toBitVec_or]
  ext i hi
  rw [BitVec.getElem_and, BitVec.getElem_or]
  cases y.bits.toBitVec[i] <;> simp

theorem not_contains_of_disjoint (h : x.intersects y = false) (hz : y.contains z = true) (h0 : z.bits ≠ 0) :
    x.contains z = false := by
  have hxy : x.bits &&& y.bits = 0 := by simpa [intersects] using h
  refine beq_eq_false_iff_ne.mpr fun hx => h0 ?_
  rw [← hx, ← eq_of_beq hz, ← UInt64.and_assoc, hxy, UInt64.zero_and]

end Flags

namespace Program

open PageFlags Memory

variable {f : PageFlags} {write : Bool}

theorem not_writable_copyOnWrite (f : PageFlags) : (copyOnWrite f).contains writable = false := by
  rw [copyOnWrite, Flags.contains_or_of_disjoint (by decide)]
  exact Flags.not_contains_diff (by decide)

theorem copyOnWrite_open (hf : f.contains (accessNeeds false) = true) :
    (copyOnWrite f).contains (accessNeeds false) = true := by
  rw [copyOnWrite, Flags.contains_or_of_disjoint (by decide), Flags.contains_diff (by decide), hf]

theorem requestable_open (hf : f.contains (accessNeeds false) = true) :
    (f &&& requestable).contains (accessNeeds false) = true := by
  rw [Flags.contains_inter (by decide), hf]

theorem not_writable_of_kept (hn : ¬needsCopy (f &&& requestable) = true) : f.contains writable = false := by
  rw [← Flags.contains_inter (y := requestable) (by decide)]
  exact Flags.not_contains_of_disjoint (Bool.not_eq_true _ ▸ hn) (by decide) (by decide)

theorem needsCopy_of_storable (hf : f.contains writable = true ∨ f.contains cow = true) :
    needsCopy (f &&& requestable) = true := by
  by_contra hn
  have hcow : f.contains cow = false := by
    rw [← Flags.contains_inter (y := requestable) (by decide)]
    exact Flags.not_contains_of_disjoint (Bool.not_eq_true _ ▸ hn) (by decide) (by decide)
  rw [not_writable_of_kept hn, hcow] at hf
  simp at hf

theorem childFlags_open (hf : f.contains (accessNeeds false) = true) :
    (childFlags f).contains (accessNeeds false) = true := by
  rw [childFlags]
  split
  · exact copyOnWrite_open (requestable_open hf)
  · exact requestable_open hf

theorem parentFlags_open (hf : f.contains (accessNeeds false) = true) :
    (parentFlags f).contains (accessNeeds false) = true := by
  rw [parentFlags]
  split
  · exact copyOnWrite_open (requestable_open hf)
  · exact hf

theorem not_writable_childFlags (f : PageFlags) : (childFlags f).contains writable = false := by
  rw [childFlags]
  split
  · exact not_writable_copyOnWrite _
  · next hn =>
    rw [Flags.contains_inter (by decide)]
    exact not_writable_of_kept hn

theorem not_writable_parentFlags (f : PageFlags) : (parentFlags f).contains writable = false := by
  rw [parentFlags]
  split
  · exact not_writable_copyOnWrite _
  · next hn => exact not_writable_of_kept hn

theorem cow_of_storable (hf : f.contains writable = true ∨ f.contains cow = true) :
    (childFlags f).contains cow = true ∧ (parentFlags f).contains cow = true := by
  rw [childFlags, parentFlags, if_pos (needsCopy_of_storable hf), if_pos (needsCopy_of_storable hf)]
  exact ⟨Flags.or_contains, Flags.or_contains⟩

end Program

namespace Memory

variable {m : Memory} {h : Handle} {va w : Nat} {e : Mapping}

/-- As long as some page that is mapped to the frame of the page of `va` may be stored to, no other page is. -/
def Sole (m : Memory) (h : Handle) (va : Nat) : Prop :=
  ∀ e, m.mapping? h va = some e → ∀ i w x, m.mapping? i w = some x → x.frame = e.frame →
    x.flags.contains PageFlags.writable = true →
    ∀ j v y, m.mapping? j v = some y → y.frame = e.frame → j = h ∧ pageBase v = pageBase va

theorem Sole.congr (hs : Sole m h va) (hp : pageBase w = pageBase va) : Sole m h w := by
  intro e he
  rw [hp]
  exact hs e ((mapping?_congr hp).symm.trans he)

def Readable (m : Memory) (h : Handle) (base : Nat) : Prop := base ≠ exceptionPage ∧ m.Open h base false

def Storable (m : Memory) (h : Handle) (base : Nat) : Prop := base ≠ exceptionPage ∧ ∃ e, m.mapping? h base = some e ∧
  e.flags.contains (accessNeeds false) = true ∧
  (e.flags.contains PageFlags.writable = true ∨ e.flags.contains PageFlags.cow = true)

structure Guarded (m m' : Memory) (h hc : Handle) (x y : Mapping) : Prop where
  parent : m'.mapping? h exceptionPage = some x ∧ x.flags.contains (accessNeeds true) = true
  child : m'.mapping? hc exceptionPage = some y ∧ y.flags.contains (accessNeeds true) = true
  apart : x.frame ≠ y.frame
  aside : ∀ w e, pageBase w ≠ exceptionPage → m.mapping? h w = some e → Sole m h w →
    e.frame ≠ x.frame ∧ e.frame ≠ y.frame

structure Deferred (m : Memory) (h : Handle) (cf pf : Nat → PageFlags → PageFlags) (P S : Nat → Prop) : Prop where
  aside : ∀ base, P base → base ≠ exceptionPage
  within : ∀ base, S base → P base
  sole : ∀ w, P (pageBase w) → Sole m h w
  closed : ∀ w, P (pageBase w) → ∃ e, m.mapping? h w = some e ∧ e.flags.contains (accessNeeds false) = true ∧
    ∀ f, f = cf (pageBase w) e.flags ∨ f = pf (pageBase w) e.flags →
      f.contains (accessNeeds false) = true ∧ f.contains PageFlags.writable = false
  waiting : ∀ w e, S (pageBase w) → m.mapping? h w = some e →
    ∀ f, f = cf (pageBase w) e.flags ∨ f = pf (pageBase w) e.flags → f.contains PageFlags.cow = true

theorem Storable.readable (hs : m.Storable h va) : m.Readable h va := by
  obtain ⟨hne, e, he, ho, -⟩ := hs
  exact ⟨hne, e, he, ho⟩

end Memory

namespace Simulation.Machine

open Memory Env.Table

variable {n : Nat} {cpu : Cpu} {id child : Env.Id} {h hc : Handle} {m m' M : Machine} {e : Env}
  {cf pf : Nat → PageFlags → PageFlags} {P S : Nat → Prop}

def pair (id child : Env.Id) (h hc : Handle) : Finset (Env.Id × Handle) := {(id, h), (child, hc)}

theorem mem_pair {p : Env.Id × Handle} : p ∈ pair id child h hc ↔ p = (id, h) ∨ p = (child, hc) := by
  rw [pair, Finset.mem_insert, Finset.mem_singleton]

theorem eq_of_mem_pair {i j : Env.Id} {k : Handle} (hne : h ≠ hc) (hi : (i, k) ∈ pair id child h hc)
    (hj : (j, k) ∈ pair id child h hc) : i = j := by
  rcases mem_pair.mp hi with h₁ | h₁ <;> rcases mem_pair.mp hj with h₂ | h₂ <;> cases h₁ <;> cases h₂
  · rfl
  · exact absurd rfl hne
  · exact absurd rfl hne
  · rfl

theorem cases_of_guarded {memory memory' : Memory} {x y z : Mapping} {j : Env.Id} {i : Handle} {w : Nat}
    (hx : Guarded memory memory' h hc x y) (hj : (j, i) ∈ pair id child h hc) (hw : pageBase w = exceptionPage)
    (hz : memory'.mapping? i w = some z) : (i = h ∧ z = x) ∨ (i = hc ∧ z = y) := by
  rw [mapping?_congr (hw.trans pageBase_exceptionPage.symm)] at hz
  rcases mem_pair.mp hj with h' | h' <;> cases h'
  · exact .inl ⟨rfl, Option.some.inj (hz.symm.trans hx.parent.1)⟩
  · exact .inr ⟨rfl, Option.some.inj (hz.symm.trans hx.child.1)⟩

namespace Offspring

variable (ho : Offspring n id child h hc cf pf m m')
include ho

theorem side {j : Env.Id} {i : Handle} {w : Nat} {e : Mapping} (hj : (j, i) ∈ pair id child h hc)
    (hw : pageBase w ≠ exceptionPage) (he : m.kernel.memory.mapping? h w = some e)
    (hopen : e.flags.contains (accessNeeds false) = true) :
    ∃ f, (f = cf (pageBase w) e.flags ∨ f = pf (pageBase w) e.flags) ∧
      m'.kernel.memory.mapping? i w = some ⟨e.frame, f⟩ ∧
      m'.kernel.memory.view i w = m.kernel.memory.view h w := by
  obtain ⟨memory, hprep, hcl⟩ := ho.pages
  obtain ⟨hp, hc, hv⟩ := hcl.visited w e hw ((hprep.parent w hw).trans he) hopen
  have hshown := hprep.shown w hw
  rcases mem_pair.mp hj with h' | h' <;> cases h'
  · exact ⟨_, .inr rfl, hp, (hcl.shown w).trans hshown⟩
  · exact ⟨_, .inl rfl, hc, hv.trans hshown⟩

theorem owns {j : Env.Id} {i : Handle} (hj : (j, i) ∈ pair id child h hc) :
    ∃ r, m'.kernel.envs.records j = some r ∧ r.space = some i := by
  rcases mem_pair.mp hj with h' | h' <;> cases h'
  · obtain ⟨r, hr, hrs, -⟩ := ho.owner
    exact ⟨r, hr, hrs⟩
  · obtain ⟨r, hr, hrs, -⟩ := ho.born
    exact ⟨r, hr, hrs⟩

theorem nothing {w : Nat} (hw : pageBase w ≠ exceptionPage) (he : m.kernel.memory.mapping? h w = none) :
    m'.kernel.memory.mapping? h w = none ∧ m'.kernel.memory.mapping? hc w = none := by
  obtain ⟨memory, hprep, hcl⟩ := ho.pages
  have hnone := (hprep.parent w hw).trans he
  obtain ⟨hp, hc⟩ := hcl.rest w fun _ ⟨e, he', _⟩ => by
    rw [hnone] at he'
    cases he'
  exact ⟨hp.trans hnone, hc.trans (hprep.child w hw)⟩

theorem exceptionPages (hstack : m.handlers.lookup id ≠ none → m.kernel.memory.Open h exceptionPage true) :
    ∃ x y, Guarded m.kernel.memory m'.kernel.memory h hc x y := by
  obtain ⟨memory, hprep, hcl⟩ := ho.pages
  obtain ⟨hp, hc⟩ := hcl.rest exceptionPage fun hne => absurd pageBase_exceptionPage hne
  obtain ⟨frame, hnew, hfresh⟩ := hprep.childStack
  rcases hprep.stack with ⟨hhad, hold⟩ | ⟨frame', hnew', hfresh'⟩
  · obtain ⟨x, hx, hwrite⟩ := hstack hhad
    refine ⟨x, _, ⟨hp.trans (hold.trans hx), hwrite⟩, ⟨hc.trans hnew, dataPage_open true⟩, hfresh _ x (hold.trans hx),
      fun w e hw he hsole => ⟨fun hf => ?_, hfresh w e ((hprep.parent w hw).trans he)⟩⟩
    -- The exception page may be stored to, so that its frame is at no other page.
    have hpage := (hsole e he h exceptionPage x hx hf.symm (Flags.contains_trans hwrite (by decide)) h exceptionPage x
      hx hf.symm).2
    exact hw (hpage.symm.trans pageBase_exceptionPage)
  · refine ⟨_, _, ⟨hp.trans hnew', dataPage_open true⟩, ⟨hc.trans hnew, dataPage_open true⟩, hfresh _ _ hnew',
      fun w e hw he _ => ?_⟩
    have he' := (hprep.parent w hw).trans he
    exact ⟨hfresh' w e hw he', hfresh w e he'⟩

theorem deferred {j : Env.Id} {i : Handle} {w : Nat} (hdef : Deferred m.kernel.memory h cf pf P S)
    (hj : (j, i) ∈ pair id child h hc) (hP : P (pageBase w)) : ∃ e f,
      m.kernel.memory.mapping? h w = some e ∧ m'.kernel.memory.mapping? i w = some ⟨e.frame, f⟩ ∧
      f.contains (accessNeeds false) = true ∧ f.contains PageFlags.writable = false ∧
      (S (pageBase w) → f.contains PageFlags.cow = true) ∧
      m'.kernel.memory.view i w = m.kernel.memory.view h w := by
  obtain ⟨e, he, hopen, hflags⟩ := hdef.closed w hP
  obtain ⟨f, hf, hmap, hview⟩ := ho.side hj (hdef.aside _ hP) he hopen
  exact ⟨e, f, he, hmap, (hflags f hf).1, (hflags f hf).2, fun hS => hdef.waiting w e hS he f hf, hview⟩

/-- No frame that either side may store to is at another page of the two. -/
theorem lone {x y : Mapping} {i : Handle} {v : Nat} (hdef : Deferred m.kernel.memory h cf pf P S)
    (hx : Guarded m.kernel.memory m'.kernel.memory h hc x y) (hscope : Scope P (pair id child h hc) i v)
    (hopen : m'.kernel.memory.Open i v true) : Alone (Scope P (pair id child h hc)) m'.kernel.memory i v := by
  obtain ⟨⟨k, hk⟩, hv⟩ := hscope
  obtain ⟨z, hz, hzw⟩ := hopen
  rintro z' hz' j w z₂ ⟨⟨l, hl⟩, hw⟩ hz₂ hframe
  obtain rfl := Option.some.inj (hz.symm.trans hz')
  rcases hv with hP | hexc
  · -- No page whose copy is deferred may be stored to.
    obtain ⟨e, f, -, he, -, hno, -⟩ := ho.deferred hdef hk hP
    obtain rfl := Option.some.inj (hz.symm.trans he)
    rw [Flags.contains_trans hzw (by decide)] at hno
    cases hno
  · have hown := cases_of_guarded hx hk hexc hz
    rcases hw with hP | hexc'
    · obtain ⟨e, f, he, he', -⟩ := ho.deferred hdef hl hP
      obtain rfl := Option.some.inj (hz₂.symm.trans he')
      obtain ⟨hnx, hny⟩ := hx.aside w e (hdef.aside _ hP) he (hdef.sole w hP)
      rcases hown with ⟨-, rfl⟩ | ⟨-, rfl⟩
      · exact absurd hframe hnx
      · exact absurd hframe hny
    · refine ⟨?_, hexc'.trans hexc.symm⟩
      rcases hown with ⟨rfl, rfl⟩ | ⟨rfl, rfl⟩ <;> rcases cases_of_guarded hx hl hexc' hz₂ with ⟨rfl, rfl⟩ | ⟨rfl, rfl⟩
      · rfl
      · exact absurd hframe.symm hx.apart
      · exact absurd hframe hx.apart
      · rfl

/-- Both sides can mend their pages once they have their handlers. -/
theorem equipped {x y : Mapping} {j : Env.Id} {i : Handle} (hM : M.kernel = m'.kernel)
    (hhandlers : M.handlers.lookup id = some .copyOnWrite ∧ M.handlers.lookup child = some .copyOnWrite)
    (hf : m.kernel.envs.find? id = some e) (hscratch : m.kernel.memory.mapping? h scratchPage = none)
    (hupcall : m.handlers.lookup id ≠ none → e.upcall = UInt64.ofNat upcallEntry)
    (hx : Guarded m.kernel.memory m'.kernel.memory h hc x y) (hj : (j, i) ∈ pair id child h hc) : M.Equipped j i := by
  obtain ⟨hs, hsc⟩ := ho.nothing (show pageBase scratchPage ≠ exceptionPage by decide) hscratch
  rcases mem_pair.mp hj with h' | h' <;> cases h'
  · refine ⟨?_, hhandlers.1, hM ▸ ⟨x, hx.parent⟩, hM ▸ hs⟩
    obtain ⟨r, hr, hrs, hru⟩ := ho.owner
    refine ⟨r, hM ▸ hr, hrs, ?_⟩
    rcases hru with hu | ⟨hhad, hr'⟩
    · exact hu
    · rw [records_of_find? hf] at hr'
      rw [← Option.some.inj hr']
      exact hupcall hhad
  · exact ⟨hM ▸ ho.born, hhandlers.2, hM ▸ ⟨y, hx.child⟩, hM ▸ hsc⟩

/-- Pages whose copies are deferred are seen by each side as a memory of its own. -/
theorem poised (hM : M.kernel = m'.kernel)
    (hhandlers : M.handlers.lookup id = some .copyOnWrite ∧ M.handlers.lookup child = some .copyOnWrite)
    (hf : m.kernel.envs.find? id = some e) (hscratch : m.kernel.memory.mapping? h scratchPage = none)
    (hstack : m.handlers.lookup id ≠ none →
      m.kernel.memory.Open h exceptionPage true ∧ e.upcall = UInt64.ofNat upcallEntry)
    (hdef : Deferred m.kernel.memory h cf pf P S)
    (hstocked : Stocked (demand (pair id child h hc) m'.kernel.memory) m'.kernel.memory) :
    Poised n P S (pair id child h hc) M fun _ => m.kernel.memory.view h := by
  obtain ⟨x, y, hx⟩ := ho.exceptionPages fun hhad => (hstack hhad).1
  refine ⟨hM ▸ ho.proper, fun _ _ _ => eq_of_mem_pair ho.apart, fun j i hj => ?_, hdef.aside, hdef.within,
    fun j i w hj hP => ?_, fun j i w hj hS => ?_, fun i v hscope hopen => ?_, fun j i w hj hP => ?_, hM ▸ hstocked⟩
  · exact ho.equipped hM hhandlers hf hscratch (fun hhad => (hstack hhad).2) hx hj
  · obtain ⟨e, f, -, he, ho, -⟩ := ho.deferred hdef hj hP
    exact hM ▸ ⟨_, he, ho⟩
  · obtain ⟨e, f, -, he, -, hw, hcow, -⟩ := ho.deferred hdef hj (hdef.within _ hS)
    refine .inr ⟨_, hM ▸ he, ?_⟩
    rw [Mapping.isLazy, hcow hS, hw]
    rfl
  · rw [hM] at hopen ⊢
    exact ho.lone hdef hx hscope hopen
  · obtain ⟨e, f, -, -, -, -, -, hv⟩ := ho.deferred hdef hj hP
    exact hM ▸ hv

theorem attached (code : List Instr) (hnew : m'.threads.lookup child = none) :
    (m'.attach id child code).handlers.lookup id = some .copyOnWrite ∧
    (m'.attach id child code).handlers.lookup child = some .copyOnWrite := by
  have hhandlers : (m'.attach id child code).handlers = set child .copyOnWrite m'.handlers := by
    simp only [attach, hnew, Option.isSome_none, Bool.false_eq_true, if_false, ho.handlers, lookup_set]
  rw [hhandlers, lookup_set, lookup_set_of_ne _ _ (Ne.symm ho.other), ho.handlers, lookup_set]
  exact ⟨rfl, rfl⟩

theorem spaceOf_child {i : Handle} (hi : m'.kernel.spaceOf child = .ok i) : i = hc := by
  obtain ⟨r, hr, hrs, -⟩ := ho.born
  obtain ⟨y, hy, rfl⟩ := find?_of_records hr
  exact Except.ok.inj (hi.symm.trans (Kernel.spaceOf_of_find? hy hrs))

end Offspring

theorem attach_kernel (m : Machine) (parent child : Env.Id) (code : List Instr) :
    (m.attach parent child code).kernel = m.kernel := by
  rw [attach]
  split <;> rfl

theorem exists_pair {j : Env.Id} (hj : j = id ∨ j = child) : ∃ i, (j, i) ∈ pair id child h hc := by
  rcases hj with rfl | rfl
  · exact ⟨h, mem_pair.mpr (.inl rfl)⟩
  · exact ⟨hc, mem_pair.mpr (.inr rfl)⟩

/-- `copyFork` defers every copy. -/
theorem deferred_copyFork {m : Memory} (hsole : ∀ va, pageBase va ≠ exceptionPage → Sole m h va) :
    Deferred m h (fun _ => Program.childFlags) (fun _ => Program.parentFlags) (Readable m h) (Storable m h) where
  aside _ hP := hP.1
  within _ hS := hS.readable
  sole w hP := hsole w hP.1
  closed w hP := by
    obtain ⟨-, e, he, hopen⟩ := hP
    refine ⟨e, (mapping?_congr (pageBase_pageBase w)).symm.trans he, hopen, ?_⟩
    rintro f (rfl | rfl)
    · exact ⟨Program.childFlags_open hopen, Program.not_writable_childFlags _⟩
    · exact ⟨Program.parentFlags_open hopen, Program.not_writable_parentFlags _⟩
  waiting w e hS he f hflags := by
    obtain ⟨-, e', he', -, hstorable⟩ := hS
    rw [mapping?_congr (pageBase_pageBase w)] at he'
    obtain rfl := Option.some.inj (he.symm.trans he')
    rcases hflags with rfl | rfl
    · exact (Program.cow_of_storable hstorable).1
    · exact (Program.cow_of_storable hstorable).2

/-- A clone by `copyFork` is as good as a copy: whatever parent and child read and write in turn, at addresses that user
mode reaches, each of them sees the bytes that the parent had and its own stores since. -/
theorem copyFork_private {cpu' : Cpu} {budget patience : Nat} {code : List Instr} {acts : List Act}
    (hr : m.kernel.Reachable) (hf : m.kernel.envs.find? id = some e) (hs : e.space = some h)
    (hscratch : m.kernel.memory.mapping? h scratchPage = none)
    (hsole : ∀ va, pageBase va ≠ exceptionPage → Sole m.kernel.memory h va)
    (hstack : m.handlers.lookup id ≠ none →
      m.kernel.memory.Open h exceptionPage true ∧ e.upcall = UInt64.ofNat upcallEntry)
    (hd : drive cpu id budget (Request.copyFork.program patience) m = some (.side (.ok (.parent child)), m'))
    (hnew : m'.threads.lookup child = none) (hspace : m'.kernel.spaceOf child = .ok hc)
    (hstocked : Stocked (demand (pair id child h hc) m'.kernel.memory) m'.kernel.memory)
    (hacts : ∀ a ∈ acts, (a.env = id ∨ a.env = child) ∧ onExceptionStack a.live.sp.toNat = false ∧
      a.access.Within (Readable m.kernel.memory h) (Storable m.kernel.memory h)) :
    Plays cpu' acts (m'.attach id child code) (apart acts fun _ => m.kernel.memory.view h) := by
  obtain ⟨n, hp⟩ := hr.proper
  obtain ⟨a, ha, hq⟩ := (yields_copyFork hp hf hs).of_drive hd
  cases ha
  obtain ⟨child', hc', hside, ho⟩ := hq
  cases hside
  obtain rfl := ho.spaceOf_child hspace
  have hpoised := ho.poised (attach_kernel ..) (ho.attached code hnew) hf hscratch hstack (deferred_copyFork hsole)
    hstocked
  refine hpoised.plays cpu' fun a ha => ?_
  obtain ⟨henv, hsp, hin⟩ := hacts a ha
  exact ⟨exists_pair henv, hsp, hin⟩

def ownerConfig : Config := { cpus := 1, capacity := 3, frames := 16, level := .error }

def ownerBooted : Kernel := (Kernel.boot ownerConfig {} {}).toOption.getD (.blank ownerConfig {} {})

def ownerStarted : Kernel := (Demand.step (.start ⟨0⟩ {})).next ((Demand.step (.create .user)).next ownerBooted)

def ownerAsks (perm : PageFlags) : Demand := .call .standard ⟨0⟩ ⟨0x401⟩ 7 #v[0, 0x300000, perm.bits, 0, 0]

def owner (perm : PageFlags) : Machine := { kernel := (ownerAsks perm).next ownerStarted, budget := 0 }

theorem reachable_owner {perm : PageFlags} (h : ((ownerAsks perm).run ownerStarted).isOk = true) :
    (owner perm).kernel.Reachable := by
  have hboot : Kernel.boot ownerConfig {} {} = .ok ownerBooted := by decide +kernel
  have h₁ := (Kernel.Reachable.boot hboot).next (r := .step (.create .user)) trivial (by decide +kernel)
  have h₂ := h₁.next (r := .step (.start ⟨0⟩ {})) trivial (by decide +kernel)
  have hlive : (ownerStarted.envs.find? ⟨0x401⟩).isSome = true := by decide +kernel
  exact h₂.next (r := ownerAsks perm) (Option.isSome_iff_exists.mp hlive) h

theorem owner_ready : (owner Program.dataPage).kernel.Reachable ∧
    (∃ e, (owner Program.dataPage).kernel.envs.find? ⟨0x401⟩ = some e ∧ e.space = some ⟨1⟩) ∧
    (owner Program.dataPage).kernel.memory.mapping? ⟨1⟩ 0x300000 = some ⟨⟨2⟩, Program.dataPage⟩ := by
  have hfound : ((owner Program.dataPage).kernel.envs.find? ⟨0x401⟩).map Env.space = some (some ⟨1⟩) := by
    decide +kernel
  exact ⟨reachable_owner (by decide +kernel), Option.map_eq_some_iff.mp hfound, by decide +kernel⟩

def mappedPages (m : Memory) : List (List (Nat × Mapping)) :=
  m.spaces.toList.map fun s => s.elim [] fun s => s.table.entries

theorem mem_mappedPages {i : Handle} {w : Nat} {x : Mapping} {m : Memory} (h : m.mapping? i w = some x) :
    ∃ l, (mappedPages m)[i.index]? = some l ∧ (pageBase w, x) ∈ l := by
  obtain ⟨s, hs, hl⟩ := Option.bind_eq_some_iff.mp h
  refine ⟨s.table.entries, ?_, Ascending.mem_of_find? hl⟩
  have hslot : m.spaces[i.index]? = some (some s) := getElem?_of_space? hs
  rw [mappedPages, List.getElem?_map, Array.getElem?_toList, hslot]
  rfl

/-- A page that is the only one there is. -/
theorem sole_of_mappedPages {x : Mapping} {m : Memory} (h : mappedPages m = [[], [(0x300000, x)]]) (va : Nat) :
    Sole m ⟨1⟩ va := by
  have honly : ∀ i w y, m.mapping? i w = some y → i = ⟨1⟩ ∧ pageBase w = 0x300000 := by
    rintro ⟨i⟩ w y hy
    obtain ⟨l, hl, hm⟩ := mem_mappedPages hy
    rw [h] at hl
    match i, hl with
    | 0, hl =>
      cases hl
      cases hm
    | 1, hl =>
      cases hl
      rw [List.mem_singleton] at hm
      exact ⟨rfl, (Prod.mk.inj hm).1⟩
  intro e he i w y _ _ _ j v z hz _
  obtain ⟨hj, hv⟩ := honly j v z hz
  exact ⟨hj, hv.trans (honly _ _ _ he).2.symm⟩

def Ready (m : Machine) : Prop := (m.threads.lookup ⟨0x402⟩).isNone = true ∧ m.kernel.spaceOf ⟨0x402⟩ = .ok ⟨2⟩ ∧
  m.kernel.memory.frames.denyNext = false ∧ m.kernel.memory.denyNextMap = false ∧
  demand (pair ⟨0x401⟩ ⟨0x402⟩ ⟨1⟩ ⟨2⟩) m.kernel.memory ≤ m.kernel.memory.freeFrames

instance : DecidablePred Ready := fun _ => inferInstanceAs (Decidable (_ ∧ _))

def writingChild : List Act :=
  [⟨⟨0x402⟩, {}, .write 0x300000 [1, 2]⟩, ⟨⟨0x401⟩, {}, .read 0x300000 2⟩, ⟨⟨0x402⟩, {}, .read 0x300000 2⟩]

theorem fair_writingChild {P S : Nat → Prop} {a : Act} (hP : P 0x300000) (hS : S 0x300000) (ha : a ∈ writingChild) :
    (a.env = ⟨0x401⟩ ∨ a.env = ⟨0x402⟩) ∧ onExceptionStack a.live.sp.toNat = false ∧ a.access.Within P S := by
  have hpage : ∀ k, k < 2 → pageBase ((0x300000 : Word).toNat + k) = 0x300000 := fun k hk =>
    pageBase_offset rfl (Nat.lt_trans hk (by decide))
  have hwrite : (Access.write 0x300000 [1, 2]).Within P S := by
    refine ⟨fun _ _ h => (by cases h), fun _ _ h k hk => ?_⟩
    cases h
    rw [hpage k hk]
    exact hS
  have hread : (Access.read 0x300000 2).Within P S := by
    refine ⟨fun _ _ h k hk => ?_, fun _ _ h => (by cases h)⟩
    cases h
    rw [hpage k hk]
    exact hP
  simp only [writingChild, List.mem_cons, List.mem_nil_iff, or_false] at ha
  rcases ha with rfl | rfl | rfl
  · exact ⟨.inr rfl, by decide, hwrite⟩
  · exact ⟨.inl rfl, by decide, hread⟩
  · exact ⟨.inr rfl, by decide, hread⟩

theorem apart_writingChild {f : Flat} {bytes : Bytes} (hf : f.read 0x300000 2 = bytes) :
    apart writingChild (fun _ => f) = [.nothing, .bytes bytes, .bytes [1, 2]] := by
  have hparent : (⟨0x401⟩ : Env.Id) ≠ ⟨0x402⟩ := by decide
  have hchild : (f.write 0x300000 [1, 2]).read 0x300000 2 = [1, 2] := Flat.read_write f 0x300000 [1, 2]
  have hva : (0x300000 : Word).toNat = 0x300000 := rfl
  simp only [writingChild, apart, Access.answer, Access.after, Function.update_self, Function.update_of_ne hparent,
    Function.update_of_ne (Ne.symm hparent), hva, hf, hchild]

theorem copyFork_owner : ∃ m', drive ⟨0⟩ ⟨0x401⟩ 12 (Request.copyFork.program 0) (owner Program.dataPage) =
    some (.side (.ok (.parent ⟨0x402⟩)), m') ∧ Ready m' := exists_of_side (by decide +kernel)

/-- The parent still reads the zeros that were there at the clone. -/
theorem copyFork_private_owner : ∃ m', (owner Program.dataPage).kernel.Reachable ∧
    drive ⟨0⟩ ⟨0x401⟩ 12 (Request.copyFork.program 0) (owner Program.dataPage) =
      some (.side (.ok (.parent ⟨0x402⟩)), m') ∧
    Plays ⟨0⟩ writingChild (m'.attach ⟨0x401⟩ ⟨0x402⟩ []) [.nothing, .bytes [0, 0], .bytes [1, 2]] := by
  obtain ⟨hreach, ⟨e, hf, hs⟩, hpage⟩ := owner_ready
  obtain ⟨m', hd, hnew, hspace, hgrant, hmap, henough⟩ := copyFork_owner
  have hstorable : Storable (owner Program.dataPage).kernel.memory ⟨1⟩ 0x300000 :=
    ⟨by decide, _, hpage, by decide, .inl (by decide)⟩
  have hpages : mappedPages (owner Program.dataPage).kernel.memory = [[], [(0x300000, ⟨⟨2⟩, Program.dataPage⟩)]] := by
    decide +kernel
  have hzero : ((owner Program.dataPage).kernel.memory.view ⟨1⟩).read 0x300000 2 = [0, 0] := by decide +kernel
  refine ⟨m', hreach, hd, ?_⟩
  rw [← apart_writingChild hzero]
  exact copyFork_private hreach hf hs (by decide +kernel) (fun va _ => sole_of_mappedPages hpages va)
    (fun h => absurd rfl h) hd
    (Option.isNone_iff_eq_none.mp hnew) hspace ⟨hgrant, hmap, henough⟩ fun a ha =>
      fair_writingChild hstorable.readable hstorable ha

end Simulation.Machine

end Exokernel
