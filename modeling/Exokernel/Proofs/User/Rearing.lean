import Exokernel.Proofs.Memory.Fresh
import Exokernel.Proofs.User.ShareFork

/-!
# The mappings that a clone makes

A clone maps pages of its parent and of its child, and nobody else's. The exception page of the child is new, and stays
its own while the other pages are visited. With what the visits do to these pages, every mapping of both sides is known.
-/

set_option autoImplicit false

namespace Exokernel

namespace Flags

variable {T : FlagTable} {x y z : Flags T}

/-- A single flag is contained in whatever meets it. -/
theorem intersects_eq_contains {i : Nat} (hi : i < 64) (hy : y.bits.toBitVec = BitVec.twoPow 64 i) :
    x.intersects y = x.contains y := by
  have hand : (x.bits &&& y.bits).toBitVec = if x.bits.toBitVec.getLsbD i then y.bits.toBitVec else 0 := by
    rw [UInt64.toBitVec_and, hy, BitVec.and_twoPow]
    rfl
  have hzero : y.bits ≠ 0 := fun h0 => by
    have hbit := congrArg (fun b : BitVec 64 => b.getLsbD i) hy
    rw [h0] at hbit
    simp [hi] at hbit
  rw [intersects, contains]
  split at hand
  · have hmeet := UInt64.eq_of_toBitVec_eq hand
    rw [hmeet, beq_self_eq_true, bne_iff_ne.mpr hzero]
  · have hmeet : x.bits &&& y.bits = 0 := UInt64.eq_of_toBitVec_eq hand
    rw [hmeet, bne_self_eq_false, beq_eq_false_iff_ne.mpr (Ne.symm hzero)]

theorem intersects_union : x.intersects (y ||| z) = (x.intersects y || x.intersects z) := by
  show (x.bits &&& (y.bits ||| z.bits) != 0) = ((x.bits &&& y.bits != 0) || (x.bits &&& z.bits != 0))
  rw [Bool.eq_iff_iff]
  have hsplit : x.bits &&& (y.bits ||| z.bits) = (x.bits &&& y.bits) ||| (x.bits &&& z.bits) := by
    refine UInt64.eq_of_toBitVec_eq ?_
    simp only [UInt64.toBitVec_and, UInt64.toBitVec_or, BitVec.and_or_distrib_left]
  rw [hsplit, bne_iff_ne, Bool.or_eq_true, bne_iff_ne, bne_iff_ne, ne_eq, UInt64.or_eq_zero_iff]
  tauto

end Flags

namespace Program

open PageFlags

theorem needsCopy_iff (f : PageFlags) : needsCopy f = true ↔ f.contains writable = true ∨ f.contains cow = true := by
  rw [needsCopy, Flags.intersects_union, Flags.intersects_eq_contains (i := 1) (by decide) (by decide),
    Flags.intersects_eq_contains (i := 11) (by decide) (by decide), Bool.or_eq_true]

end Program

namespace Memory

variable {n base : Nat} {m m' m'' : Memory} {h hc i : Handle} {frame : FrameId} {perm : PageFlags} {x : Mapping}

structure Lent (m m' : Memory) (h hc : Handle) (frame : FrameId) : Prop where
  others : ∀ i w, i ≠ h → i ≠ hc → m'.mapping? i w = m.mapping? i w
  stack : m'.mapping? hc exceptionPage = m.mapping? hc exceptionPage
  exclusive : Exclusive m' hc exceptionPage frame
  page : m'.frames.page frame = m.frames.page frame

theorem Lent.refl (hx : Exclusive m hc exceptionPage frame) : Lent m m h hc frame :=
  ⟨fun _ _ _ _ => rfl, rfl, hx, rfl⟩

theorem Lent.trans (h₁ : Lent m m' h hc frame) (h₂ : Lent m' m'' h hc frame) : Lent m m'' h hc frame :=
  ⟨fun i w hi hic => (h₂.others i w hi hic).trans (h₁.others i w hi hic), h₂.stack.trans h₁.stack, h₂.exclusive,
    h₂.page.trans h₁.page⟩

/-- A page of the space `h` is mapped there again or in the space `hc`, at its own address. -/
theorem lent_insert (hb : Settled n m) (hc' : m.frames.Clear) (hx : Exclusive m hc exceptionPage frame)
    (hat : m.mapping? h base = some x) (hbase : pageBase base = base) (hne : base ≠ exceptionPage)
    (hi : i = h ∨ i = hc) (hd : insert i x.frame base perm m = .done () m') : Lent m m' h hc frame := by
  have hmap := (insert_effect i x.frame base perm hb.pool hc').of_done hd
  have hoff : ¬(hc = i ∧ pageBase exceptionPage = base) := fun h' => hne (h'.2.symm.trans pageBase_exceptionPage)
  have hother : x.frame ≠ frame := fun hf => by
    have hpage := (hx.alone h base x hat hf).2
    exact hne (hbase.symm.trans (hpage.trans pageBase_exceptionPage))
  obtain ⟨hexclusive, hpage⟩ := hx.inserted hb hc' hd hother hoff
  refine ⟨fun j w hj hjc => ?_, ?_, hexclusive, hpage⟩
  · rw [hmap.mapping, if_neg]
    rintro ⟨rfl, -⟩
    exact hi.elim hj hjc
  · rw [hmap.mapping, if_neg hoff]

theorem Stacked.others {had : Prop} (hst : Stacked had m h m') (hi : i ≠ h) (w : Nat) :
    m'.mapping? i w = m.mapping? i w := by
  cases hst with
  | already => rfl
  | fresh _ hr => rw [hr.mapping, if_neg fun h' => hi h'.1]

/-- A new space gets a new exception page, and then pages are lent to it: other spaces keep theirs, and the exception
page is still new. -/
theorem furnished_lent {had : Prop} {m₁ m₂ m₃ : Memory} {taken : Option FrameId} (hb : Settled n m₁)
    (hclear : m₁.frames.Clear) (hst : Stacked had m h m₁) (hd : create m₁ = .done hc m₂)
    (hf : Furnished m₂ m₃ hc exceptionPage perm frame taken) (hl : Lent m₃ m' h hc frame) :
    (∀ i w, i ≠ h → i ≠ hc → m'.mapping? i w = m.mapping? i w) ∧
      m'.mapping? hc exceptionPage = some ⟨frame, perm⟩ ∧ Exclusive m' hc exceptionPage frame ∧
      m'.frames.page frame = Page.blank := by
  obtain ⟨hcreated, -⟩ := (create_effect hb.pool hclear).of_done hd
  refine ⟨fun i w hih hic => ?_, ?_, hl.exclusive, hl.page.trans hf.blank⟩
  · have hnew : ¬(i = hc ∧ pageBase w = exceptionPage) := fun h' => hic h'.1
    rw [hl.others i w hih hic, hf.mapping, if_neg hnew, hcreated, hst.others hih]
  · rw [hl.stack, hf.mapping, if_pos ⟨rfl, pageBase_exceptionPage⟩]

end Memory

open Env (Id Status)
open Env.Table

namespace Simulation.Machine

open Memory

variable {n budget patience : Nat} {cpu : Cpu} {id child : Env.Id} {h hc i : Handle} {m m' : Machine} {e : Env}
  {frame : FrameId} {R : Env.Id → Option Env} {H : List (Env.Id × Handler)}

def Lends (n : Nat) (cpu : Cpu) (id : Env.Id) (h hc : Handle) (frame : FrameId) (R : Env.Id → Option Env)
    (H : List (Env.Id × Handler)) (visit : Word → PageFlags → Program.Part ErrorCode Unit) : Prop :=
  ∀ (m : Machine) (base : Nat) (e : Mapping), Proper n m.kernel.envs m.kernel.memory → m.Stands R H →
    pageBase base = base → base < utop → base ≠ exceptionPage → m.kernel.memory.mapping? h base = some e →
    Exclusive m.kernel.memory hc exceptionPage frame →
    Yields cpu id (visit (UInt64.ofNat base) e.flags).run m (either
      (fun _ m' => Edited n m m' ∧ Lent m.kernel.memory m'.kernel.memory h hc frame) fun _ _ => True)

section visits

variable (hself : Reaches R id .self h) (hchild : Reaches R id child hc)
include hself

/-- One mapping of such a page. -/
theorem yields_lend {base : Nat} {target : Env.Id} {perm : PageFlags} (htarget : Reaches R id target i)
    (hi : i = h ∨ i = hc) (hp : Proper n m.kernel.envs m.kernel.memory) (hst : m.Stands R H)
    (hbase : pageBase base = base) (hlt : base < utop) (hne : base ≠ exceptionPage)
    (hx : Exclusive m.kernel.memory hc exceptionPage frame) :
    Yields cpu id (Program.perform
      (.mapPage .self (UInt64.ofNat base) target (UInt64.ofNat base) perm)).run m (either
        (fun _ m' => Edited n m m' ∧ Lent m.kernel.memory m'.kernel.memory h hc frame) fun _ _ => True) := by
  refine ((yields_insert hp hst hself htarget).mono_ok fun _ m' h' => ?_).mono_error fun _ _ _ => trivial
  obtain ⟨hedit, x, hat, hd⟩ := h'
  rw [toNat_userPage hlt] at hat hd
  exact ⟨hedit, lent_insert hp.intact.memory hp.clear hx hat hbase hne hi hd⟩

include hchild

theorem lends_sharePage : Lends n cpu id h hc frame R H (Program.sharePage child) :=
  fun _ _ _ hp hst hbase hlt hne _ hx => yields_lend hself hchild (.inr rfl) hp hst hbase hlt hne hx

theorem lends_duplicatePage : Lends n cpu id h hc frame R H (Program.duplicatePage child) := by
  intro m base e hp hst hbase hlt hne he hx
  rw [Program.duplicatePage]
  by_cases hn : Program.needsCopy (e.flags &&& PageFlags.requestable) = true
  · simp only [if_pos hn]
    refine (yields_lend hself hchild (.inr rfl) hp hst hbase hlt hne hx).bind_part fun _ m₁ h₁ => ?_
    obtain ⟨hedit, hs⟩ := h₁
    refine (yields_lend hself hself (.inl rfl) hedit.proper (hedit.stands hst) hbase hlt hne hs.exclusive).mono_ok
      fun _ m₂ h₂ => ?_
    exact ⟨hedit.trans h₂.1, hs.trans h₂.2⟩
  · simp only [if_neg hn]
    exact lends_sharePage hself hchild m base e hp hst hbase hlt hne he hx

theorem lends_sharePageOrStack : Lends n cpu id h hc frame R H (Program.sharePageOrStack child) := by
  intro m base e hp hst hbase hlt hne he hx
  rw [Program.sharePageOrStack]
  split
  · exact lends_duplicatePage hself hchild m base e hp hst hbase hlt hne he hx
  · exact lends_sharePage hself hchild m base e hp hst hbase hlt hne he hx

end visits

/-- What a visit keeps, the traversal keeps. -/
theorem yields_forEachUserPage_lends {visit : Word → PageFlags → Program.Part ErrorCode Unit}
    (hv : Lends n cpu id h hc frame R H visit) (hself : Reaches R id .self h) (hst : m.Stands R H)
    (hp : Proper n m.kernel.envs m.kernel.memory) (hx : Exclusive m.kernel.memory hc exceptionPage frame) :
    Yields cpu id (Program.forEachUserPage visit).run m (either
      (fun _ m' => Edited n m m' ∧ Lent m.kernel.memory m'.kernel.memory h hc frame) fun _ _ => True) := by
  refine yields_forM (I := fun _ m' => Edited n m m' ∧ Lent m.kernel.memory m'.kernel.memory h hc frame)
    (fun past span rest m₁ hlist h₁ => ?_) ⟨⟨hp, rfl, rfl⟩, .refl hx⟩
  obtain ⟨hedit₁, hs₁⟩ := h₁
  obtain ⟨hspan, -⟩ := span_of_split hlist
  have hs : span % spanSize = 0 := by rw [hspan, Nat.mul_mod_left]
  refine Yields.bind_part (Yields.lift ((costs_spanAt _).yields (Q := fun _ m₂ => m₂ = m₁) rfl)) ?_
  rintro present m₂ rfl
  cases present with
  | false => exact yields_pure ⟨hedit₁, hs₁⟩
  | true =>
    refine yields_forM (I := fun _ m' => Edited n m m' ∧ Lent m.kernel.memory m'.kernel.memory h hc frame)
      (fun past base rest m₃ hlist h₃ => ?_) ⟨hedit₁, hs₁⟩
    obtain ⟨hedit₃, hs₃⟩ := h₃
    obtain ⟨hbase, -, -, hlt, hne⟩ := (mem_pagesOf hs).mp (hlist ▸ List.mem_append_right _ (List.mem_cons_self ..))
    have hst₃ := hedit₃.stands hst
    refine Yields.bind_part (Yields.lift ((costs_entryAt _).yields (Q := fun entry m₄ => m₄ = m₃ ∧
      entry = (m₃.kernel.memory.mapping? h base).map Mapping.flags) ⟨rfl, ?_⟩)) ?_
    · rw [toNat_userPage hlt, Kernel.pageEntry_eq (hst₃.spaceOf hself)]
    rintro entry m₄ ⟨rfl, rfl⟩
    cases he : m₄.kernel.memory.mapping? h base with
    | none => exact yields_pure ⟨hedit₃, hs₃⟩
    | some e =>
      simp only [Option.map_some]
      split
      · refine (hv m₄ base e hedit₃.proper hst₃ hbase hlt hne he hs₃.exclusive).mono_ok fun _ m₅ h₅ => ?_
        exact ⟨hedit₃.trans h₅.1, hs₃.trans h₅.2⟩
      · exact yields_pure ⟨hedit₃, hs₃⟩

/-- The environment `id` with the space `h` has got a child with the space `hc`, which may run, and whose exception page
is new and its own. No other environment has changed, and no other space. -/
structure Reared (id child : Env.Id) (h hc : Handle) (m m' : Machine) : Prop where
  unknown : m.kernel.envs.records child = none
  born : ∃ r, m'.kernel.envs.records child = some r ∧ r.space = some hc ∧ r.parent = id ∧ r.status = .runnable ∧
    r.upcall = UInt64.ofNat upcallEntry
  others : ∀ j, j ≠ id → j ≠ child → m'.kernel.envs.records j = m.kernel.envs.records j
  spaces : ∀ i w, i ≠ h → i ≠ hc → m'.kernel.memory.mapping? i w = m.kernel.memory.mapping? i w
  stack : ∃ frame, m'.kernel.memory.mapping? hc exceptionPage = some ⟨frame, Program.dataPage⟩ ∧
    Exclusive m'.kernel.memory hc exceptionPage frame ∧ m'.kernel.memory.frames.page frame = Page.blank

section rearing

variable {visit : Env.Id → Word → PageFlags → Program.Part ErrorCode Unit}
  (hvisit : ∀ child hc frame R H, Reaches R id .self h → Reaches R id child hc →
    Lends n cpu id h hc frame R H (visit child))
include hvisit

/-- What a parent does for its child, and for nobody else. -/
theorem yields_rearing {m₁ m₂ : Machine} (hi : Installed n id h m m₁) (hb : Begotten n id child hc m₁ m₂) :
    Yields cpu id (do
      Program.step (.allocPage child (UInt64.ofNat exceptionPage) Program.dataPage)
      Program.step (.setUpcall child (UInt64.ofNat upcallEntry))
      (Program.forEachUserPage (visit child)).adapt ForkError.callFailed
      Program.step (.setStatus child .runnable)
      return .parent child : Program.Part ForkError Side).run m₂ (either
        (fun side m' => ∃ child hc, side = .parent child ∧ Reared id child h hc m m') fun _ _ => True) := by
  have hself := hb.reaches_parent hi
  -- The exception page of the child is allocated, and its upcall is set.
  refine Yields.bind_part (yields_step (yields_alloc hb.proper hb.stands (hb.reaches_child rfl))) fun _ m₃ h₃ => ?_
  obtain ⟨hedit, halloc⟩ := h₃
  rw [toNat_userPage (show exceptionPage < utop by decide)] at halloc
  obtain ⟨frame, taken, hfurnished⟩ := allocPage_furnishes hb.proper.intact.memory hb.proper.clear halloc
  have hst₃ := hedit.stands hb.stands
  refine Yields.bind_part (yields_step (yields_setUpcall hedit.proper hst₃)) fun _ m₄ halt => ?_
  rw [hb.itself] at halt
  have hst₄ := halt.stands hst₃
  have hx : Exclusive m₄.kernel.memory hc exceptionPage frame := halt.memory.symm ▸ hfurnished.exclusive
  -- The pages are visited, and the child may run.
  have hpages := yields_forEachUserPage_lends (hvisit child hc frame _ _ (hself _) (hb.reaches_child rfl)) (hself _)
    hst₄ halt.proper hx
  refine Yields.bind_part hpages.adapt_any fun _ m₅ h₅ => ?_
  obtain ⟨hedit₅, hlent⟩ := h₅
  have hst₅ := hedit₅.stands hst₄
  refine Yields.bind_part (yields_step (yields_setRunnable hedit₅.proper hst₅)) fun _ m₆ halt₆ => ?_
  rw [hb.itself] at halt₆
  have hst₆ := halt₆.stands hst₅
  rw [halt.memory, ← halt₆.memory] at hlent
  obtain ⟨hspaces, hstack⟩ := furnished_lent hi.proper.intact.memory hi.proper.clear hi.stacked hb.created hfurnished
    hlent
  refine yields_pure ⟨child, hc, rfl, ?_, ?_, fun j hj hjc => ?_, hspaces, frame, hstack⟩
  · rw [← hi.others child (hb.other hi), hb.unknown]
  · rw [hst₆.records, Function.update_self]
    exact ⟨_, rfl, rfl, rfl, rfl, rfl⟩
  · rw [hst₆.records, Function.update_of_ne hjc, hi.others j hj]

theorem yields_cloneWith_rears (hp : Proper n m.kernel.envs m.kernel.memory) (hf : m.kernel.envs.find? id = some e)
    (hs : e.space = some h) : Yields cpu id (Program.cloneWith visit).run m (either
      (fun side m' => ∃ child hc, side = .parent child ∧ Reared id child h hc m m') fun _ _ => True) := by
  refine Yields.bind_part (yields_installHandler hp hf hs).adapt_any fun _ m₁ hi => ?_
  refine Yields.bind_part (yields_begetting hi.proper).adapt_any fun child m₂ h₂ => ?_
  obtain ⟨hc, hb⟩ := h₂
  rw [hb.isSelf]
  exact yields_rearing hvisit hi hb

end rearing

theorem yields_copyFork_rears (hp : Proper n m.kernel.envs m.kernel.memory) (hf : m.kernel.envs.find? id = some e)
    (hs : e.space = some h) : Yields cpu id Program.copyFork.run m (either
      (fun side m' => ∃ child hc, side = .parent child ∧ Reared id child h hc m m') fun _ _ => True) :=
  yields_cloneWith_rears (fun _ _ _ _ _ => lends_duplicatePage) hp hf hs

theorem yields_shareFork_rears (hp : Proper n m.kernel.envs m.kernel.memory) (hf : m.kernel.envs.find? id = some e)
    (hs : e.space = some h) : Yields cpu id Program.shareFork.run m (either
      (fun side m' => ∃ child hc, side = .parent child ∧ Reared id child h hc m m') fun _ _ => True) :=
  yields_cloneWith_rears (fun _ _ _ _ _ => lends_sharePageOrStack) hp hf hs

namespace Offspring

variable {cf pf : Nat → PageFlags → PageFlags} {w : Nat} (ho : Offspring n id child h hc cf pf m m')
include ho

theorem duplicated {x : Mapping} (hw : pageBase w ≠ exceptionPage) (hx : m.kernel.memory.mapping? h w = some x)
    (hopen : x.flags.contains (accessNeeds false) = true) :
    m'.kernel.memory.mapping? hc w = some ⟨x.frame, cf (pageBase w) x.flags⟩ ∧
      m'.kernel.memory.mapping? h w = some ⟨x.frame, pf (pageBase w) x.flags⟩ := by
  obtain ⟨memory, hprep, hcl⟩ := ho.pages
  obtain ⟨hp, hc, -⟩ := hcl.visited w x hw ((hprep.parent w hw).trans hx) hopen
  exact ⟨hc, hp⟩

theorem passed (hw : pageBase w ≠ exceptionPage) (hclosed : ¬m.kernel.memory.Open h w false) :
    m'.kernel.memory.mapping? hc w = none ∧ m'.kernel.memory.mapping? h w = m.kernel.memory.mapping? h w := by
  obtain ⟨memory, hprep, hcl⟩ := ho.pages
  obtain ⟨hp, hc⟩ := hcl.rest w fun _ hopen => hclosed (by rwa [Open, ← hprep.parent w hw])
  exact ⟨hc.trans (hprep.child w hw), hp.trans (hprep.parent w hw)⟩

/-- Where the visits defer a copy both sides have the flags for it, and elsewhere the parent keeps its own. -/
theorem mapped {D : Nat → Prop} [DecidablePred D] {x : Mapping}
    (hcf : ∀ b f, cf b f = if D b then Program.childFlags f else f &&& PageFlags.requestable)
    (hpf : ∀ b f, pf b f = if D b then Program.parentFlags f else f)
    (hw : pageBase w ≠ exceptionPage) (hx : m.kernel.memory.mapping? h w = some x)
    (hopen : x.flags.contains (accessNeeds false) = true) :
    (D (pageBase w) ∧ Program.needsCopy (x.flags &&& PageFlags.requestable) = true →
      m'.kernel.memory.mapping? hc w = some ⟨x.frame, Program.copyOnWrite (x.flags &&& PageFlags.requestable)⟩ ∧
      m'.kernel.memory.mapping? h w = some ⟨x.frame, Program.copyOnWrite (x.flags &&& PageFlags.requestable)⟩) ∧
    (¬(D (pageBase w) ∧ Program.needsCopy (x.flags &&& PageFlags.requestable) = true) →
      m'.kernel.memory.mapping? hc w = some ⟨x.frame, x.flags &&& PageFlags.requestable⟩ ∧
      m'.kernel.memory.mapping? h w = some x) := by
  have hboth := ho.duplicated hw hx hopen
  rw [hcf, hpf, Program.childFlags, Program.parentFlags] at hboth
  refine ⟨fun hdef => ?_, fun hnot => ?_⟩
  · obtain ⟨hD, hn⟩ := hdef
    simpa only [if_pos hD, if_pos hn] using hboth
  · by_cases hD : D (pageBase w)
    · have hn : ¬Program.needsCopy (x.flags &&& PageFlags.requestable) = true := fun hn => hnot ⟨hD, hn⟩
      simpa only [if_pos hD, if_neg hn] using hboth
    · simpa only [if_neg hD] using hboth

end Offspring

/-- The spaces of other environments are none of the two. -/
theorem Reared.strangers {cf pf : Nat → PageFlags → PageFlags} {j : Env.Id} {x : Env} (hr : Reared id child h hc m m')
    (ho : Offspring n id child h hc cf pf m m') (hj : j ≠ id) (hx : m.kernel.envs.find? j = some x)
    (hi : x.space = some i) (w : Nat) :
    m'.kernel.memory.mapping? i w = m.kernel.memory.mapping? i w := by
  have hxr := records_of_find? hx
  have hjc : j ≠ child := by
    rintro rfl
    rw [hr.unknown] at hxr
    cases hxr
  obtain ⟨y, hy, hybare⟩ := find?_of_records ((hr.others j hj hjc).trans hxr)
  have hyspace : y.space = some i := (congrArg Env.space hybare).trans hi
  have hapart : ∀ k z, (∃ r, m'.kernel.envs.records k = some r ∧ r.space = some z) → j ≠ k → i ≠ z := by
    rintro k z ⟨r, hrk, hrz⟩ hne rfl
    obtain ⟨v, hv, rfl⟩ := find?_of_records hrk
    refine hne ?_
    rw [← id_of_find? hy, ← id_of_find? hv, ho.proper.intact.owner_unique hy hv hyspace hrz]
  obtain ⟨parent, hparent, hown, -⟩ := ho.owner
  obtain ⟨r, hborn, hspace, -⟩ := hr.born
  exact hr.spaces i w (hapart id h ⟨parent, hparent, hown⟩ hj) (hapart child hc ⟨r, hborn, hspace⟩ hjc)

theorem Reared.spaceOf_child (hr : Reared id child h hc m m') : m'.kernel.spaceOf child = .ok hc := by
  obtain ⟨r, hborn, hspace, -⟩ := hr.born
  obtain ⟨y, hy, rfl⟩ := find?_of_records hborn
  exact Kernel.spaceOf_of_find? hy hspace

def Defers (r : Request) (w : Nat) (f : PageFlags) : Prop :=
  (r = .copyFork ∨ pageBase w = stackPage) ∧
    (f.contains PageFlags.writable = true ∨ f.contains PageFlags.cow = true)

/-- The page of `w` after a clone: if the parent has `x` there, present and open to user mode, both sides have its
frame, and otherwise only the parent has what it had. -/
structure Twinned (r : Request) (m m' : Memory) (h hc : Handle) (w : Nat) : Prop where
  deferred : ∀ x, m.mapping? h w = some x → x.flags.contains (PageFlags.present ||| PageFlags.user) = true →
    Defers r w (x.flags &&& PageFlags.requestable) →
      m'.mapping? hc w = some ⟨x.frame, Program.copyOnWrite (x.flags &&& PageFlags.requestable)⟩ ∧
      m'.mapping? h w = some ⟨x.frame, Program.copyOnWrite (x.flags &&& PageFlags.requestable)⟩
  shared : ∀ x, m.mapping? h w = some x → x.flags.contains (PageFlags.present ||| PageFlags.user) = true →
    ¬Defers r w (x.flags &&& PageFlags.requestable) →
      m'.mapping? hc w = some ⟨x.frame, x.flags &&& PageFlags.requestable⟩ ∧ m'.mapping? h w = some x
  passed : (∀ x, m.mapping? h w = some x → x.flags.contains (PageFlags.present ||| PageFlags.user) = false) →
    m'.mapping? hc w = none ∧ m'.mapping? h w = m.mapping? h w

theorem Offspring.twinned {cf pf : Nat → PageFlags → PageFlags} {D : Nat → Prop} [DecidablePred D] {r : Request}
    {w : Nat} (ho : Offspring n id child h hc cf pf m m')
    (hcf : ∀ b f, cf b f = if D b then Program.childFlags f else f &&& PageFlags.requestable)
    (hpf : ∀ b f, pf b f = if D b then Program.parentFlags f else f)
    (hD : D (pageBase w) ↔ r = .copyFork ∨ pageBase w = stackPage) (hw : pageBase w ≠ exceptionPage) :
    Twinned r m.kernel.memory m'.kernel.memory h hc w := by
  have hdefers : ∀ f, Defers r w f ↔ D (pageBase w) ∧ Program.needsCopy f = true := fun f => by
    rw [Defers, Program.needsCopy_iff, hD]
  refine ⟨fun x hx hopen hdef => ?_, fun x hx hopen hdef => ?_, fun hclosed => ?_⟩
  · exact (ho.mapped hcf hpf hw hx hopen).1 ((hdefers _).mp hdef)
  · exact (ho.mapped hcf hpf hw hx hopen).2 fun h' => hdef ((hdefers _).mpr h')
  · refine ho.passed hw fun hloads => ?_
    obtain ⟨x, hx, hopen⟩ := hloads
    have hno := hclosed x hx
    rw [show x.flags.contains (PageFlags.present ||| PageFlags.user) = true from hopen] at hno
    cases hno

/-- One run, seen twice: what it does to the pages, and what it leaves alone. The child is the same. -/
theorem offspring_reared {p : Program.Part ForkError Side} {cf pf : Nat → PageFlags → PageFlags}
    (hpages : Yields cpu id p.run m (either (fun side m' => ∃ child hc, side = .parent child ∧
      Offspring n id child h hc cf pf m m') fun cause m' => Leaves id m m' cause))
    (hrest : Yields cpu id p.run m (either (fun side m' => ∃ child hc, side = .parent child ∧
      Reared id child h hc m m') fun _ _ => True))
    (hd : drive cpu id budget (p.run.andThen fun r => .done (.side r)) m = some (.side (.ok (.parent child)), m')) :
    ∃ hc, Offspring n id child h hc cf pf m m' ∧ Reared id child h hc m m' := by
  obtain ⟨_, hok, hq⟩ := hpages.of_drive hd
  cases hok
  obtain ⟨_, hc, hside, ho⟩ := hq
  cases hside
  obtain ⟨_, hok, hq⟩ := hrest.of_drive hd
  cases hok
  obtain ⟨_, hc', hside, hreared⟩ := hq
  cases hside
  obtain ⟨r, hr, hspace, -⟩ := ho.born
  obtain ⟨r', hr', hspace', -⟩ := hreared.born
  obtain rfl := Option.some.inj (hr.symm.trans hr')
  obtain rfl : hc = hc' := Option.some.inj (hspace.symm.trans hspace')
  exact ⟨hc, ho, hreared⟩

/-- A clone that comes back with a child has made these mappings: apart from the exception page, the child has exactly
the pages of its parent that are present and open to user mode, with the same frames. Where a copy is deferred both
sides have them copy-on-write and not writable; elsewhere the child has what a program may ask for of their flags, and
the parent has what it had. The exception page of the child is new, the child may run, with its upcall and its parent,
and no mapping of another environment has changed. -/
theorem clone_maps {r : Request} (hr : m.kernel.Reachable) (hf : m.kernel.envs.find? id = some e)
    (hs : e.space = some h) (hclone : r = .copyFork ∨ r = .shareFork)
    (hd : drive cpu id budget (r.program patience) m = some (.side (.ok (.parent child)), m')) :
    ∃ hc, Reared id child h hc m m' ∧
      (∀ w, pageBase w ≠ exceptionPage → Twinned r m.kernel.memory m'.kernel.memory h hc w) ∧
      ∀ j x i w, j ≠ id → m.kernel.envs.find? j = some x → x.space = some i →
        m'.kernel.memory.mapping? i w = m.kernel.memory.mapping? i w := by
  obtain ⟨n, hp⟩ := hr.proper
  rcases hclone with rfl | rfl
  · obtain ⟨hc, ho, hreared⟩ := offspring_reared (yields_copyFork hp hf hs) (yields_copyFork_rears hp hf hs) hd
    refine ⟨hc, hreared, fun w hw => ?_, fun j x i w hj hx hi => hreared.strangers ho hj hx hi w⟩
    exact ho.twinned (D := fun _ => True) (fun _ _ => (if_pos trivial).symm) (fun _ _ => (if_pos trivial).symm)
      (by simp) hw
  · obtain ⟨hc, ho, hreared⟩ := offspring_reared (yields_shareFork hp hf hs) (yields_shareFork_rears hp hf hs) hd
    refine ⟨hc, hreared, fun w hw => ?_, fun j x i w hj hx hi => hreared.strangers ho hj hx hi w⟩
    exact ho.twinned (D := fun b => b = stackPage) (fun _ _ => rfl) (fun _ _ => rfl) (by simp) hw

/-- The writable page of `owner` is copy-on-write on both sides after `copyFork`, and writable on both after
`shareFork`. -/
theorem clone_maps_owner : (owner Program.dataPage).kernel.Reachable ∧
    (∃ m', drive ⟨0⟩ ⟨0x401⟩ 12 (Request.copyFork.program 0) (owner Program.dataPage) =
        some (.side (.ok (.parent ⟨0x402⟩)), m') ∧
      m'.kernel.memory.mapping? ⟨2⟩ 0x300000 = some ⟨⟨2⟩, lazyPage⟩ ∧
      m'.kernel.memory.mapping? ⟨1⟩ 0x300000 = some ⟨⟨2⟩, lazyPage⟩) ∧
    ∃ m', drive ⟨0⟩ ⟨0x401⟩ 12 (Request.shareFork.program 0) (owner Program.dataPage) =
        some (.side (.ok (.parent ⟨0x402⟩)), m') ∧
      m'.kernel.memory.mapping? ⟨2⟩ 0x300000 = some ⟨⟨2⟩, Program.dataPage⟩ ∧
      m'.kernel.memory.mapping? ⟨1⟩ 0x300000 = some ⟨⟨2⟩, Program.dataPage⟩ := by
  obtain ⟨hreach, ⟨e, hf, hs⟩, hpage⟩ := owner_ready
  have hopen : Program.dataPage.contains (PageFlags.present ||| PageFlags.user) = true := by decide
  have hwritable : (Program.dataPage &&& PageFlags.requestable).contains PageFlags.writable = true := by decide
  refine ⟨hreach, ?_, ?_⟩
  · obtain ⟨m', hd, hready⟩ := copyFork_owner
    obtain ⟨hc, hreared, htwinned, -⟩ := clone_maps hreach hf hs (.inl rfl) hd
    obtain rfl : (⟨2⟩ : Handle) = hc := Except.ok.inj (hready.2.1.symm.trans hreared.spaceOf_child)
    exact ⟨m', hd, (htwinned 0x300000 (by decide)).deferred _ hpage hopen ⟨.inl rfl, .inl hwritable⟩⟩
  · obtain ⟨m', hd, hready⟩ := shareFork_owner
    obtain ⟨hc, hreared, htwinned, -⟩ := clone_maps hreach hf hs (.inr rfl) hd
    obtain rfl : (⟨2⟩ : Handle) = hc := Except.ok.inj (hready.2.1.symm.trans hreared.spaceOf_child)
    refine ⟨m', hd, (htwinned 0x300000 (by decide)).shared _ hpage hopen fun hdef => ?_⟩
    rcases hdef.1 with hfork | hstack
    · cases hfork
    · exact absurd hstack (by decide)

end Simulation.Machine

end Exokernel
