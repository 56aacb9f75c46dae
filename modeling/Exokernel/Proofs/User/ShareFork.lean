import Exokernel.Proofs.User.CopyFork

/-!
# Clones with one memory

A page that may be stored to when `shareFork` visits it is the same for parent and child from there on, and no access to
it faults. A page that waits for its copy is shared as it is, so that the first store to it on either side makes a copy:
after that it is not the same page any more.
-/

set_option autoImplicit false

namespace Exokernel

theorem Flags.contains_or {T : FlagTable} {x y z : Flags T} (hy : x.contains y = true) (hz : x.contains z = true) :
    x.contains (y ||| z) = true := by
  have hy' : x.bits &&& y.bits = y.bits := eq_of_beq hy
  have hz' : x.bits &&& z.bits = z.bits := eq_of_beq hz
  show (x.bits &&& (y.bits ||| z.bits) == y.bits ||| z.bits) = true
  refine beq_iff_eq.mpr (UInt64.eq_of_toBitVec_eq ?_)
  rw [UInt64.toBitVec_and, UInt64.toBitVec_or, BitVec.and_or_distrib_left, ← UInt64.toBitVec_and,
    ← UInt64.toBitVec_and, hy', hz']

theorem storable_open {f : PageFlags} (ho : f.contains (Memory.accessNeeds false) = true)
    (hw : f.contains PageFlags.writable = true) : f.contains (Memory.accessNeeds true) = true :=
  Flags.contains_or ho hw

namespace Simulation.Machine

open Memory Env.Table

variable {n base : Nat} {cpu cpu' : Cpu} {id child : Env.Id} {h hc : Handle} {m m' : Machine} {e : Env} {f : Flat}
  {frame : FrameId} {crew : Finset (Env.Id × Handle)}

structure Joined (n base : Nat) (frame : FrameId) (crew : Finset (Env.Id × Handle)) (m : Machine) (f : Flat) :
    Prop where
  proper : Proper n m.kernel.envs m.kernel.memory
  owns : ∀ j i, (j, i) ∈ crew → ∃ r, m.kernel.envs.records j = some r ∧ r.space = some i
  page : ∀ j i w, (j, i) ∈ crew → pageBase w = base → ∃ z, m.kernel.memory.mapping? i w = some z ∧ z.frame = frame ∧
    z.flags.contains (accessNeeds true) = true
  shown : ∀ j i w, (j, i) ∈ crew → pageBase w = base → m.kernel.memory.view i w = f w

namespace Joined

variable (hq : Joined n base frame crew m f)
include hq

theorem live (live : Context) : Joined n base frame crew { m with live } f := ⟨hq.proper, hq.owns, hq.page, hq.shown⟩

theorem space (hi : (id, h) ∈ crew) : m.kernel.spaceOf id = .ok h := by
  obtain ⟨r, hr, hs⟩ := hq.owns id h hi
  obtain ⟨e, hf, rfl⟩ := find?_of_records hr
  exact Kernel.spaceOf_of_find? hf hs

theorem costs_read {va : Word} {count : Nat} (cpu : Cpu) (hi : (id, h) ∈ crew)
    (hr : ∀ k, k < count → pageBase (va.toNat + k) = base) :
    Costs cpu id (Program.read va count) m 0 (f.read va.toNat count) m := by
  have hread := readUser_view va.toNat count hq.proper.intact.memory fun k hk => by
    obtain ⟨z, hz, -, ho⟩ := hq.page id h _ hi (hr k hk)
    exact Open.read ⟨z, hz, ho⟩
  rw [Flat.read_congr (f := f) fun k hk => hq.shown id h _ hi (hr k hk)] at hread
  exact costs_load (hq.space hi) hread

/-- A store of one shows at all. -/
theorem costs_write {va : Word} {data : Bytes} (cpu : Cpu) (hi : (id, h) ∈ crew)
    (hs : ∀ k, k < data.length → pageBase (va.toNat + k) = base) :
    ∃ m', Costs cpu id (Program.write va data) m 0 () m' ∧ Joined n base frame crew m' (f.write va.toNat data) := by
  have hopen : ∀ k, k < data.length → m.kernel.memory.Open h (va.toNat + k) true := fun k hk => by
    obtain ⟨z, hz, -, ho⟩ := hq.page id h _ hi (hs k hk)
    exact ⟨z, hz, ho⟩
  -- Only what the writer sees of the page is watched; the others see the same frame.
  have halone : ∀ k, k < data.length → m.kernel.memory.Open h (va.toNat + k) true →
      Alone (fun i w => i = h ∧ pageBase w = base) m.kernel.memory h (va.toNat + k) :=
    fun k hk _ _ _ i w _ hw _ _ => ⟨hw.1, hw.2.trans (hs k hk).symm⟩
  have hstore := writeUser_view va.toNat data hq.proper.intact.memory hq.proper.clear
    (fun k hk => (hopen k hk).read) halone
  obtain ⟨_, memory, hd, hw, -⟩ := (hstore.mono (fun _ _ h => h) (fun fault _ hx => (by
    obtain ⟨k, hk, -, hclosed, -⟩ := hx
    exact hclosed (hopen k hk) : False)) fun _ h => h).done
  obtain ⟨m', hcost, hb, rfl, -⟩ := costs_store cpu (hq.space hi) hd
  refine ⟨m', hcost, (hq.proper.touched hb.touched).stored hw.stored, fun j i hj => hb.envs ▸ hq.owns j i hj,
    fun j i w hj hw' => ?_, fun j i w hj hw' => ?_⟩
  · rw [hw.mapping?]
    exact hq.page j i w hj hw'
  · obtain ⟨y, hy, hyf, -⟩ := hq.page j i w hj hw'
    obtain ⟨z, hz, hzf, -⟩ := hq.page id h w hi hw'
    have hsame : m'.kernel.memory.view i w = m'.kernel.memory.view h w :=
      view_of_frame ((hw.mapping? h w).trans hz) ((hw.mapping? i w).trans hy) (by rw [hyf, hzf])
    rw [hsame, hw.shown h w ⟨rfl, hw'⟩, if_pos rfl]
    exact Flat.write_at (hq.shown id h w hi hw')

theorem drive_act {a : Act} (cpu : Cpu) (hi : (a.env, h) ∈ crew)
    (ha : a.access.Within (fun b => b = base) fun b => b = base) : ∃ k m',
    (∀ budget, drive cpu a.env budget (a.access.request.program 0) { m with live := a.live } =
      if k ≤ budget then some (a.access.answer f, m') else none) ∧ Joined n base frame crew m' (a.access.after f) := by
  obtain ⟨id, live, access⟩ := a
  cases access with
  | read va count => exact ⟨0, _, drive_read ((hq.live live).costs_read cpu hi (ha.read va count rfl)), hq.live live⟩
  | write va data =>
    obtain ⟨m', hcost, hq'⟩ := (hq.live live).costs_write cpu hi (ha.write va data rfl)
    exact ⟨0, m', drive_write hcost, hq'⟩

omit hq in
theorem plays {acts : List Act} (cpu : Cpu) (hq : Joined n base frame crew m f)
    (ha : ∀ a ∈ acts, (∃ h, (a.env, h) ∈ crew) ∧ a.access.Within (fun b => b = base) fun b => b = base) :
    Plays cpu acts m (together acts f) := by
  induction acts generalizing m f with
  | nil => exact plays_nil
  | cons a rest ih =>
    obtain ⟨⟨h, hi⟩, hin⟩ := ha a (List.mem_cons_self ..)
    obtain ⟨k, m', hd, hq'⟩ := hq.drive_act cpu hi hin
    exact plays_cons hd (ih hq' fun b hb => ha b (List.mem_cons_of_mem _ hb))

end Joined

section pages

variable {cf pf : Nat → PageFlags → PageFlags} {M : Machine} {x : Mapping}

/-- A page that both sides may store to is one page for them. -/
theorem Offspring.joined (ho : Offspring n id child h hc cf pf m m') (hM : M.kernel = m'.kernel)
    (hexception : base ≠ exceptionPage) (hx : ∀ w, pageBase w = base → m.kernel.memory.mapping? h w = some x)
    (hopen : x.flags.contains (accessNeeds false) = true)
    (hflags : ∀ f, f = cf base x.flags ∨ f = pf base x.flags → f.contains (accessNeeds true) = true) :
    Joined n base x.frame (pair id child h hc) M (m.kernel.memory.view h) := by
  have hside : ∀ j i w, (j, i) ∈ pair id child h hc → pageBase w = base → ∃ f, f.contains (accessNeeds true) = true ∧
      m'.kernel.memory.mapping? i w = some ⟨x.frame, f⟩ ∧
      m'.kernel.memory.view i w = m.kernel.memory.view h w := by
    rintro j i w hj rfl
    obtain ⟨f, hf, hmap, hv⟩ := ho.side hj hexception (hx w rfl) hopen
    exact ⟨f, hflags f hf, hmap, hv⟩
  refine ⟨hM ▸ ho.proper, fun j i hj => hM ▸ ho.owns hj, fun j i w hj hw => ?_, fun j i w hj hw => ?_⟩
  · obtain ⟨f, hf, hmap, -⟩ := hside j i w hj hw
    exact ⟨⟨x.frame, f⟩, hM ▸ hmap, rfl, hf⟩
  · obtain ⟨f, -, -, hv⟩ := hside j i w hj hw
    exact hM ▸ hv

/-- A page that waits for its copy on both sides. -/
theorem deferred_page {memory : Memory} (hexception : base ≠ exceptionPage) (hbase : pageBase base = base)
    (hx : ∀ w, pageBase w = base → memory.mapping? h w = some x) (hsole : Sole memory h base)
    (hopen : x.flags.contains (accessNeeds false) = true)
    (hflags : ∀ f, f = cf base x.flags ∨ f = pf base x.flags → f.contains (accessNeeds false) = true ∧
      f.contains PageFlags.writable = false ∧ f.contains PageFlags.cow = true) :
    Deferred memory h cf pf (fun b => b = base) fun b => b = base where
  aside _ hb := hb ▸ hexception
  within _ hb := hb
  sole w hb := hsole.congr (hb.trans hbase.symm)
  closed w hb := ⟨x, hx w hb, hopen, fun f hf => by
    rw [hb] at hf
    exact ⟨(hflags f hf).1, (hflags f hf).2.1⟩⟩
  waiting w e hb he f hf := by
    obtain rfl := Option.some.inj ((hx w hb).symm.trans he)
    rw [hb] at hf
    exact (hflags f hf).2.2

end pages

/-- What `shareFork` makes of a page that user mode may load from, the top page of the stack aside. If it is writable,
then whatever parent and child read and write of it in turn, both see its last bytes. If it is copy-on-write and not
writable, then each of them sees a page of its own, with the bytes that were there and its own stores since. -/
theorem shareFork_page {budget patience : Nat} {code : List Instr} {acts : List Act} {x : Mapping}
    (hr : m.kernel.Reachable) (hf : m.kernel.envs.find? id = some e) (hs : e.space = some h)
    (hbase : pageBase base = base) (hstackPage : base ≠ stackPage) (hexception : base ≠ exceptionPage)
    (hx : m.kernel.memory.mapping? h base = some x) (hopen : x.flags.contains (accessNeeds false) = true)
    (hd : drive cpu id budget (Request.shareFork.program patience) m = some (.side (.ok (.parent child)), m'))
    (hnew : m'.threads.lookup child = none) (hspace : m'.kernel.spaceOf child = .ok hc)
    (hacts : ∀ a ∈ acts, (a.env = id ∨ a.env = child) ∧ onExceptionStack a.live.sp.toNat = false ∧
      a.access.Within (fun b => b = base) fun b => b = base) :
    (x.flags.contains PageFlags.writable = true →
      Plays cpu' acts (m'.attach id child code) (together acts (m.kernel.memory.view h))) ∧
    (x.flags.contains PageFlags.writable = false → x.flags.contains PageFlags.cow = true →
      m.kernel.memory.mapping? h scratchPage = none → Sole m.kernel.memory h base →
      (m.handlers.lookup id ≠ none →
        m.kernel.memory.Open h exceptionPage true ∧ e.upcall = UInt64.ofNat upcallEntry) →
      Stocked (demand (pair id child h hc) m'.kernel.memory) m'.kernel.memory →
      Plays cpu' acts (m'.attach id child code) (apart acts fun _ => m.kernel.memory.view h)) := by
  obtain ⟨n, hp⟩ := hr.proper
  obtain ⟨a, ha, hq⟩ := (yields_shareFork hp hf hs).of_drive hd
  cases ha
  obtain ⟨child', hc', hside, ho⟩ := hq
  cases hside
  obtain rfl := ho.spaceOf_child hspace
  have hx' : ∀ w, pageBase w = base → m.kernel.memory.mapping? h w = some x := fun w hw =>
    (mapping?_congr (hw.trans hbase.symm)).trans hx
  refine ⟨fun hw => ?_, fun hw hcow hscratch hsole hstack hstocked => ?_⟩
  · have hwrite := storable_open hopen hw
    have hjoined := ho.joined (attach_kernel m' id child code) hexception hx' hopen (by
      simp only [if_neg hstackPage]
      rintro f (rfl | rfl)
      · rw [Flags.contains_inter (by decide), hwrite]
      · exact hwrite)
    exact hjoined.plays cpu' fun a ha => ⟨exists_pair (hacts a ha).1, (hacts a ha).2.2⟩
  · have hpoised := ho.poised (attach_kernel ..) (ho.attached code hnew) hf hscratch hstack
      (deferred_page hexception hbase hx' hsole hopen (by
        simp only [if_neg hstackPage]
        rintro f (rfl | rfl)
        · exact ⟨Program.requestable_open hopen, by rw [Flags.contains_inter (by decide), hw],
            by rw [Flags.contains_inter (by decide), hcow]⟩
        · exact ⟨hopen, hw, hcow⟩)) hstocked
    exact hpoised.plays cpu' fun a ha => ⟨exists_pair (hacts a ha).1, (hacts a ha).2⟩

theorem together_writingChild (f : Flat) : together writingChild f = [.nothing, .bytes [1, 2], .bytes [1, 2]] := by
  have hread : (f.write 0x300000 [1, 2]).read 0x300000 2 = [1, 2] := Flat.read_write f 0x300000 [1, 2]
  have hva : (0x300000 : Word).toNat = 0x300000 := rfl
  simp only [writingChild, together, Access.answer, Access.after, hva, hread]

def lazyPage : PageFlags := PageFlags.present ||| PageFlags.user ||| PageFlags.cow

theorem shareFork_owner : ∃ m', drive ⟨0⟩ ⟨0x401⟩ 12 (Request.shareFork.program 0) (owner Program.dataPage) =
    some (.side (.ok (.parent ⟨0x402⟩)), m') ∧ Ready m' := exists_of_side (by decide +kernel)

/-- If its page is writable, the parent reads what the child wrote; if the page waits for its copy, it does not. -/
theorem shareFork_page_owner :
    (∃ m', (owner Program.dataPage).kernel.Reachable ∧
      drive ⟨0⟩ ⟨0x401⟩ 12 (Request.shareFork.program 0) (owner Program.dataPage) =
        some (.side (.ok (.parent ⟨0x402⟩)), m') ∧
      Plays ⟨0⟩ writingChild (m'.attach ⟨0x401⟩ ⟨0x402⟩ []) [.nothing, .bytes [1, 2], .bytes [1, 2]]) ∧
    ∃ m', (owner lazyPage).kernel.Reachable ∧
      drive ⟨0⟩ ⟨0x401⟩ 12 (Request.shareFork.program 0) (owner lazyPage) =
        some (.side (.ok (.parent ⟨0x402⟩)), m') ∧
      Plays ⟨0⟩ writingChild (m'.attach ⟨0x401⟩ ⟨0x402⟩ []) [.nothing, .bytes [0, 0], .bytes [1, 2]] := by
  constructor
  · obtain ⟨hreach, ⟨e, hf, hs⟩, hpage⟩ := owner_ready
    obtain ⟨m', hd, hnew, hspace, -⟩ := shareFork_owner
    refine ⟨m', hreach, hd, ?_⟩
    rw [← together_writingChild ((owner Program.dataPage).kernel.memory.view ⟨1⟩)]
    exact (shareFork_page hreach hf hs rfl (by decide) (by decide) hpage (by decide) hd
      (Option.isNone_iff_eq_none.mp hnew) hspace fun a ha => fair_writingChild rfl rfl ha).1 (by decide)
  · have hreach : (owner lazyPage).kernel.Reachable := reachable_owner (by decide +kernel)
    obtain ⟨m', hd, hnew, hspace, hgrant, hmap, henough⟩ : ∃ m', drive ⟨0⟩ ⟨0x401⟩ 12 (Request.shareFork.program 0)
      (owner lazyPage) = some (.side (.ok (.parent ⟨0x402⟩)), m') ∧ Ready m' := exists_of_side (by decide +kernel)
    have hfound : ((owner lazyPage).kernel.envs.find? ⟨0x401⟩).map Env.space = some (some ⟨1⟩) := by decide +kernel
    obtain ⟨e, hf, hs⟩ := Option.map_eq_some_iff.mp hfound
    have hpage : (owner lazyPage).kernel.memory.mapping? ⟨1⟩ 0x300000 = some ⟨⟨2⟩, lazyPage⟩ := by decide +kernel
    have hpages : mappedPages (owner lazyPage).kernel.memory = [[], [(0x300000, ⟨⟨2⟩, lazyPage⟩)]] := by decide +kernel
    have hzero : ((owner lazyPage).kernel.memory.view ⟨1⟩).read 0x300000 2 = [0, 0] := by decide +kernel
    refine ⟨m', hreach, hd, ?_⟩
    rw [← apart_writingChild hzero]
    exact (shareFork_page hreach hf hs rfl (by decide) (by decide) hpage (by decide) hd
      (Option.isNone_iff_eq_none.mp hnew) hspace fun a ha => fair_writingChild rfl rfl ha).2 (by decide) (by decide)
      (by decide +kernel) (sole_of_mappedPages hpages _) (fun h => absurd rfl h) ⟨hgrant, hmap, henough⟩

end Simulation.Machine

end Exokernel
