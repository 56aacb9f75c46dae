import Exokernel.Proofs.User.Upcalls

/-!
# A store that mends its page

A store to a copy-on-write page faults, and the fault enters the trampoline, whose handler exchanges the page for a
private copy in three calls. The program is back at its store then, with the stack pointer that it had, and only its
exception page shows other bytes.
-/

set_option autoImplicit false

namespace Exokernel

open Env (Id)
open Env.Table

namespace Kernel

variable {cpu : Cpu} {k : Kernel} {id : Id} {e : Env} {entry : Mapping} {h : Handle} {va srcva dstva : Word}
  {perm : PageFlags} {memory : Memory}

section edits

variable (hf : k.envs.find? id = some e) (hs : e.space = some h)
include hf

theorem authorize_self : authorize id .self k = .done id k := by
  have hl : k.envs.lookup .self (some id) true = .ok e := by
    rw [lookup_eq, show Env.Id.isSelf .self = true from rfl, if_pos rfl, get_of_find? hf]
    exact if_pos (.inl (id_of_find? hf))
  rw [authorize_of_lookup hl, id_of_find? hf]

include hs

theorem allocPage_self (hm : Memory.allocPage h va.toNat perm k.memory = .done () memory) :
    perform cpu id (.allocPage .self va perm) k = .done {} { k with memory } := by
  rw [perform, allocPage, Action.bind_done (authorize_self hf), Action.bind_done (spaceFor_done hf hs),
    Action.mapError_bind_done (onMemory_done hm)]
  rfl

theorem mapPage_self (he : k.memory.mapping? h srcva.toNat = some entry)
    (hopen : entry.flags.contains (PageFlags.present ||| PageFlags.user) = true)
    (hw : entry.flags.contains PageFlags.writable = true)
    (hm : Memory.insert h entry.frame dstva.toNat perm k.memory = .done () memory) :
    perform cpu id (.mapPage .self srcva .self dstva perm) k = .done {} { k with memory } := by
  obtain ⟨s, hsp, hl⟩ := Option.bind_eq_some_iff.mp he
  have hlook : k.memory.lookup h srcva.toNat = .ok (some entry) := by
    simp only [Memory.lookup, Memory.space, hsp, Except.map, hl]
  rw [perform, mapPage, Action.bind_done (authorize_self hf), Action.bind_done (authorize_self hf),
    Action.bind_done (spaceFor_done hf hs), Action.bind_done (spaceFor_done hf hs), Action.state_bind, hlook]
  simp only [Except.mapError, Action.ofExcept_ok_bind, hopen, hw, Bool.not_true, Bool.and_false, Bool.false_eq_true,
    if_false]
  rw [Action.mapError_bind_done (onMemory_done hm)]
  rfl

theorem unmapPage_self {r : Option Mapping} (hva : isUserPage va.toNat = true)
    (hm : Memory.remove h va.toNat k.memory = .done r memory) :
    perform cpu id (.unmapPage .self va) k = .done {} { k with memory } := by
  rw [perform, unmapPage, Action.bind_done (authorize_self hf), Call.pageArgument, if_pos hva, Action.lift_ok_bind,
    Action.bind_done (spaceFor_done hf hs), Action.mapError_bind_done (onMemory_done hm)]
  rfl

end edits

end Kernel

namespace Call

variable {va va' : Word}

theorem envArgument_self : envArgument Env.Id.self.toWord = .ok .self := rfl

theorem permArgument_dataPage : permArgument Program.dataPage.bits = .ok Program.dataPage := rfl

theorem decode_allocPage_self (hva : isUserPage va.toNat = true) :
    CallTable.standard.decode (allocPage .self va Program.dataPage).number
      (allocPage .self va Program.dataPage).arguments =
      .ok (allocPage .self va Program.dataPage) := by
  have hpage : pageArgument va = .ok va := if_pos hva
  show (envArgument Env.Id.self.toWord >>= fun env => pageArgument va >>= fun v =>
    permArgument Program.dataPage.bits >>= fun perm => pure (allocPage env v perm)) = _
  rw [envArgument_self, hpage, permArgument_dataPage]
  rfl

theorem decode_mapPage_self (hva : isUserPage va.toNat = true) (hva' : isUserPage va'.toNat = true) :
    CallTable.standard.decode (mapPage .self va .self va' Program.dataPage).number
      (mapPage .self va .self va' Program.dataPage).arguments = .ok (mapPage .self va .self va' Program.dataPage) := by
  have hpage : pageArgument va = .ok va := if_pos hva
  have hpage' : pageArgument va' = .ok va' := if_pos hva'
  show (envArgument Env.Id.self.toWord >>= fun src => pageArgument va >>= fun v =>
    envArgument Env.Id.self.toWord >>= fun dst => pageArgument va' >>= fun w =>
    permArgument Program.dataPage.bits >>= fun perm => pure (mapPage src v dst w perm)) = _
  rw [envArgument_self, hpage, hpage', permArgument_dataPage]
  rfl

theorem decode_unmapPage_self : CallTable.standard.decode (unmapPage .self va).number (unmapPage .self va).arguments =
    .ok (unmapPage .self va) := by
  show (envArgument Env.Id.self.toWord >>= fun env => pure (unmapPage env va)) = _
  rw [envArgument_self]
  rfl

end Call

namespace Simulation.Machine

variable {n count : Nat} {cpu : Cpu} {id : Env.Id} {h : Handle} {m m' : Machine} {e : Mapping} {c : Call}
  {memory : Memory}

theorem costs_step (cpu : Cpu) (hf : ∃ e, m.kernel.envs.find? id = some e)
    (hdec : CallTable.standard.decode c.number c.arguments = .ok c)
    (hd : Kernel.perform cpu id c (m.kernel.saved id (m.calling c).live) =
      .done {} { m.kernel.saved id (m.calling c).live with memory }) :
    ∃ m', Costs cpu id (Program.step c).run m 1 (.ok ()) m' ∧ m.Beside m' ∧ m'.kernel.memory = memory ∧
      m'.live.sp = m.live.sp := by
  obtain ⟨e, hf⟩ := hf
  obtain ⟨m', hcost, hrest⟩ := costs_call hf hdec hd
  exact ⟨m', hcost.adapt _, hrest⟩

open Memory

theorem costs_load {va : Word} {bytes : Bytes} (hk : m.kernel.spaceOf id = .ok h)
    (hr : readUser h va.toNat count m.kernel.memory = .done bytes m.kernel.memory) :
    Costs cpu id (Program.read va count) m 0 bytes m :=
  costs_read ((Kernel.userRead_eq hk ..).trans (Kernel.onMemory_done hr))

theorem costs_store {va : Word} {data : Bytes} (cpu : Cpu) (hk : m.kernel.spaceOf id = .ok h)
    (hw : writeUser h va.toNat data m.kernel.memory = .done () memory) :
    ∃ m', Costs cpu id (Program.write va data) m 0 () m' ∧ m.Beside m' ∧ m'.kernel.memory = memory ∧
      m'.live.sp = m.live.sp :=
  ⟨_, costs_write ((Kernel.userWrite_eq hk ..).trans (Kernel.onMemory_done hw)), ⟨rfl, .refl _, rfl⟩, rfl, rfl⟩

theorem code_storeFault (va : Nat) : (storeFault va).code.contains
    (FaultCode.protection ||| FaultCode.write ||| FaultCode.user) = true :=
  show (storeFault 0).code.contains _ = true by decide

structure Mends (n count : Nat) (h : Handle) (base : Nat) (m m' : Machine) : Prop where
  beside : m.Beside m'
  mended : Mended m.kernel.memory m'.kernel.memory h base
  proper : Proper n m'.kernel.envs m'.kernel.memory
  stocked : Stocked count m'.kernel.memory
  charted : Charted m.kernel.memory m'.kernel.memory
  toll : m'.kernel.memory.toll h scratchPage = 0

section repair

variable {base : Nat} {scratch page : Word} {r : FaultRecord} (cpu : Cpu)
  (hp : Proper n m.kernel.envs m.kernel.memory)
  (hs : Stocked (count + 1 + m.kernel.memory.toll h scratchPage) m.kernel.memory)
include hp hs

section call

variable {owner : Env} (hf : m.kernel.envs.find? id = some owner) (hspace : owner.space = some h)
  (hfree : m.kernel.memory.mapping? h scratchPage = none)
include hf hspace hfree

/-- The five steps that exchange the page `base` for a copy. -/
theorem costs_exchange (hscratch : scratch.toNat = scratchPage) (hpage : page.toNat = base)
    (hbase : pageBase base = base) (ho : m.kernel.memory.Open h base false) : ∃ m', Costs cpu id (do
        Program.step (.allocPage .self scratch Program.dataPage)
        let bytes ← Program.read page pageSize
        Program.write scratch bytes
        Program.step (.mapPage .self scratch .self page Program.dataPage)
        Program.step (.unmapPage .self scratch) : Program.Part ForkError Unit).run m 3 (.ok ()) m' ∧
      Mends n count h base m m' ∧ m'.live.sp = m.live.sp := by
  have hne : base ≠ scratchPage := by
    rintro rfl
    obtain ⟨entry, he, -⟩ := ho
    rw [hfree] at he
    cases he
  have huser : isUserPage scratch.toNat = true := by
    rw [hscratch]
    decide
  have huser' : isUserPage page.toNat = true := by
    have hlt := ho.lt_utop hp.intact.memory
    have hmod := pageBase_mod base
    rw [hbase] at hmod
    rw [hpage, isUserPage, aligned, hmod]
    simpa using hlt
  obtain ⟨m₁, bytes, m₂, frame, halloc, hread, hwrite, hp₂, ⟨hs₂, hc₂, ht₂⟩, hfilled⟩ := hp.fills hbase hne ho hs
  obtain ⟨m₃, r, m₄, hnew, hinsert, hremove, hp₄, ⟨hs₄, hc₄⟩, hmended⟩ :=
    hp₂.swaps hfilled hbase hne ho hp.intact.memory hfree hs₂
  rw [← hscratch] at halloc hwrite hnew hremove
  rw [← hpage] at hread hinsert
  have hwritable : Program.dataPage.contains PageFlags.writable = true := by decide
  have howns : ∀ m₁ : Machine, m.Beside m₁ → ∃ e, m₁.kernel.envs.find? id = some e ∧ e.space = some h := by
    intro m₁ hb
    obtain ⟨e, hf', hbare⟩ := find?_of_records (hb.envs.symm ▸ records_of_find? hf)
    exact ⟨e, hf', (congrArg Env.space hbare).trans hspace⟩
  obtain ⟨M₁, h₁, b₁, rfl, sp₁⟩ := costs_step cpu ⟨owner, hf⟩ (Call.decode_allocPage_self huser)
    (Kernel.allocPage_self (Kernel.find?_saved hf) hspace halloc)
  obtain ⟨e₁, hf₁, hspace₁⟩ := howns M₁ b₁
  have hk₁ := Kernel.spaceOf_of_find? hf₁ hspace₁
  obtain ⟨M₂, h₂, b₂, rfl, sp₂⟩ := costs_store cpu hk₁ hwrite
  obtain ⟨e₂, hf₂, hspace₂⟩ := howns M₂ (b₁.trans b₂)
  obtain ⟨M₃, h₃, b₃, rfl, sp₃⟩ := costs_step cpu ⟨e₂, hf₂⟩ (Call.decode_mapPage_self huser huser')
    (Kernel.mapPage_self (Kernel.find?_saved hf₂) hspace₂ hnew (dataPage_open false) hwritable hinsert)
  obtain ⟨e₃, hf₃, hspace₃⟩ := howns M₃ (b₁.trans (b₂.trans b₃))
  obtain ⟨M₄, h₄, b₄, rfl, sp₄⟩ := costs_step cpu ⟨e₃, hf₃⟩ Call.decode_unmapPage_self
    (Kernel.unmapPage_self (Kernel.find?_saved hf₃) hspace₃ huser hremove)
  have hb := b₁.trans (b₂.trans (b₃.trans b₄))
  refine ⟨M₄, ?_, ⟨hb, hmended, hp₄.touched hb.touched, hs₄, hc₂.trans hc₄, ?_⟩, ?_⟩
  · show Costs cpu id _ m (1 + (0 + (0 + (1 + 1)))) (Except.ok ()) M₄
    refine h₁.bind_ok ?_
    refine (costs_load hk₁ hread).lift.bind_ok ?_
    refine h₂.lift.bind_ok ?_
    exact h₃.bind_ok h₄
  · exact Nat.le_zero.mp (ht₂ ▸ hc₄ h scratchPage)
  · exact sp₄.trans (sp₃.trans (sp₂.trans sp₁))

/-- The handler copies a copy-on-write page that a store of the program ran into. -/
theorem costs_copyPage (he : m.kernel.memory.mapping? h r.va.toNat = some e)
    (hcow : e.flags.contains PageFlags.cow = true) (ho : e.flags.contains (accessNeeds false) = true)
    (hcode : (⟨r.err⟩ : FaultCode).contains (FaultCode.protection ||| FaultCode.write ||| FaultCode.user) = true) :
    ∃ m', Costs cpu id (Program.copyPage r).run m 3 (.ok ()) m' ∧
    Mends n count h (pageBase r.va.toNat) m m' ∧ m'.live.sp = m.live.sp := by
  have hself := pageBase_pageBase r.va.toNat
  have hopen : m.kernel.memory.Open h (pageBase r.va.toNat) false := Open.congr ⟨e, he, ho⟩ hself
  have hword := toNat_userPage (hopen.lt_utop hp.intact.memory)
  have hscratch := toNat_userPage scratchPage_spec.2
  obtain ⟨m', hcost, hrest⟩ := costs_exchange cpu hp hs hf hspace hfree hscratch hword hself hopen
  have hk := Kernel.spaceOf_of_find? hf hspace
  refine ⟨m', ?_, hrest⟩
  have hspan : Costs cpu id (Program.spanAt r.va) m 0 true m := by
    rw [← Kernel.spanPresent_of_mapping hp.intact.memory hk he]
    exact costs_spanAt r.va
  have hentry : Costs cpu id (Program.entryAt r.va) m 0 (some e.flags) m := by
    rw [← Kernel.pageEntry_of_mapping hk he]
    exact costs_entryAt r.va
  show Costs cpu id _ m (0 + (0 + 3)) (Except.ok ()) m'
  refine hspan.lift.bind_ok ?_
  refine hentry.lift.bind_ok ?_
  simp only [hcode, hcow, Option.map_some, Option.getD_some, Bool.not_true, Bool.or_self, Bool.false_eq_true, if_false]
  exact hcost

end call

/-- The trampoline mends the page of the fault that it finds recorded, and goes back to where the fault came from. -/
theorem costs_trampoline (hq : m.Equipped id h) (he : m.kernel.memory.mapping? h r.va.toNat = some e)
    (hcow : e.flags.contains PageFlags.cow = true) (ho : e.flags.contains (accessNeeds false) = true)
    (hcode : (⟨r.err⟩ : FaultCode).contains (FaultCode.protection ||| FaultCode.write ||| FaultCode.user) = true)
    (hsp : m.live.sp = UInt64.ofNat Kernel.recordBase)
    (hr : (m.kernel.memory.view h).read Kernel.recordBase FaultRecord.size = r.encode) :
    ∃ m', Costs cpu id Program.trampoline m 3 () m' ∧ Mends n count h (pageBase r.va.toNat) m m' ∧
      m'.live.sp = r.sp := by
  obtain ⟨owner, hf, hspace, -⟩ := hq.found
  obtain ⟨m₁, hcost, hm, -⟩ := costs_copyPage cpu hp hs hf hspace hq.scratch he hcow ho hcode
  refine ⟨{ m₁ with live := m₁.live.restore r }, ?_,
    ⟨⟨hm.beside.envs, hm.beside.touched, hm.beside.handlers⟩, hm.mended, hm.proper, hm.stocked, hm.charted, hm.toll⟩,
    rfl⟩
  have hword : (UInt64.ofNat Kernel.recordBase).toNat = Kernel.recordBase := by decide
  have hload : readUser h (UInt64.ofNat Kernel.recordBase).toNat FaultRecord.size m.kernel.memory =
      .done r.encode m.kernel.memory := by
    rw [hword, ← hr]
    exact readUser_view _ _ hp.intact.memory fun k hk => hq.stack.read.congr (Kernel.pageBase_record hk)
  have hhandler : Costs cpu id (Program.getHandler .done) m 0 (some .copyOnWrite) m := by
    rw [← hq.handler]
    exact costs_getHandler
  show Costs cpu id _ m (0 + (0 + (0 + (3 + 0)))) () _
  refine costs_stackPointer.bind ?_
  rw [hsp]
  refine (costs_load hq.space hload).bind ?_
  simp only [FaultRecord.decode_encode]
  refine hhandler.bind ?_
  refine Costs.bind hcost ?_
  exact costs_resume r

end repair

/-- A store of an equipped program to a page that waits for its copy faults, and the trampoline mends the page. -/
theorem takes_repair {va : Nat} {watched : Handle → Nat → Prop} (cpu : Cpu)
    (hp : Proper n m.kernel.envs m.kernel.memory) (hq : m.Equipped id h)
    (hs : Stocked (count + 1 + m.kernel.memory.toll h scratchPage) m.kernel.memory)
    (hsp : onExceptionStack m.live.sp.toNat = false) (hwatched : ∀ w, pageBase w = exceptionPage → watched h w)
    (ha : Alone watched m.kernel.memory h exceptionPage) (he : m.kernel.memory.mapping? h va = some e)
    (hl : e.isLazy = true) (ho : e.flags.contains (accessNeeds false) = true) :
    ∃ m₁ m₂, (m.faulting (storeFault va)).take cpu id = some m₁ ∧ m₁.live.ip.toNat = upcallEntry ∧
      Costs cpu id Program.trampoline m₁ 3 () m₂ ∧ m.Beside m₁ ∧
      (∃ bytes : Bytes, bytes.length = FaultRecord.size ∧
        Wrote watched m.kernel.memory m₁.kernel.memory h Kernel.recordBase bytes) ∧
      Mends n count h (pageBase va) m₁ m₂ ∧ m₂.live.sp = m.live.sp := by
  have hopen : m.kernel.memory.Open h va false := ⟨e, he, ho⟩
  have hva := toNat_userPage (hopen.lt_utop hp.intact.memory)
  obtain ⟨hcow, -⟩ := Bool.and_eq_true_iff.mp hl
  obtain ⟨m₁, htake, hb, hw, hsp₁, hip⟩ := hq.take_faulting cpu hp hsp ha (storeFault va)
  -- The record, as the program will read it.
  generalize hr : (m.faulting (storeFault va)).live.faultRecord (UInt64.ofNat (storeFault va).va) = r at hw
  have hrva : r.va.toNat = va := by
    rw [← hr]
    exact hva
  have hcode : (⟨r.err⟩ : FaultCode).contains (FaultCode.protection ||| FaultCode.write ||| FaultCode.user) = true := by
    rw [← hr]
    exact code_storeFault va
  have hrsp : r.sp = m.live.sp := by
    rw [← hr]
    rfl
  have hread : (m₁.kernel.memory.view h).read Kernel.recordBase FaultRecord.size = r.encode := by
    rw [← FaultRecord.length_encode r]
    refine (Flat.read_congr fun i hi => ?_).trans (Flat.read_write (m.kernel.memory.view h) Kernel.recordBase r.encode)
    rw [FaultRecord.length_encode] at hi
    have hshown := hw.shown h _ (hwatched _ (Kernel.pageBase_record hi))
    rwa [if_pos rfl] at hshown
  have hq₁ := hq.beside hb (hw.open_iff.mpr hq.stack) ((hw.mapping? ..).trans hq.scratch)
  have hp₁ : Proper n m₁.kernel.envs m₁.kernel.memory := (hp.touched hb.touched).stored hw.stored
  have hs₁ : Stocked (count + 1 + m₁.kernel.memory.toll h scratchPage) m₁.kernel.memory := by
    rw [toll_of_spaces hw.stored.spaces]
    exact hw.stocked hs
  obtain ⟨m₂, hcost, hm, hsp₂⟩ := costs_trampoline cpu hp₁ hs₁ hq₁ (hrva.symm ▸ (hw.mapping? ..).trans he) hcow ho
    hcode hsp₁ hread
  rw [hrva] at hm
  refine ⟨m₁, m₂, htake, ?_, hcost, hb, ⟨_, FaultRecord.length_encode r, hw⟩, hm, hsp₂.trans hrsp⟩
  rw [hip]
  decide

end Simulation.Machine

end Exokernel
