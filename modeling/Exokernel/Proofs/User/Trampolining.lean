import Exokernel.Proofs.User.Upcalls

/-!
# Faults and back

The kernel pushes the record of a fault onto the exception stack and the trampoline pops it: delivery and return are
inverse, whatever the context, the address and the code of the handler. A record fits into one page, so it is written
whole or not at all, and a fault that is not delivered leaves no trace.
-/

set_option autoImplicit false

namespace Exokernel

open Env (Id)
open Env.Table

namespace Page

theorem slice_write (p : Page) {offset : Nat} {data : Bytes} (h : offset + data.length ≤ pageSize) :
    (p.write offset data).slice offset data.length = data := by
  rw [slice_eq _ h]
  refine List.ext_getElem (by simp) fun i hi hi' => ?_
  have hin : offset + i < pageSize := by omega
  have hsize : offset + i < (p.write offset data).toArray.size := by rw [Vector.size_toArray]; exact hin
  have hget := get_write p offset data ⟨offset + i, hin⟩
  rw [if_pos (Nat.le_add_right ..), Nat.add_sub_cancel_left, List.getElem?_eq_getElem hi', Option.getD_some] at hget
  rw [List.getElem_map, List.getElem_range, Array.getElem?_eq_getElem hsize, Option.getD_some]
  exact hget

end Page

namespace Memory

variable {count : Nat} {m : Memory} {h : Handle} {va : Nat} {data : Bytes} {f : FrameId} {write : Bool}

theorem open_of_frameFor (hf : m.frameFor h va write = .ok f) : m.Open h va write := by
  unfold frameFor at hf
  split at hf
  · cases hf
  · next e he =>
    split at hf
    · next hneeds => exact ⟨e, he, hneeds⟩
    · cases hf

/-- A store within one page is done whole or not at all. -/
theorem writeUser_within (hdata : data.length ≠ 0) (hfit : va % pageSize + data.length ≤ pageSize)
    (hva : va < addressLimit) : writeUser h va data m = match m.frameFor h va true with
      | .ok f => .done () { m with frames := m.frames.write f (va % pageSize) data }
      | .error fault => .refused fault m := by
  have hchunk : chunk va data.length = data.length := by
    simp only [chunk]
    omega
  rw [writeUser, dif_neg hdata, if_pos hva, Action.state_bind]
  cases m.frameFor h va true with
  | error fault => rfl
  | ok f =>
    have hnone : ∀ (va : Nat) (m : Memory), writeUser h va [] m = .done () m := fun va m => by
      rw [writeUser, dif_pos (List.length_nil)]
      rfl
    rw [Action.lift_ok_bind, Action.modify_bind, hchunk, List.take_length, List.drop_length]
    exact hnone _ _

theorem readUser_within (hcount : count ≠ 0) (hfit : va % pageSize + count ≤ pageSize) (hva : va < addressLimit)
    (hf : m.frameFor h va false = .ok f) :
    readUser h va count m = .done ((m.frames.page f).slice (va % pageSize) count) m := by
  have hchunk : chunk va count = count := by
    simp only [chunk]
    omega
  have hnone : readUser h (va + count) 0 m = .done [] m := by
    rw [readUser, dif_pos rfl]
    rfl
  rw [readUser, dif_neg hcount, if_pos hva, Action.state_bind, hf, Action.lift_ok_bind, hchunk, Nat.sub_self,
    Action.bind_done hnone, List.append_nil]
  rfl

end Memory

namespace Program

def settle (r : FaultRecord) : Except ForkError Unit → Program Unit
  | .ok () => resume r (done ())
  | .error _ => exit

def serve (run : Handler → FaultRecord → Part ForkError Unit) (b : Bytes) : Program Unit :=
  match FaultRecord.decode b with
  | none => exit
  | some r => do
    match ← getHandler done with
    | none => exit
    | some h => settle r (← (run h r).run)

def enter (run : Handler → FaultRecord → Part ForkError Unit) : Program Unit := do
  let sp ← stackPointer done
  serve run (← read sp FaultRecord.size)

theorem trampoline_eq : trampoline = enter handleFault := by
  unfold trampoline enter
  refine congrArg (stackPointer done >>= ·) (funext fun sp => ?_)
  refine congrArg (read sp FaultRecord.size >>= ·) (funext fun b => ?_)
  unfold serve
  cases FaultRecord.decode b with
  | none => rfl
  | some r =>
    refine congrArg (getHandler done >>= ·) (funext fun handler => ?_)
    cases handler with
    | none => rfl
    | some h =>
      refine congrArg ((handleFault h r).run >>= ·) (funext fun result => ?_)
      cases result with
      | ok u => rfl
      | error e => rfl

end Program

namespace Kernel

structure TakesFaults (k : Kernel) (id : Env.Id) (e : Env) (h : Handle) (entry : Mapping) : Prop where
  live : k.envs.find? id = some e
  upcall : e.upcall ≠ 0
  off : onExceptionStack e.context.sp.toNat = false
  space : e.space = some h
  mapped : k.memory.mapping? h exceptionPage = some entry
  flags : entry.flags.contains (PageFlags.present ||| PageFlags.user ||| PageFlags.writable) = true

/-- The record was pushed for `id`: its stack pointer is at the record, its instruction pointer at the upcall, and of
all bytes of memory only the last ones of `frame` were written. -/
structure Pushed (k : Kernel) (id : Env.Id) (frame : FrameId) (r : FaultRecord) (k' : Kernel) : Prop where
  only : k' = { k with envs := k'.envs, memory := { k.memory with frames := k'.memory.frames } }
  envs : k'.envs = k.envs.update id fun e =>
    { e with context := { e.context with sp := UInt64.ofNat recordBase, ip := e.upcall } }
  alike : k.memory.frames.Alike k'.memory.frames
  denyNext : k'.memory.frames.denyNext = k.memory.frames.denyNext
  bytes : ∀ f (i : Fin pageSize), (k'.memory.frames.page f).get i =
    if f = frame ∧ pageSize - FaultRecord.size ≤ i.val then r.encode.getD (i.val - (pageSize - FaultRecord.size)) 0
    else (k.memory.frames.page f).get i

def pushed (k : Kernel) (id : Env.Id) (frame : FrameId) (r : FaultRecord) : Kernel :=
  { k with
    envs := k.envs.update id fun e =>
      { e with context := { e.context with sp := UInt64.ofNat recordBase, ip := e.upcall } },
    memory := { k.memory with frames := k.memory.frames.write frame (recordBase % pageSize) r.encode } }

variable {n : Nat} {k k' : Kernel} {id : Env.Id} {e : Env} {h : Handle} {entry : Mapping} {r : FaultRecord}

theorem recordBase_mod : recordBase % pageSize = pageSize - FaultRecord.size := by decide

theorem pageBase_recordBase : pageBase recordBase = pageBase exceptionPage := by decide

theorem writeUser_record (m : Memory) (h : Handle) (r : FaultRecord) :
    Memory.writeUser h recordBase r.encode m = match m.frameFor h recordBase true with
      | .ok f => .done () { m with frames := m.frames.write f (recordBase % pageSize) r.encode }
      | .error fault => .refused fault m := by
  have hlen := r.length_encode
  refine Memory.writeUser_within ?_ ?_ (by decide)
  · rw [hlen]
    decide
  · rw [hlen]
    decide

section delivery

theorem deliverUpcall_of_takes (ht : k.TakesFaults id e h entry) (va : Word) :
    deliverUpcall id va k = .done (e.context.faultRecord va) (k.pushed id entry.frame (e.context.faultRecord va)) := by
  have hon : ¬onExceptionStack e.context.sp.toNat = true := by
    rw [ht.off]
    decide
  have hmapped := (Memory.mapping?_congr pageBase_recordBase).trans ht.mapped
  have hneeds : entry.flags.contains (Memory.accessNeeds true) = true := ht.flags
  have hwrite := writeUser_record k.memory h (e.context.faultRecord va)
  rw [Memory.frameFor_of_mapping hmapped hneeds] at hwrite
  rw [deliverUpcall, readEnv_mapError_bind _ ht.live]
  simp only [if_neg ht.upcall, if_neg hon, ht.space]
  rw [Action.mapError_bind_done (onMemory_done hwrite)]
  rfl

/-- Whatever else is the case, the fault is refused, and nothing has happened. -/
theorem deliverUpcall_refused (hno : ¬∃ e h entry, k.TakesFaults id e h entry) (va : Word) :
    ∃ cause, deliverUpcall id va k = .refused cause k := by
  rw [deliverUpcall]
  cases hf : k.envs.find? id with
  | none =>
    rw [readEnv_mapError_bind_none _ hf]
    exact ⟨_, rfl⟩
  | some e =>
    rw [readEnv_mapError_bind _ hf]
    by_cases hu : e.upcall = 0
    · simp only [if_pos hu]
      exact ⟨_, rfl⟩
    · simp only [if_neg hu]
      by_cases hon : onExceptionStack e.context.sp.toNat = true
      · simp only [if_pos hon]
        exact ⟨_, rfl⟩
      · simp only [if_neg hon]
        cases hs : e.space with
        | none => exact ⟨_, rfl⟩
        | some h =>
          have hwrite := writeUser_record k.memory h (e.context.faultRecord va)
          cases hframe : k.memory.frameFor h recordBase true with
          | error fault =>
            rw [hframe] at hwrite
            have hrefused : (onMemory (Memory.writeUser h recordBase (e.context.faultRecord va).encode)).mapError
                UpcallError.stackFault k = .refused (.stackFault fault) k := by
              rw [Action.mapError, onMemory_refused hwrite]
            exact ⟨_, Action.bind_refused hrefused⟩
          | ok f =>
            obtain ⟨entry, hm, hflags⟩ := Memory.open_of_frameFor hframe
            rw [Memory.mapping?_congr pageBase_recordBase] at hm
            exact absurd ⟨e, h, entry, hf, hu, by simpa using hon, hs, hm, hflags⟩ hno

theorem pushed_of_takes (hp : Proper n k.envs k.memory) (ht : k.TakesFaults id e h entry) (r : FaultRecord) :
    k.Pushed id entry.frame r (k.pushed id entry.frame r) where
  only := rfl
  envs := rfl
  alike := FramePool.alike_write _ _
  denyNext := rfl
  bytes f i := by
    show ((k.memory.frames.write entry.frame (recordBase % pageSize) r.encode).page f).get i = _
    by_cases hf : f = entry.frame
    · subst hf
      rw [FramePool.page_write_self (hp.intact.memory.used_of_mapping? ht.mapped), Page.get_write, recordBase_mod]
      by_cases hi : pageSize - FaultRecord.size ≤ i.val
      · have hlt : i.val - (pageSize - FaultRecord.size) < r.encode.length := by
          have hsize : FaultRecord.size ≤ pageSize := by decide
          rw [FaultRecord.length_encode]
          omega
        rw [if_pos hi, if_pos ⟨rfl, hi⟩, List.getD_eq_getElem?_getD, List.getElem?_eq_getElem hlt, Option.getD_some,
          Option.getD_some]
      · rw [if_neg hi, if_neg fun h => hi h.2]
    · rw [if_neg fun h => hf h.1]
      exact congrArg (·.get i) (FramePool.page_update_of_ne hf)

theorem find?_pushed (hf : k.envs.find? id = some e) (frame : FrameId) (r : FaultRecord) :
    (k.pushed id frame r).envs.find? id =
      some { e with context := { e.context with sp := UInt64.ofNat recordBase, ip := e.upcall } } :=
  find?_update_self Env.title_context hf

/-- The program reads the record where its stack pointer is. -/
theorem readUser_pushed (hp : Proper n k.envs k.memory) (ht : k.TakesFaults id e h entry) (r : FaultRecord) :
    Memory.readUser h recordBase FaultRecord.size (k.pushed id entry.frame r).memory =
      .done r.encode (k.pushed id entry.frame r).memory := by
  have hopen : k.memory.Open h recordBase true :=
    ⟨entry, (Memory.mapping?_congr pageBase_recordBase).trans ht.mapped, ht.flags⟩
  obtain ⟨entry', hm, hneeds⟩ := hopen.read
  obtain rfl := Option.some.inj ((Memory.mapping?_congr pageBase_recordBase).trans ht.mapped |>.symm.trans hm)
  have hm' : (k.pushed id entry.frame r).memory.mapping? h recordBase = some entry := hm
  have hpage := FramePool.page_write_self (hp.intact.memory.used_of_mapping? ht.mapped) (recordBase % pageSize) r.encode
  have hslice : ((k.pushed id entry.frame r).memory.frames.page entry.frame).slice (recordBase % pageSize)
      FaultRecord.size = r.encode := by
    show ((k.memory.frames.write entry.frame (recordBase % pageSize) r.encode).page entry.frame).slice _ _ = _
    rw [hpage, ← r.length_encode, Page.slice_write]
    rw [r.length_encode]
    decide
  rw [Memory.readUser_within (by decide) (by decide) (by decide) (Memory.frameFor_of_mapping hm' hneeds), hslice]

end delivery

end Kernel

namespace Simulation.Machine

variable {n : Nat} {k : Kernel} {id : Env.Id} {e : Env} {h : Handle} {entry : Mapping} {handler : Handler}

/-- Entered at the record, the trampoline is the handler, and then the way back. -/
theorem advance_enter (hp : Proper n k.envs k.memory) (ht : k.TakesFaults id e h entry) (r : FaultRecord) {m : Machine}
    (henvs : m.kernel.envs = (k.pushed id entry.frame r).envs)
    (hmemory : m.kernel.memory = (k.pushed id entry.frame r).memory) (hlive : m.kernel.contextOf id = some m.live)
    (hhandler : m.handlers.lookup id = some handler) (run : Handler → FaultRecord → Program.Part ForkError Unit)
    (f : Unit → Program Answer) : advance id ((Program.enter run).andThen f) m =
      advance id (((run handler r).run.andThen (Program.settle r)).andThen f) m := by
  have hf : m.kernel.envs.find? id = some _ := henvs ▸ Kernel.find?_pushed ht.live entry.frame r
  have hspace : m.kernel.spaceOf id = .ok h := Kernel.spaceOf_of_find? hf ht.space
  have hsp : m.live.sp = UInt64.ofNat Kernel.recordBase := by
    rw [Kernel.contextOf, hf] at hlive
    rw [← Option.some.inj hlive]
  have hread : Kernel.userRead id m.live.sp.toNat FaultRecord.size m.kernel = .done r.encode m.kernel := by
    have hword : (UInt64.ofNat Kernel.recordBase).toNat = Kernel.recordBase := by decide
    have hload := Kernel.readUser_pushed hp ht r
    rw [← hmemory] at hload
    rw [hsp, hword, Kernel.userRead_eq hspace, Kernel.onMemory_done hload]
  have hserve : Program.serve run r.encode = Program.getHandler fun handler => match handler with
      | none => Program.exit
      | some handler => (run handler r).run.andThen (Program.settle r) := by
    rw [Program.serve, FaultRecord.decode_encode]
    rfl
  show advance id (.load m.live.sp FaultRecord.size fun b => (Program.serve run b).andThen f) m = _
  rw [advance, hread]
  simp only
  rw [hserve]
  show advance id (Program.andThen (match m.handlers.lookup id with
      | none => Program.exit
      | some handler => (run handler r).run.andThen (Program.settle r)) f) m = _
  rw [hhandler]

/-- Entered at `m`, the trampoline hands the handler the record of a fault at `va` in the context `c`, and a handler
that succeeds is left for this context. -/
structure Returns (id : Env.Id) (c : Context) (va : Word) (handler : Handler) (m : Machine) : Prop where
  handed : ∀ (run : Handler → FaultRecord → Program.Part ForkError Unit) (f : Unit → Program Answer),
    advance id ((Program.enter run).andThen f) m =
      advance id (((run handler (c.faultRecord va)).run.andThen (Program.settle (c.faultRecord va))).andThen f) m
  back : ∀ (m' : Machine) (f : Unit → Program Answer),
    advance id ((Program.settle (c.faultRecord va) (.ok ())).andThen f) m' = advance id (f ())
      { m' with live := { m'.live with regs := c.regs, ip := c.ip, sp := c.sp, flags := c.flags } }

/-- Who can take a fault gets its record, which is pushed and nothing else, and the trampoline leads back to where the
fault came from. Whoever cannot take a fault is left as it was, with all of memory. -/
theorem fault_round_trip (hp : Proper n k.envs k.memory) (id : Env.Id) (va : Word) :
    Program.trampoline = Program.enter Program.handleFault ∧
      (∀ e h entry, k.TakesFaults id e h entry → ∃ k',
        Kernel.deliverUpcall id va k = .done (e.context.faultRecord va) k' ∧
          k.Pushed id entry.frame (e.context.faultRecord va) k' ∧
          ∀ (m : Machine) handler, m.kernel.envs = k'.envs → m.kernel.memory = k'.memory →
            m.kernel.contextOf id = some m.live → m.handlers.lookup id = some handler →
            m.Returns id e.context va handler) ∧
      ((¬∃ e h entry, k.TakesFaults id e h entry) → ∃ cause, Kernel.deliverUpcall id va k = .refused cause k) := by
  refine ⟨Program.trampoline_eq, fun e h entry ht => ?_, fun hno => Kernel.deliverUpcall_refused hno va⟩
  refine ⟨_, Kernel.deliverUpcall_of_takes ht va, Kernel.pushed_of_takes hp ht _, fun m handler he hm hl hh => ?_⟩
  exact ⟨fun run f => advance_enter hp ht _ he hm hl hh run f, fun m' f => rfl⟩

end Simulation.Machine

namespace Kernel

def preparing : List Demand :=
  [.call .standard ⟨0⟩ ⟨0x401⟩ 7 #v[0, UInt64.ofNat exceptionPage, Program.dataPage.bits, 0, 0],
    .call .standard ⟨0⟩ ⟨0x401⟩ 10 #v[0, UInt64.ofNat upcallEntry, 0, 0, 0]]

def prepared : Kernel := preparing.foldl (fun k r => r.next k) pair

end Kernel

namespace Simulation.Machine

/-- A fault of the first program comes to its handler, and back; the second program has no upcall. -/
theorem fault_round_trip_prepared :
    ∃ (n : Nat) (e : Env) (h : Handle) (entry : Mapping) (m : Machine) (cause : UpcallError),
    Proper n Kernel.prepared.envs Kernel.prepared.memory ∧ Kernel.prepared.TakesFaults ⟨0x401⟩ e h entry ∧
    Kernel.deliverUpcall ⟨0x401⟩ 0x5000 Kernel.prepared = .done (e.context.faultRecord 0x5000) m.kernel ∧
    Kernel.prepared.Pushed ⟨0x401⟩ entry.frame (e.context.faultRecord 0x5000) m.kernel ∧
    m.Returns ⟨0x401⟩ e.context 0x5000 .ignore ∧
    (¬∃ e h entry, Kernel.prepared.TakesFaults ⟨0x402⟩ e h entry) ∧
    Kernel.deliverUpcall ⟨0x402⟩ 0x5000 Kernel.prepared = .refused cause Kernel.prepared := by
  have hmapped := Kernel.reachable_pair.next (r := Kernel.preparing[0])
    (Option.isSome_iff_exists.mp (by decide +kernel)) (by decide +kernel)
  have hreach : Kernel.prepared.Reachable := hmapped.next (r := Kernel.preparing[1])
    (Option.isSome_iff_exists.mp (by decide +kernel)) (by decide +kernel)
  obtain ⟨n, hp⟩ := hreach.proper
  have hstate : (Kernel.prepared.envs.find? ⟨0x401⟩).map (fun e =>
      (decide (e.upcall ≠ 0), onExceptionStack e.context.sp.toNat, e.space)) = some (true, false, some ⟨1⟩) := by
    decide +kernel
  have hpage : (Kernel.prepared.memory.mapping? ⟨1⟩ exceptionPage).map (fun entry =>
      entry.flags.contains (PageFlags.present ||| PageFlags.user ||| PageFlags.writable)) = some true := by
    decide +kernel
  have hother : (Kernel.prepared.envs.find? ⟨0x402⟩).map Env.upcall = some 0 := by decide +kernel
  obtain ⟨e, he, hready⟩ := Option.map_eq_some_iff.mp hstate
  obtain ⟨entry, hentry, hflags⟩ := Option.map_eq_some_iff.mp hpage
  obtain ⟨hu, hoff, hspace⟩ : e.upcall ≠ 0 ∧ onExceptionStack e.context.sp.toNat = false ∧ e.space = some ⟨1⟩ := by
    simpa using hready
  have ht : Kernel.prepared.TakesFaults ⟨0x401⟩ e ⟨1⟩ entry := ⟨he, hu, hoff, hspace, hentry, hflags⟩
  have hno : ¬∃ e h entry, Kernel.prepared.TakesFaults ⟨0x402⟩ e h entry := by
    rintro ⟨y, h, entry, hy⟩
    rw [hy.live, Option.map_some] at hother
    exact hy.upcall (Option.some.inj hother)
  obtain ⟨-, htakes, -⟩ := fault_round_trip hp ⟨0x401⟩ 0x5000
  obtain ⟨-, -, hrefused⟩ := fault_round_trip hp ⟨0x402⟩ 0x5000
  obtain ⟨k', hd, hpushed, hreturns⟩ := htakes e ⟨1⟩ entry ht
  obtain ⟨cause, hcause⟩ := hrefused hno
  have hctx : k'.contextOf ⟨0x401⟩ =
      some { e.context with sp := UInt64.ofNat Kernel.recordBase, ip := e.upcall } := by
    rw [Kernel.contextOf, hpushed.envs, find?_update_self Env.title_context he]
    rfl
  let entered : Context := { e.context with sp := UInt64.ofNat Kernel.recordBase, ip := e.upcall }
  let m : Machine := { kernel := k', live := entered, handlers := [(⟨0x401⟩, .ignore)], budget := 0 }
  exact ⟨n, e, ⟨1⟩, entry, m, cause, hp, ht, hd, hpushed, hreturns m .ignore rfl rfl hctx rfl, hno, hcause⟩

end Simulation.Machine

end Exokernel
