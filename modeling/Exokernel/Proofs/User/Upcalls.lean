import Exokernel.Proofs.Trap.Records
import Exokernel.Proofs.User.Calls
import Exokernel.Proofs.User.Copying

/-!
# Faults that reach their program

A program off its exception stack, with the trampoline as its upcall and an exception page that it may store to, finds
the record of its fault at the stack pointer and is entered at the trampoline. The record reads back as it was, and the
kernel writes it nowhere else.
-/

set_option autoImplicit false

namespace Exokernel

open Env (Id)
open Env.Table

theorem pageBase_exceptionPage : pageBase exceptionPage = exceptionPage := by decide

namespace Kernel

theorem pageBase_record {i : Nat} (hi : i < FaultRecord.size) : pageBase (recordBase + i) = pageBase exceptionPage := by
  have hbase : recordBase = exceptionPage + (pageSize - FaultRecord.size) := by decide
  rw [hbase, Nat.add_assoc, pageBase_exceptionPage]
  refine pageBase_offset pageBase_exceptionPage ?_
  simp only [FaultRecord.size, FaultRecord.wordCount, pageSize] at *
  omega

variable {ε : Type} {n : Nat} {k : Kernel} {id : Id} {e : Env} {entry : Mapping} {h : Handle} {va count : Nat}

section windows

theorem userRead_eq (hk : k.spaceOf id = .ok h) (va count : Nat) :
    userRead id va count k = onMemory (Memory.readUser h va count) k := by
  rw [userRead, Action.state_bind, hk]

theorem userWrite_eq (hk : k.spaceOf id = .ok h) (va : Nat) (data : Bytes) :
    userWrite id va data k = onMemory (Memory.writeUser h va data) k := by
  rw [userWrite, Action.state_bind, hk]

theorem pageEntry_eq (hk : k.spaceOf id = .ok h) (va : Nat) :
    k.pageEntry id va = (k.memory.mapping? h va).map Mapping.flags := by
  rw [pageEntry, hk, Memory.mapping?]
  simp only [Memory.lookup, Memory.space]
  cases k.memory.space? h with
  | none => rfl
  | some s =>
    simp only [Except.map, Option.bind_some]
    cases s.table.lookup va with
    | none => rfl
    | some e => rfl

theorem pageEntry_of_mapping (hk : k.spaceOf id = .ok h) (he : k.memory.mapping? h va = some entry) :
    k.pageEntry id va = some entry.flags := by
  rw [pageEntry_eq hk, he]
  rfl

theorem spanPresent_of_mapping (hb : Memory.Settled n k.memory) (hk : k.spaceOf id = .ok h)
    (he : k.memory.mapping? h va = some entry) : k.spanPresent id va = true := by
  obtain ⟨s, hs, hc⟩ := Memory.covered_of_toll (hb.toll_mapped he)
  rw [spanPresent, hk]
  simp only [Memory.spanPresent, Memory.space, hs, Except.map, hc]

theorem spanPresent_congr {w : Nat} (hw : spanBase w = spanBase va) : k.spanPresent id w = k.spanPresent id va := by
  simp only [spanPresent, Memory.spanPresent, PageTable.covers, hw]

end windows

section delivery

variable {watched : Handle → Nat → Prop} (hf : k.envs.find? id = some e) (hs : e.space = some h)
  (hu : e.upcall = UInt64.ofNat upcallEntry) (hsp : onExceptionStack e.context.sp.toNat = false)
  (hb : Memory.Settled n k.memory) (hc : k.memory.frames.Clear) (ho : k.memory.Open h exceptionPage true)
  (ha : Memory.Alone watched k.memory h exceptionPage)
include hf hs hu hsp hb hc ho ha

theorem deliverUpcall_done (va : Word) : ∃ memory,
    deliverUpcall id va k = .done (e.context.faultRecord va)
      { k with memory, envs := k.envs.update id fun e =>
        { e with context := { e.context with sp := UInt64.ofNat recordBase, ip := e.upcall } } } ∧
      Memory.Wrote watched k.memory memory h recordBase (e.context.faultRecord va).encode := by
  have hlen := FaultRecord.length_encode (e.context.faultRecord va)
  have hopen : ∀ i, i < (e.context.faultRecord va).encode.length → k.memory.Open h (recordBase + i) true :=
    fun i hi => ho.congr (pageBase_record (hlen ▸ hi))
  have hwrite := Memory.writeUser_view recordBase (e.context.faultRecord va).encode hb hc
    (fun i hi => (hopen i hi).read) fun i hi _ => ha.congr (pageBase_record (hlen ▸ hi))
  obtain ⟨_, memory, hd, hw, -⟩ := (hwrite.mono (fun _ _ h => h) (fun f _ h => (by
    obtain ⟨i, hi, -, hclosed, -⟩ := h
    exact hclosed (hopen i hi) : False)) fun _ h => h).done
  refine ⟨memory, ?_, hw⟩
  have hnone : ¬e.upcall = 0 := by rw [hu]; decide
  have hon : ¬onExceptionStack e.context.sp.toNat = true := by rw [hsp]; decide
  rw [deliverUpcall, readEnv_mapError_bind _ hf]
  simp only [if_neg hnone, if_neg hon, hs]
  rw [Action.mapError_bind_done (onMemory_done hd)]
  rfl

theorem handle_fault (cpu : Cpu) (hn : e.context.number = Trap.pageFault) : ∃ memory journal,
    (handle cpu e : Action Kernel ε Bool) k = .done false
      { k with memory, journal, envs := k.envs.update id fun e =>
        { e with context := { e.context with sp := UInt64.ofNat recordBase, ip := e.upcall } } } ∧
      Memory.Wrote watched k.memory memory h recordBase (e.context.faultRecord e.context.va).encode := by
  obtain ⟨memory, hd, hw⟩ := deliverUpcall_done hf hs hu hsp hb hc ho ha e.context.va
  rw [handle]
  simp only [if_pos hn]
  rw [userFault, id_of_find? hf, Action.bind_apply, Action.attempt, hd]
  exact ⟨memory, _, rfl, hw⟩

end delivery

end Kernel

namespace Simulation.Machine

variable {n : Nat} {id : Env.Id} {h : Handle} {m m' : Machine} {watched : Handle → Nat → Prop}

structure Equipped (m : Machine) (id : Env.Id) (h : Handle) : Prop where
  owns : ∃ e, m.kernel.envs.records id = some e ∧ e.space = some h ∧ e.upcall = UInt64.ofNat upcallEntry
  handler : m.handlers.lookup id = some .copyOnWrite
  stack : m.kernel.memory.Open h exceptionPage true
  scratch : m.kernel.memory.mapping? h scratchPage = none

namespace Equipped

variable (hq : m.Equipped id h)
include hq

theorem found : ∃ e, m.kernel.envs.find? id = some e ∧ e.space = some h ∧ e.upcall = UInt64.ofNat upcallEntry := by
  obtain ⟨r, hr, hs, hu⟩ := hq.owns
  obtain ⟨e, hf, rfl⟩ := find?_of_records hr
  exact ⟨e, hf, hs, hu⟩

theorem space : m.kernel.spaceOf id = .ok h := by
  obtain ⟨e, hf, hs, -⟩ := hq.found
  exact Kernel.spaceOf_of_find? hf hs

theorem beside (hb : m.Beside m') (hstack : m'.kernel.memory.Open h exceptionPage true)
    (hscratch : m'.kernel.memory.mapping? h scratchPage = none) : m'.Equipped id h :=
  ⟨hb.envs ▸ hq.owns, hb.handlers ▸ hq.handler, hstack, hscratch⟩

/-- A fault of an equipped environment enters its trampoline. -/
theorem take_faulting (cpu : Cpu) (hp : Proper n m.kernel.envs m.kernel.memory)
    (hsp : onExceptionStack m.live.sp.toNat = false) (ha : Memory.Alone watched m.kernel.memory h exceptionPage)
    (f : AccessFault) : ∃ m₁, (m.faulting f).take cpu id = some m₁ ∧ m.Beside m₁ ∧
      Memory.Wrote watched m.kernel.memory m₁.kernel.memory h Kernel.recordBase
        ((m.faulting f).live.faultRecord (UInt64.ofNat f.va)).encode ∧
      m₁.live.sp = UInt64.ofNat Kernel.recordBase ∧ m₁.live.ip = UInt64.ofNat upcallEntry := by
  obtain ⟨e, hf, hs, hu⟩ := hq.found
  have hfound : (m.kernel.saved id (m.faulting f).live).envs.find? id =
      some { e with context := (m.faulting f).live } :=
    Kernel.find?_saved hf
  obtain ⟨memory, journal, hd, hw⟩ := Kernel.handle_fault (ε := Empty) hfound hs hu hsp hp.intact.memory hp.clear
    hq.stack ha cpu rfl
  have hf' : (m.faulting f).kernel.envs.find? id = some e := hf
  have hsaved : (m.faulting f).kernel.saved id (m.faulting f).live = m.kernel.saved id (m.faulting f).live := rfl
  generalize hk : ({ m.kernel.saved id (m.faulting f).live with memory, journal, envs := _ } : Kernel) = k₁ at hd
  have hctx : k₁.contextOf id =
      some { (m.faulting f).live with sp := UInt64.ofNat Kernel.recordBase, ip := e.upcall } := by
    rw [← hk, Kernel.contextOf]
    simp only
    rw [find?_update_self Env.title_context (Kernel.find?_saved hf)]
    rfl
  rw [take, hf', hsaved]
  simp only
  rw [hd]
  simp only
  rw [hctx]
  refine ⟨_, rfl, ⟨?_, ?_, rfl⟩, ?_, rfl, hu⟩
  · rw [← hk]
    exact records_context.trans Kernel.records_saved
  · rw [← hk]
    exact touched_context.trans touched_context
  · rw [← hk]
    exact hw

end Equipped

end Simulation.Machine

end Exokernel
