import Exokernel.Kernel.Boot
import Exokernel.Proofs.Outcome

/-!
# Who leaves the CPUs alone

What each CPU dispatched last is noted by the scheduler alone. No other operation touches it, whatever state it
starts in: neither the life of environments nor messages, calls and faults, nor what the loader does.
-/

set_option autoImplicit false

namespace Exokernel.Kernel

open Exokernel.Action

variable {ε ε' α : Type} {id caller sender target : Env.Id} {cpu : Cpu} {e : Env} {msg : Env.Message}

abbrev Steady (x : Action Kernel ε α) : Prop := Keeps Kernel.current x

section state

theorem steady_record (v : Event) : Steady (record v : Action Kernel ε Unit) := keeps_modify fun _ => rfl

theorem steady_noteProgress : Steady (noteProgress : Action Kernel ε Unit) := keeps_modify fun _ => rfl

theorem steady_setEnvs (f : Env.Table → Env.Table) : Steady (setEnvs f : Action Kernel ε Unit) :=
  keeps_modify fun _ => rfl

theorem steady_updateEnv (f : Env → Env) : Steady (updateEnv id f : Action Kernel ε Unit) := steady_setEnvs _

theorem steady_readEnv : Steady (readEnv id) := fun k => keeps_ofExcept _ k

theorem steady_onMemory (x : Action Memory ε α) : Steady (onMemory x) := by
  intro k
  apply meets_onPart
  cases x k.memory with
  | done a m => exact rfl
  | refused cause m => exact rfl
  | halted p => exact trivial

theorem steady_lift (r : Except ε α) : Steady (liftM r : Action Kernel ε α) := keeps_ofExcept r

end state

section life

theorem steady_allocate {parent : Env.Id} {kind : Env.Kind} : Steady (allocate parent kind) := by
  refine keeps_state_bind fun k => ?_
  cases k.envs.freeHead with
  | none => exact keeps_refuse _
  | some index =>
    refine keeps_bind (keeps_mapError (steady_onMemory _)) fun space => ?_
    exact keeps_bind (keeps_advance fun _ => rfl) fun id => keeps_bind (steady_record _) fun _ => keeps_pure id

theorem steady_withdraw : Steady (withdraw id e) := by
  unfold withdraw
  cases e.outbox with
  | none => exact keeps_pure ()
  | some p => exact keeps_bind (steady_updateEnv _) fun _ => steady_updateEnv _

theorem steady_wakeSenders : Steady (wakeSenders id) :=
  keeps_state_bind fun _ => keeps_bind (steady_setEnvs _) fun _ => keeps_forM fun _ => steady_record _

theorem steady_surrender : Steady (do
    let e ← readEnv id
    if let some space := e.space then
      if let .error _ ← (onMemory (Memory.destroy space)).attempt then record (.spaceGone id)
    record (.freed id e.runs)
    setEnvs fun t => t.vacate id.index : Action Kernel EnvError Unit) := by
  have hend : ∀ e : Env, Steady (do
      record (.freed id e.runs)
      setEnvs fun t => t.vacate id.index : Action Kernel EnvError Unit) := fun e =>
    keeps_bind (steady_record _) fun _ => steady_setEnvs _
  refine keeps_bind steady_readEnv fun e => ?_
  cases e.space with
  | none => exact hend e
  | some h =>
    refine keeps_bind (keeps_attempt (steady_onMemory _)) fun r => ?_
    cases r with
    | ok u => exact hend e
    | error cause => exact keeps_bind (steady_record _) fun _ => hend e

theorem steady_free : Steady (free id) := by
  refine keeps_bind steady_readEnv fun e => keeps_bind steady_withdraw fun _ => keeps_bind steady_readEnv fun e => ?_
  exact keeps_ite (keeps_bind steady_wakeSenders fun _ => steady_surrender) steady_surrender

theorem steady_destroy : Steady (destroy id cpu) := by
  refine keeps_bind steady_readEnv fun e => keeps_ite ?_ ?_
  · exact keeps_bind (steady_updateEnv _) fun _ => keeps_bind (steady_record _) fun _ => keeps_pure _
  · exact keeps_bind steady_free fun _ => keeps_pure _

theorem steady_setStatus {status : Env.Status} : Steady (setStatus id status) :=
  keeps_ite steady_free (keeps_bind steady_readEnv fun _ => steady_updateEnv _)

theorem steady_kill : Steady (kill cpu id : Action Kernel ε Unit) := by
  refine keeps_bind (keeps_attempt steady_destroy) fun r => ?_
  cases r with
  | ok r => exact keeps_pure ()
  | error cause => exact steady_record _

end life

section messages

theorem steady_acceptPage {receiver : Env} (offer : Option PageOffer) : Steady (acceptPage receiver offer) := by
  cases offer with
  | none => exact keeps_pure _
  | some offer =>
    refine keeps_ite ?_ (keeps_pure _)
    cases receiver.space with
    | none => exact keeps_refuse _
    | some h => exact keeps_bind (keeps_mapError (steady_onMemory _)) fun _ => keeps_pure _

theorem steady_transfer : Steady (transfer sender target msg) := by
  refine keeps_state_bind fun k => keeps_bind (steady_lift _) fun offer => ?_
  refine keeps_bind (keeps_mapError steady_readEnv) fun receiver => keeps_bind (steady_acceptPage offer) fun perm => ?_
  exact keeps_bind (steady_updateEnv _) fun _ => steady_record _

theorem steady_blockInReceive {dstva : Word} : Steady (blockInReceive caller dstva) :=
  keeps_bind (keeps_mapError steady_readEnv) fun _ => steady_updateEnv _

theorem steady_resolveTarget : Steady (resolveTarget caller target) := keeps_state_bind fun _ => keeps_ofExcept _

theorem steady_trySend : Steady (trySend caller target msg) := by
  refine keeps_bind steady_resolveTarget fun target => keeps_state_bind fun k => keeps_bind (steady_lift _) fun _ => ?_
  refine keeps_bind (keeps_mapError steady_readEnv) fun e => keeps_guard ?_
  exact keeps_bind steady_transfer fun _ => steady_updateEnv _

theorem steady_receive {dstva : Word} : Steady (receive caller dstva) :=
  keeps_bind (steady_lift _) fun _ => steady_blockInReceive

theorem steady_addWaiting : Steady (addWaiting target e) := keeps_ite (steady_updateEnv _) (keeps_halt _)

theorem steady_sendQueued : Steady (sendQueued caller target msg) := by
  refine keeps_bind steady_resolveTarget fun target => keeps_guard ?_
  refine keeps_state_bind fun k => keeps_bind (steady_lift _) fun _ => ?_
  refine keeps_bind (keeps_mapError steady_readEnv) fun e => keeps_ite ?_ ?_
  · exact keeps_bind steady_transfer fun _ => keeps_bind (steady_updateEnv _) fun _ => keeps_pure _
  · refine keeps_bind steady_addWaiting fun _ => keeps_bind (keeps_mapError steady_readEnv) fun _ => ?_
    exact keeps_bind (steady_updateEnv _) fun _ => keeps_bind (steady_record _) fun _ => keeps_pure _

theorem steady_takeParked {index : Nat} : Steady (takeParked index target) := by
  refine keeps_state_bind fun k => ?_
  cases k.envs.slot? index with
  | none => exact keeps_pure _
  | some e =>
    simp only
    cases e.outbox with
    | none => exact keeps_pure _
    | some p => exact keeps_ite (keeps_bind (steady_updateEnv _) fun _ => keeps_pure _) (keeps_pure _)

theorem steady_fetch {index : Nat} : Steady (fetch caller index) := by
  refine keeps_bind steady_takeParked fun r => ?_
  cases r with
  | none => exact keeps_pure _
  | some r =>
    refine keeps_bind (steady_updateEnv _) fun _ => keeps_bind (keeps_attempt steady_transfer) fun result => ?_
    refine keeps_bind (steady_updateEnv _) fun _ => ?_
    cases result with
    | ok u => exact keeps_pure _
    | error cause => exact keeps_bind (steady_record _) fun _ => keeps_pure _

theorem steady_fetchFrom {start : Nat} (count done : Nat) : Steady (fetchFrom caller start count done) := by
  induction count generalizing done with
  | zero => exact keeps_pure _
  | succ count ih =>
    refine keeps_ite (keeps_state_bind fun k => keeps_bind steady_fetch fun r => ?_) (keeps_halt _)
    cases r with
    | none => exact ih (done + 1)
    | some sender => exact keeps_pure _

theorem steady_receiveQueued {dstva : Word} {start : Nat} : Steady (receiveQueued caller dstva start) := by
  have hblock : Steady (do
      blockInReceive caller dstva
      return .blocked : Action Kernel IpcError ReceiveOutcome) :=
    keeps_bind steady_blockInReceive fun _ => keeps_pure _
  refine keeps_bind (steady_lift _) fun _ => keeps_bind (keeps_mapError steady_readEnv) fun e => keeps_ite ?_ hblock
  refine keeps_bind (steady_updateEnv _) fun _ => keeps_state_bind fun k => ?_
  refine keeps_bind (steady_fetchFrom _ _) fun r => ?_
  cases r with
  | none => exact hblock
  | some sender => exact keeps_pure _

end messages

section calls

theorem steady_authorize : Steady (authorize caller id) := keeps_state_bind fun _ => keeps_ofExcept _

theorem steady_spaceFor : Steady (spaceFor id) := keeps_state_bind fun _ => keeps_ofExcept _

theorem steady_destroyFor : Steady (destroyFor cpu caller target) :=
  keeps_bind (steady_record _) fun _ => keeps_bind (keeps_mapError steady_destroy) fun _ => keeps_pure _

theorem steady_copyOut {space : Handle} {va count : Nat} (done : Nat) :
    Steady (copyOut space va count done : Action Kernel ε Unit) := by
  -- Induction on the bytes that are left.
  generalize hl : count - done = left
  induction left using Nat.strongRecOn generalizing done with
  | ind left ih =>
    rw [copyOut]
    by_cases hlt : done < count
    · rw [if_pos hlt]
      refine keeps_bind (keeps_attempt (steady_onMemory _)) fun r => ?_
      cases r with
      | error fault => exact keeps_pure ()
      | ok bytes =>
        refine keeps_bind (keeps_modify fun _ => rfl) fun _ => ih _ ?_ _ rfl
        simp only [putsChunk]
        omega
    · rw [if_neg hlt]
      exact keeps_pure ()

theorem steady_puts {va count : Nat} : Steady (puts cpu caller va count) := by
  refine keeps_bind steady_spaceFor fun space => keeps_bind (keeps_attempt (steady_onMemory _)) fun r => ?_
  cases r with
  | error fault => exact keeps_bind (steady_record _) fun _ => steady_destroyFor
  | ok u => exact keeps_bind (steady_copyOut 0) fun _ => keeps_pure _

theorem steady_forkEnv : Steady (forkEnv caller) := by
  refine keeps_bind (keeps_mapError steady_readEnv) fun parent =>
    keeps_bind (keeps_mapError steady_allocate) fun _ => ?_
  exact keeps_bind (steady_updateEnv _) fun _ => keeps_bind (steady_record _) fun _ => keeps_pure _

theorem steady_changeStatus {status : Env.Status} : Steady (changeStatus cpu caller id status) := by
  refine keeps_bind steady_authorize fun target => keeps_ite steady_destroyFor ?_
  refine keeps_bind (keeps_mapError steady_readEnv) fun e => keeps_guard ?_
  exact keeps_bind (keeps_mapError steady_setStatus) fun _ => keeps_pure _

theorem steady_allocPage {va : Nat} {perm : PageFlags} : Steady (allocPage caller id va perm) := by
  refine keeps_bind steady_authorize fun _ => keeps_bind steady_spaceFor fun space => ?_
  exact keeps_bind (keeps_mapError (steady_onMemory _)) fun _ => keeps_pure _

theorem steady_mapPage {src dst : Env.Id} {srcva dstva : Nat} {perm : PageFlags} :
    Steady (mapPage caller src srcva dst dstva perm) := by
  refine keeps_bind steady_authorize fun src => keeps_bind steady_authorize fun dst => ?_
  refine keeps_bind steady_spaceFor fun source => keeps_bind steady_spaceFor fun target => keeps_state_bind fun k => ?_
  refine keeps_bind (keeps_ofExcept _) fun r => ?_
  cases r with
  | none => exact keeps_refuse _
  | some m =>
    refine keeps_guard (keeps_guard ?_)
    exact keeps_bind (keeps_mapError (steady_onMemory _)) fun _ => keeps_pure _

theorem steady_unmapPage {va : Word} : Steady (unmapPage caller id va) := by
  refine keeps_bind steady_authorize fun _ => keeps_bind (steady_lift _) fun _ => keeps_bind steady_spaceFor fun _ => ?_
  exact keeps_bind (keeps_mapError (steady_onMemory _)) fun _ => keeps_pure _

theorem steady_setUpcall {entry : Word} : Steady (setUpcall caller id entry) :=
  keeps_bind steady_authorize fun _ => keeps_bind (steady_updateEnv _) fun _ => keeps_pure _

theorem steady_scan : Steady (scan caller) := by
  refine keeps_bind steady_spaceFor fun space => keeps_state_bind fun k => keeps_bind (keeps_ofExcept _) fun found => ?_
  exact keeps_bind (keeps_forM fun _ => steady_record _) fun _ => keeps_bind (steady_record _) fun _ => keeps_pure _

theorem steady_readCycles : Steady (readCycles : Action Kernel ε Word) := by
  intro k
  have hread : (readCycles : Action Kernel ε Word) k =
      .done k.cycles.read.1 { k with cycles := k.cycles.read.2 } := rfl
  rw [hread]
  exact rfl

theorem steady_getc : Steady (getc : Action Kernel ε Reply) := by
  intro k
  have hread : (getc : Action Kernel ε Reply) k = .done { value := (k.console.readByte.1.map UInt8.toUInt64).getD 0 }
      { k with console := k.console.readByte.2 } := rfl
  rw [hread]
  exact rfl

theorem steady_receiveFor {dstva : Word} : Steady (receiveFor caller dstva) := by
  refine keeps_state_bind fun k => keeps_bind steady_readCycles fun now => ?_
  refine keeps_bind (keeps_mapError steady_receiveQueued) fun r => ?_
  cases r with
  | received sender => exact keeps_bind (steady_record _) fun _ => keeps_pure _
  | blocked => exact keeps_pure _

theorem steady_perform (call : Call) : Steady (perform cpu caller call) := by
  cases call with
  | puts va count => exact steady_puts
  | getc => exact steady_getc
  | self => exact keeps_pure _
  | destroy id => exact keeps_bind steady_authorize fun _ => steady_destroyFor
  | yield => exact keeps_bind steady_noteProgress fun _ => keeps_pure _
  | fork => exact steady_forkEnv
  | setStatus id status => exact steady_changeStatus
  | allocPage id va perm => exact steady_allocPage
  | mapPage src srcva dst dstva perm => exact steady_mapPage
  | unmapPage id va => exact steady_unmapPage
  | setUpcall id entry => exact steady_setUpcall
  | scan => exact steady_scan
  | trySend target msg => exact keeps_bind (keeps_mapError steady_trySend) fun _ => keeps_pure _
  | receive dstva => exact keeps_bind (keeps_mapError steady_receive) fun _ => keeps_pure _
  | sendQueued target msg => exact keeps_bind (keeps_mapError steady_sendQueued) fun _ => keeps_pure _
  | receiveQueued dstva => exact steady_receiveFor

theorem steady_callSystem {t : CallTable} {number : Word} {a : Arguments} :
    Steady (callSystem t cpu caller number a) :=
  keeps_bind (steady_lift _) fun call => steady_perform call

end calls

section traps

variable {va : Word}

theorem steady_deliverUpcall : Steady (deliverUpcall id va) := by
  refine keeps_bind (keeps_mapError steady_readEnv) fun e => ?_
  refine keeps_ite (keeps_refuse _) (keeps_ite (keeps_refuse _) ?_)
  cases e.space with
  | none => exact keeps_refuse _
  | some h =>
    refine keeps_bind (keeps_mapError (steady_onMemory _)) fun _ => ?_
    exact keeps_bind (steady_updateEnv _) fun _ => keeps_pure _

theorem steady_userFault : Steady (userFault cpu id va : Action Kernel ε Bool) := by
  refine keeps_bind (keeps_attempt steady_deliverUpcall) fun r => ?_
  cases r with
  | ok r => exact keeps_bind (steady_record _) fun _ => keeps_pure _
  | error cause =>
    exact keeps_state_bind fun k => keeps_bind (steady_record _) fun _ => keeps_bind steady_kill fun _ => keeps_pure _

theorem steady_debugStop : Steady (debugStop cpu e : Action Kernel ε Bool) := by
  refine keeps_bind (keeps_advance fun _ => rfl) fun action => ?_
  cases action with
  | kill => exact keeps_bind (steady_record _) fun _ => keeps_bind steady_kill fun _ => keeps_pure _
  | resume => exact keeps_bind (steady_updateEnv _) fun _ => keeps_pure _
  | step => exact keeps_bind (steady_updateEnv _) fun _ => keeps_pure _

theorem steady_callTrap : Steady (callTrap cpu e : Action Kernel ε Bool) := by
  refine keeps_bind (keeps_attempt steady_callSystem) fun r => ?_
  cases r with
  | ok r => exact keeps_bind (steady_updateEnv _) fun _ => keeps_pure _
  | error cause =>
    exact keeps_bind (steady_record _) fun _ => keeps_bind (steady_updateEnv _) fun _ => keeps_pure _

theorem steady_handle : Steady (handle cpu e : Action Kernel ε Bool) := by
  refine keeps_ite steady_userFault (keeps_ite steady_debugStop (keeps_ite steady_callTrap (keeps_ite ?_ ?_)))
  · exact keeps_pure _
  · exact keeps_bind (steady_record _) fun _ => steady_userFault

end traps

section loader

theorem steady_loadPage {va : Nat} {flags : PageFlags} : Steady (loadPage id va flags) := by
  refine keeps_state_bind fun k => ?_
  cases k.spaceOf id with
  | error cause => exact keeps_refuse _
  | ok h => exact steady_onMemory _

theorem steady_setEntry {ip sp : Word} : Steady (setEntry id ip sp) :=
  keeps_bind steady_readEnv fun _ => steady_updateEnv _

end loader

end Exokernel.Kernel
