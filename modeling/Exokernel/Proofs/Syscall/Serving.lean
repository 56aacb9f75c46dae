import Exokernel.Proofs.Ipc.Fetching
import Exokernel.Proofs.Kernel.Removal

/-!
# System calls and the scheduler

A call keeps its caller on the CPU or takes it off, in which case it asks for other work. The exceptions are calls
that meddle: they change the status of a child behind the back of the CPU that still runs it, or let a child run
that is blocked in a message operation.
-/

set_option autoImplicit false

namespace Exokernel

open Env (Id Kind Status Message)
open Env.Table

variable {n : Nat} {b : Seats} {current : Array (Option Id)} {c : Cpu} {caller target id : Id} {k : Kernel}
  {e : Env} {t : Env.Table}

def Blocked (e : Env) : Prop := e.mailbox.receiving = true ∨ e.outbox.isSome = true

def Strands (t : Env.Table) (b : Seats) (caller : Id) : Call → Prop
  | .destroy id => ∃ e, t.lookup id (some caller) true = .ok e ∧ Doomed b e
  | .setStatus id _ => ∃ e, t.lookup id (some caller) true = .ok e ∧ Doomed b e
  | _ => False

def Rouses (t : Env.Table) (caller : Id) : Call → Prop
  | .setStatus id status => status = .runnable ∧ ∃ e, t.lookup id (some caller) true = .ok e ∧ Blocked e
  | _ => False

def Meddles (t : Env.Table) (b : Seats) (caller : Id) (call : Call) : Prop :=
  Strands t b caller call ∨ Rouses t caller call

theorem lookup_eq (t : Env.Table) (id caller : Id) : t.lookup id (some caller) true =
    (t.get (if id.isSelf then caller else id)).bind fun e =>
      if e.id = caller ∨ e.parent = caller then .ok e else .error .badEnvironment := by
  unfold Env.Table.lookup
  cases id.isSelf <;> rfl

/-- Whom a checked id resolves to. -/
theorem lookup_resolved (h : t.lookup id (some caller) true = .ok e) : (if id.isSelf then caller else id) = e.id ∧
    t.find? e.id = some e ∧ (e.id = caller ∨ e.parent = caller) := by
  rw [lookup_eq] at h
  cases hf : t.find? (if id.isSelf then caller else id) with
  | none =>
    rw [get_of_find?_none hf] at h
    cases h
  | some y =>
    rw [get_of_find? hf] at h
    simp only [Except.bind] at h
    split at h
    · next hor =>
      cases h
      exact ⟨(id_of_find? hf).symm, by rw [id_of_find? hf, hf], hor⟩
    · cases h

theorem lookup_spec (h : t.lookup id (some caller) true = .ok e) :
    t.find? e.id = some e ∧ (e.id = caller ∨ e.parent = caller) := (lookup_resolved h).2

theorem lookup_of_kin (ht : t.Sound) (hf : t.find? id = some e) (hk : e.id = caller ∨ e.parent = caller) :
    t.lookup id (some caller) true = .ok e := by
  have hpos := (ht.named _ e (slot?_of_find? hf) (live_of_find? hf)).2.1
  rw [id_of_find? hf] at hpos
  rw [lookup_eq, Env.Id.not_isSelf hpos]
  simp only [Bool.false_eq_true, if_false]
  rw [get_of_find? hf]
  simp only [Except.bind, if_pos hk]

theorem OnCpu.reach_spec (h : OnCpu n b current caller k)
    (hl : k.envs.lookup id (some caller) true = .ok e) : k.envs.find? e.id = some e ∧ e.kind ≠ .idle := by
  obtain ⟨hf, hor⟩ := lookup_spec hl
  refine ⟨hf, fun hk => ?_⟩
  obtain ⟨y, hy, -, hky⟩ := h.running
  rcases hor with hid | hp
  · rw [hid, hy] at hf
    obtain rfl := Option.some.inj hf
    exact hky hk
  · have hself := ((h.orderly.scheduled.fit _ e hf).idle hk).1
    have hpos := (h.orderly.intact.table.named _ y (slot?_of_find? hy) (live_of_find? hy)).2.1
    rw [id_of_find? hy] at hpos
    exact Env.Id.ne_self hpos (hp.symm.trans hself)

namespace Kernel

variable {ε : Type}

theorem authorize_cases (caller id : Env.Id) (k : Kernel) :
    (∃ e, k.envs.lookup id (some caller) true = .ok e ∧ authorize caller id k = .done e.id k) ∨
      ∃ cause, authorize caller id k = .refused cause k := by
  rw [authorize, Action.state_bind, Env.Table.resolve]
  cases hl : k.envs.lookup id (some caller) true with
  | ok e => exact .inl ⟨e, rfl, rfl⟩
  | error cause => exact .inr ⟨_, rfl⟩

theorem serves_authorize : Serves n b current caller (authorize caller id) := by
  intro k h
  rcases authorize_cases caller id k with ⟨e, -, hd⟩ | ⟨cause, hd⟩
  · rw [hd]
    exact h
  · rw [hd]
    exact h

theorem serves_spaceFor : Serves n b current caller (spaceFor id) :=
  Action.preserves_state_bind fun _ _ => Action.preserves_ofExcept _

theorem ends_of_serves {x : Action Kernel CallError Reply} (hx : Serves n b current caller x)
    (h : OnCpu n b current caller k) : (x k).Meets (fun r => Ends n b current c caller r.reschedule)
      (fun _ => OnCpu n b current caller) fun _ => False :=
  (hx k h).mono (fun _ _ h => .inl h) (fun _ _ h => h) fun _ h => h

theorem destroyFor_spec (h : OnCpu n b current caller k) (hb : b c = some caller) (hf : k.envs.find? target = some e)
    (hk : e.kind ≠ .idle) (hz : ¬Doomed b e) :
    (destroyFor c caller target k).Meets (fun r => Ends n b current c caller r.reschedule)
      (fun _ => OnCpu n b current caller) fun _ => False := by
  rw [destroyFor, record_bind]
  generalize k.journal.record _ = j
  have h₁ : OnCpu n b current caller { k with journal := j } := h.congr h.orderly.intact rfl rfl
  refine Action.meets_bind (Action.meets_mapError (destroy_spec h₁ hb hf hk hz).unrefused) fun r k₂ h₂ => ?_
  exact h₂

theorem destroySelf_spec (h : OnCpu n b current caller k) (hb : b c = some caller) :
    (destroyFor c caller caller k).Meets (fun r => Ends n b current c caller r.reschedule)
      (fun _ => OnCpu n b current caller) fun _ => False := by
  obtain ⟨e, hf, hr, hk⟩ := h.running
  refine destroyFor_spec h hb hf hk fun hz => ?_
  have hd := hz.1
  rw [hr] at hd
  cases hd

/-- Copying bytes in range to the console changes nothing else, however far it gets. -/
theorem copyOut_apply (space : Handle) {va count : Nat} (done : Nat) (hm : Memory.Settled n k.memory)
    (hr : count = 0 ∨ va + count < addressLimit) : ∃ console,
      (copyOut space va count done : Action Kernel ε Unit) k = .done () { k with console } := by
  -- Induction on the bytes that are left.
  generalize hl : count - done = left
  induction left using Nat.strong_induction_on generalizing done k with
  | h left ih =>
    rw [copyOut]
    by_cases hlt : done < count
    · rw [if_pos hlt]
      have hread : (Memory.readUser space (va + done) (min (count - done) putsChunk) k.memory).Meets
          (fun _ m => m = k.memory) (fun _ m => m = k.memory) (fun _ => False) :=
        Memory.readUser_spec hm (by omega)
      cases hb : Memory.readUser space (va + done) (min (count - done) putsChunk) k.memory with
      | done bytes m =>
        obtain rfl := hread.of_done hb
        have hx : ((onMemory (Memory.readUser space (va + done) (min (count - done) putsChunk))).attempt :
            Action Kernel ε _) k = .done (.ok bytes) k := by
          rw [Action.attempt, onMemory_done hb]
        have hchunk : 0 < min (count - done) putsChunk := by
          simp only [putsChunk]
          omega
        obtain ⟨console, hd⟩ := ih _ (by omega) (done + min (count - done) putsChunk)
          (k := { k with console := k.console.write bytes }) hm rfl
        exact ⟨console, by rw [Action.bind_done hx]; exact hd⟩
      | refused fault m =>
        obtain rfl := hread.of_refused hb
        have hx : ((onMemory (Memory.readUser space (va + done) (min (count - done) putsChunk))).attempt :
            Action Kernel ε _) k = .done (.error fault) k := by
          simp [Action.attempt, onMemory, Action.onPart, hb]
        exact ⟨k.console, by rw [Action.bind_done hx]; rfl⟩
      | halted p =>
        rw [hb] at hread
        exact hread.elim
    · exact ⟨k.console, by rw [if_neg hlt]; rfl⟩

theorem serves_copyOut {space : Handle} {va count : Nat} (done : Nat)
    (hr : count = 0 ∨ va + count < addressLimit) :
    Serves n b current caller (copyOut space va count done : Action Kernel ε Unit) := by
  intro k h
  obtain ⟨console, hd⟩ := copyOut_apply (ε := ε) space done h.orderly.intact.memory hr
  rw [hd]
  exact h.congr h.orderly.intact rfl rfl

theorem checkUser_effect (space : Handle) (va count : Nat) (hm : Memory.Settled n k.memory) :
    (onMemory (Memory.checkUser space va count false) k).Meets
      (fun _ k' => k' = k ∧ (count = 0 ∨ va + count < addressLimit)) (fun _ k' => k' = k) fun _ => False := by
  apply Action.meets_onPart
  refine (Memory.checkUser_spec hm).mono (fun _ m hm => ?_) (fun _ m hm => ?_) fun _ h => h
  · exact ⟨by rw [hm.1], hm.2⟩
  · rw [hm]

theorem puts_spec {va count : Nat} (h : OnCpu n b current caller k) (hb : b c = some caller) :
    (puts c caller va count k).Meets (fun r => Ends n b current c caller r.reschedule)
      (fun _ => OnCpu n b current caller) fun _ => False := by
  refine Action.meets_bind ((serves_spaceFor k h).mono (fun _ _ h => h) (fun _ _ h => h) fun _ h => h)
    fun space k₁ h₁ => ?_
  refine Action.meets_attempt_bind (checkUser_effect space va count h₁.orderly.intact.memory) (fun _ k₂ h₂ => ?_)
    fun fault k₂ h₂ => ?_
  · obtain ⟨rfl, hr⟩ := h₂
    exact ends_of_serves (Action.preserves_bind (serves_copyOut 0 hr) fun _ => Action.preserves_pure _) h₁
  · subst h₂
    exact destroySelf_spec (h₁.congr h₁.orderly.intact rfl rfl) hb

theorem forkEnv_spec (h : OnCpu n b current caller k) :
    (forkEnv caller k).Meets (fun _ => OnCpu n b current caller) (fun _ => OnCpu n b current caller)
      fun _ => False := by
  obtain ⟨e, hf, -⟩ := h.running
  rw [forkEnv, readEnv_mapError_bind _ hf]
  refine Action.meets_bind (Action.meets_mapError (allocate_serves h (by decide)))
    fun child k₁ ⟨h₁, hne, space, hc⟩ => ?_
  rw [updateEnv_bind, record_bind]
  have ho : Orderly n { k₁ with envs := k₁.envs.update child fun y =>
      { y with context := e.context.setAnswer 0, status := .notRunnable } } b none := by
    refine h₁.orderly.update hc Env.title_suspended rfl (fun _ => rfl) (fun _ => rfl) (.refl child b) ?_ ?_
    · refine ⟨?_, fun _ _ => rfl, fun _ _ => rfl, ?_⟩
      · intro h'
        cases h'
      · intro h'
        cases h'
    · intro d hd
      exact absurd hd (h₁.orderly.scheduled.seatless hc (fun h' => by cases h') (fun h' => by cases h') d)
  refine ⟨ho.congr ho.intact rfl rfl, h₁.current, ?_⟩
  show ∃ y, (k₁.envs.update child _).find? caller = some y ∧ _
  rw [find?_update Env.title_suspended, if_neg (Ne.symm hne)]
  exact h₁.running

/-- The status of an environment that neither runs nor is doomed may be set, if this does not unblock it. -/
theorem setStatus_spec {status : Status} (h : OnCpu n b current caller k) (hb : b c = some caller)
    (hf : k.envs.find? target = some e) (hk : e.kind ≠ .idle)
    (hs : status = .notRunnable ∨ status = .runnable ∧ ¬Blocked e)
    (hseat : target = caller ∨ ∀ d, b d ≠ some target) :
    (setStatus target status k).Meets (fun _ => Ends n b current c caller (target = caller)) (fun _ _ => False)
      fun _ => False := by
  have hfree : status ≠ .free := by
    rcases hs with rfl | ⟨rfl, -⟩ <;> decide
  have hrun : status ≠ .running := by
    rcases hs with rfl | ⟨rfl, -⟩ <;> decide
  have htitle : ∀ y : Env, y.isFree = false →
      ({ y with status, cpu := if status = .running then y.cpu else none } : Env).title = y.title :=
    fun y hy => Env.title_of_live rfl rfl rfl hfree hy
  have hfit : ∀ b', Fit b' none { e with status, cpu := if status = .running then e.cpu else none } := by
    intro b'
    have hfit := h.orderly.scheduled.fit target e hf
    refine ⟨fun h' => absurd h' hrun, fun hx hflag => ?_, fun hx hr => hfit.single hx hr, fun hi => absurd hi hk⟩
    rcases hs with hs | ⟨-, hs⟩
    · exact hs
    · exact absurd hflag hs
  rw [setStatus_done hf hfree]
  by_cases hc : target = caller
  · subst hc
    exact .inr ⟨by simp, h.leave hb hf htitle rfl (fun _ => rfl) (fun _ => rfl) (hfit _)⟩
  · left
    refine ⟨h.orderly.update hf htitle rfl (fun _ => rfl) (fun _ => rfl) (.refl target b) (hfit b) ?_, h.current, ?_⟩
    · intro d hd
      rcases hseat with hseat | hseat
      · exact absurd hseat hc
      · exact absurd hd (hseat d)
    · show ∃ y, (k.envs.update target _).find? caller = some y ∧ _
      rw [find?_update htitle, if_neg (fun e => hc e.symm)]
      exact h.running

theorem changeStatus_spec {status : Status} (h : OnCpu n b current caller k) (hb : b c = some caller)
    (hm : ¬Meddles k.envs b caller (.setStatus id status)) (hs : status ≠ .running) :
    (changeStatus c caller id status k).Meets (fun r => Ends n b current c caller r.reschedule)
      (fun _ => OnCpu n b current caller) fun _ => False := by
  rw [changeStatus]
  rcases authorize_cases caller id k with ⟨e, hl, hd⟩ | ⟨cause, hd⟩
  · obtain ⟨hf, hk⟩ := h.reach_spec hl
    have hz : ¬Doomed b e := fun hz => hm (.inl ⟨e, hl, hz⟩)
    rw [Action.bind_done hd]
    by_cases hfree : status = .free ∨ status = .dying
    · simp only [if_pos hfree]
      exact destroyFor_spec h hb hf hk hz
    · simp only [if_neg hfree]
      rw [readEnv_mapError_bind _ hf]
      by_cases hr : e.status = .running ∧ e.cpu ≠ some c
      · simp only [if_pos hr]
        exact h
      · simp only [if_neg hr]
        have hset : status = .notRunnable ∨ status = .runnable ∧ ¬Blocked e := by
          cases status with
          | free => exact absurd (.inl rfl) hfree
          | dying => exact absurd (.inr rfl) hfree
          | running => exact absurd rfl hs
          | notRunnable => exact .inl rfl
          | runnable => exact .inr ⟨rfl, fun hbl => hm (.inr ⟨rfl, e, hl, hbl⟩)⟩
        have hseat : e.id = caller ∨ ∀ d, b d ≠ some e.id := by
          by_cases hrun : e.status = .running
          · have hcpu : e.cpu = some c := by
              by_contra hne
              exact hr ⟨hrun, hne⟩
            exact .inl (h.eq_caller hb hf hrun hcpu)
          · exact .inr (h.unseated_of_idle hf hrun hz)
        refine Action.meets_bind (Action.meets_mapError ((setStatus_spec h hb hf hk hset hseat).mono
          (fun _ _ h => h) (fun _ _ h => h.elim) fun _ h => h)) fun _ k₁ h₁ => ?_
        exact h₁
  · rw [Action.bind_refused hd]
    exact h

theorem serves_allocPage {va : Nat} {perm : PageFlags} : Serves n b current caller (allocPage caller id va perm) := by
  refine Action.preserves_bind serves_authorize fun target => Action.preserves_bind serves_spaceFor fun space => ?_
  refine Action.preserves_bind (Action.preserves_mapError (serves_onMemory fun m hm => ?_)) fun _ =>
    Action.preserves_pure _
  exact Memory.balanced_allocPage hm

theorem serves_unmapPage {va : Word} : Serves n b current caller (unmapPage caller id va) := by
  refine Action.preserves_bind serves_authorize fun target => Action.preserves_bind (Action.preserves_ofExcept _)
    fun va => Action.preserves_bind serves_spaceFor fun space => ?_
  refine Action.preserves_bind (Action.preserves_mapError (serves_onMemory fun m hm => ?_)) fun _ =>
    Action.preserves_pure _
  refine (Memory.balanced_remove hm).mono (fun _ _ h => h) (fun _ m' h => ?_) fun _ h => h.elim
  rw [h]
  exact ⟨hm, Memory.kept_of_spaces rfl⟩

theorem serves_mapPage {src dst : Env.Id} {srcva dstva : Nat} {perm : PageFlags} :
    Serves n b current caller (mapPage caller src srcva dst dstva perm) := by
  refine Action.preserves_bind serves_authorize fun src => Action.preserves_bind serves_authorize fun dst => ?_
  refine Action.preserves_bind serves_spaceFor fun srcSpace => Action.preserves_bind serves_spaceFor fun dstSpace => ?_
  intro k h
  rw [Action.state_bind]
  cases hl : k.memory.lookup srcSpace srcva with
  | error cause => exact h
  | ok found =>
    cases found with
    | none => exact h
    | some m =>
      have hu := lookup_used h.orderly.intact.memory hl
      have hinsert : (onMemory (Memory.insert dstSpace m.frame dstva perm) k).Meets
          (fun _ => OnCpu n b current caller) (fun _ => OnCpu n b current caller) fun _ => False :=
        onMemory_spec h ((Memory.balanced_insert h.orderly.intact.memory hu).mono (fun _ _ h => ⟨h.1, h.2.1⟩)
          (fun _ _ h => h) fun _ h => h)
      simp only [Except.mapError, Action.ofExcept_ok_bind]
      split
      · exact h
      · split
        · exact h
        · exact Action.meets_bind (Action.meets_mapError hinsert) fun _ _ h₁ => h₁

theorem serves_setUpcall {entry : Word} : Serves n b current caller (setUpcall caller id entry) :=
  Action.preserves_bind serves_authorize fun _ => Action.preserves_bind (serves_updateEnv fun _ => rfl) fun _ =>
    Action.preserves_pure _

theorem serves_scan : Serves n b current caller (scan caller) := by
  refine Action.preserves_bind serves_spaceFor fun space => Action.preserves_state_bind fun k _ => ?_
  refine Action.preserves_bind (Action.preserves_ofExcept _) fun found => ?_
  refine Action.preserves_bind (serves_forM found fun _ => serves_record _) fun _ => ?_
  exact Action.preserves_bind (serves_record _) fun _ => Action.preserves_pure _

theorem serves_getc : Serves n b current caller (getc : Action Kernel ε Reply) := by
  intro k h
  show OnCpu n b current caller { k with console := k.console.readByte.2 }
  exact h.congr h.orderly.intact rfl rfl

theorem serves_readCycles : Serves n b current caller (readCycles : Action Kernel ε Word) := by
  intro k h
  show OnCpu n b current caller { k with cycles := k.cycles.read.2 }
  exact h.congr h.orderly.intact rfl rfl

theorem receiveFor_spec {dstva : Word} (h : OnCpu n b current caller k) (hb : b c = some caller) :
    (receiveFor caller dstva k).Meets (fun r => Ends n b current c caller r.reschedule)
      (fun _ => OnCpu n b current caller) fun _ => False := by
  rw [receiveFor, Action.state_bind]
  refine Action.meets_bind (serves_readCycles k h) fun now k₁ h₁ => ?_
  have hcap := h.orderly.intact.table.capacity
  have hmod : now.toNat % max k.envs.capacity 1 < max k.envs.capacity 1 := Nat.mod_lt _ (by omega)
  have hstart : now.toNat % max k.envs.capacity 1 ≤ Env.slotLimit := by
    have hone : 1 ≤ Env.slotLimit := by decide
    omega
  refine Action.meets_bind (Action.meets_mapError (receiveQueued_spec h₁ hb hstart)) fun r k₂ h₂ => ?_
  cases r with
  | received sender =>
    rcases h₂ with h₂ | ⟨hf, -⟩
    · exact .inl (h₂.congr h₂.orderly.intact rfl rfl)
    · cases hf
  | blocked => exact h₂

/-- Whatever a call does that does not meddle, its caller stays on the CPU or leaves it in order. -/
theorem perform_spec {call : Call} (h : OnCpu n b current caller k) (hb : b c = some caller)
    (hm : ¬Meddles k.envs b caller call) (hs : ∀ id, call ≠ .setStatus id .running) :
    (perform c caller call k).Meets (fun r => Ends n b current c caller r.reschedule)
      (fun _ => OnCpu n b current caller) fun _ => False := by
  cases call with
  | puts va count => exact puts_spec h hb
  | getc => exact ends_of_serves serves_getc h
  | self => exact .inl h
  | destroy id =>
    rw [perform]
    rcases authorize_cases caller id k with ⟨e, hl, hd⟩ | ⟨cause, hd⟩
    · obtain ⟨hf, hk⟩ := h.reach_spec hl
      rw [Action.bind_done hd]
      exact destroyFor_spec h hb hf hk fun hz => hm (.inl ⟨e, hl, hz⟩)
    · rw [Action.bind_refused hd]
      exact h
  | yield => exact .inl (h.congr h.orderly.intact rfl rfl)
  | fork => exact (forkEnv_spec h).mono (fun _ _ h => .inl h) (fun _ _ h => h) fun _ h => h
  | setStatus id status =>
    refine changeStatus_spec h hb hm fun hr => ?_
    exact hs id (by rw [hr])
  | allocPage id va perm => exact ends_of_serves serves_allocPage h
  | mapPage src srcva dst dstva perm => exact ends_of_serves serves_mapPage h
  | unmapPage id va => exact ends_of_serves serves_unmapPage h
  | setUpcall id entry => exact ends_of_serves serves_setUpcall h
  | scan => exact ends_of_serves serves_scan h
  | trySend target msg =>
    exact Action.meets_bind (Action.meets_mapError (trySend_spec h hb)) fun _ _ h₁ => .inl h₁
  | receive dstva =>
    exact Action.meets_bind (Action.meets_mapError (receive_spec h hb)) fun _ _ h₁ => .inr ⟨rfl, h₁⟩
  | sendQueued target msg =>
    exact Action.meets_bind (Action.meets_mapError (sendQueued_spec h hb)) fun _ _ h₁ => h₁
  | receiveQueued dstva => exact receiveFor_spec h hb

end Kernel

end Exokernel
