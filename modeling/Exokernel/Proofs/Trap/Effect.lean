import Exokernel.Proofs.Syscall.Effect
import Exokernel.Proofs.Trap.Round

/-!
# What traps do

A trap frees a doomed environment or serves the one that runs: by an upcall, by the monitor's word or by a system
call. It ends where it came from or with a scheduling pass. Nothing is assumed about who runs where.
-/

set_option autoImplicit false

namespace Exokernel

open Env (Id Kind Status)
open Env.Table

variable {ε : Type} {n : Nat} {c : Cpu} {id : Id} {k k' : Kernel} {e : Env} {live : Context} {t t' : Env.Table}
  {m m' : Memory} {p : Panic}

def Decision.exit : Decision → Exit
  | .run id => .resume id
  | .monitor => .monitor

inductive Passed (c : Cpu) (k : Kernel) : Exit → Kernel → Prop
  | dispatched {id : Id} : k.pick c = some id ∨ k.idleOf c = some id → Passed c k (.resume id) (k.dispatched c id)
  | parked (monitor : Monitor) (j : Journal) :
      Passed c k .monitor { k with envs := k.vacated c, monitor, journal := j }

inductive Served (c : Cpu) (e : Env) (t : Env.Table) (m : Memory) : Env.Table → Memory → Prop
  | ticked : Served c e t m t m
  | answered (g : Env → Context) {m' : Memory} : m.Spent m' →
      Served c e t m (t.update e.id fun y => { y with context := g y }) m'
  | upcalled (g : Env → Context) {h : Handle} {m' : Memory} : e.space = some h → m.Stored m' h →
      Served c e t m (t.update e.id fun y => { y with context := g y }) m'
  | killed {h : Handle} {m₁ m' : Memory} : e.space = some h → m.Stored m₁ h → Memory.destroy h m₁ = .done () m' →
      Served c e t m (t.released e.id e) m'
  | called (g : Env → Context) {call : Call} {t' : Env.Table} {m' : Memory} : e.context.call? = some call →
      Effect c e.id t m call t' m' → Served c e t m (t'.update e.id fun y => { y with context := g y }) m'

inductive Handled (c : Cpu) (live : Context) (k : Kernel) : Env.Table → Memory → Prop
  | vacant : k.runningOn c = none → Handled c live k k.envs k.memory
  | reclaimed {e : Env} {h : Handle} {m' : Memory} : k.runningOn c = some e → e.status = .dying → e.space = some h →
      Memory.destroy h k.memory = .done () m' → Handled c live k (k.envs.released e.id e) m'
  | served {e : Env} {t' : Env.Table} {m' : Memory} : k.runningOn c = some e → e.status = .running →
      Served c { e with context := live } (k.saved e.id live).envs k.memory t' m' → Handled c live k t' m'

namespace Kernel

def Blameless (p : Panic) : Prop := ∀ d, p ≠ .idleNotRunnable d

def Blames (c : Cpu) (k : Kernel) (p : Panic) : Prop := ∀ d, p = .idleNotRunnable d → k.idleOf c = none

theorem blames_of_blameless (h : Blameless p) : Blames c k p := fun d hd => absurd hd (h d)

theorem blameless_addOverflow : Blameless .addOverflow := fun _ => Panic.noConfusion

/-- A pass never panics but when the idle environment of its CPU is needed and cannot run. -/
theorem schedule_effect : (schedule c k : Outcome Kernel ε Decision).Meets (fun d k' => Passed c k d.exit k')
    (fun _ _ => False) (fun p => p = .idleNotRunnable c ∧ k.idleOf c = none) := by
  rw [schedule, Action.state_bind]
  cases hp : k.pick c with
  | some id =>
    simp only
    rw [Action.bind_done (dispatch_apply c id k)]
    exact .dispatched (.inl hp)
  | none =>
    by_cases hu : (k.envs.toList.any Env.isUseful) = true
    · simp only [if_pos hu]
      cases hi : k.idleOf c with
      | none => exact ⟨rfl, rfl⟩
      | some id =>
        simp only
        rw [Action.bind_done (dispatch_apply c id k)]
        exact .dispatched (.inr hi)
    · simp only [if_neg hu]
      obtain ⟨monitor, j, hd⟩ := park_apply (ε := ε) c k
      rw [hd]
      exact .parked monitor j

theorem passed_of_schedule {d : Decision} (h : (schedule c k : Outcome Kernel ε Decision) = .done d k') :
    Passed c k d.exit k' := schedule_effect.of_done h

/-- Entering the scheduler is one pass, after which the CPU goes where the pass decided. -/
theorem reschedule_effect (live : Context) : (reschedule c live k : Outcome Kernel ε (Exit × Context)).Meets
    (fun r k' => ∃ d, r.1 = d.exit ∧ (schedule c k : Outcome Kernel ε Decision) = .done d k') (fun _ _ => False)
    (Blames c k) := by
  have hpass := (schedule c k : Outcome Kernel ε Decision).meets_self
  refine Action.meets_bind ((hpass.and schedule_effect).mono (fun _ _ h => h.1) (fun _ _ h => h.2)
    fun _ hp _ _ => hp.2.2) fun d k₁ h₁ => ?_
  cases d with
  | monitor => exact ⟨.monitor, rfl, h₁⟩
  | run id =>
    simp only [Action.state_bind]
    cases k₁.envs.find? id with
    | none => exact blames_of_blameless fun _ => Panic.noConfusion
    | some e => exact ⟨.run id, rfl, h₁⟩

theorem meets_reschedule {P : Exit → Kernel → Prop} (live : Context)
    (h : ∀ d k', (schedule c k : Outcome Kernel ε Decision) = .done d k' → P d.exit k') :
    (reschedule c live k : Outcome Kernel ε (Exit × Context)).Meets (fun r k' => P r.1 k') (fun _ _ => False)
      (Blames c k) := by
  refine (reschedule_effect live).mono (fun r k' hr => ?_) (fun _ _ h => h) fun _ h => h
  obtain ⟨d, hx, hd⟩ := hr
  rw [hx]
  exact h d k' hd

theorem kill_effect {h : Handle} (hi : Intact n k.envs k.memory) (hf : k.envs.find? e.id = some e)
    (hcpu : e.cpu = some c) (hs : e.space = some h) :
    ∃ m j, (kill c e.id k : Outcome Kernel ε Unit) =
        .done () { k with envs := k.envs.released e.id e, memory := m, journal := j } ∧
      Memory.destroy h k.memory = .done () m := by
  have he : ¬Elsewhere c e := fun he => he.2.2 hcpu
  obtain ⟨m, j, hd, h', hs', hm⟩ := destroy_here hi hf he
  obtain rfl := Option.some.inj (hs.symm.trans hs')
  have hx : ((destroy e.id c).attempt : Action Kernel ε _) k = .done (.ok .freed)
      { k with envs := k.envs.released e.id e, memory := m, journal := j } := by
    rw [Action.attempt, hd]
  rw [kill, Action.bind_done hx]
  exact ⟨m, j, rfl, hm⟩

abbrev Serving (c : Cpu) (e : Env) (k k' : Kernel) : Prop := Served c e k.envs k.memory k'.envs k'.memory

theorem deliverUpcall_effect {h : Handle} {va : Word} (hp : Proper n k.envs k.memory)
    (hf : k.envs.find? e.id = some e) (hs : e.space = some h) :
    (deliverUpcall e.id va k).Meets (fun _ k' => Serving c e k k')
      (fun _ k' => ∃ m, k' = { k with memory := m } ∧ k.memory.Stored m h) (fun p => p = .addOverflow) := by
  have hself : ∃ m, k = { k with memory := m } ∧ k.memory.Stored m h := ⟨k.memory, rfl, Memory.stored_refl hp.clear⟩
  rw [deliverUpcall, readEnv_mapError_bind _ hf]
  split
  · exact hself
  · split
    · exact hself
    · simp only [hs]
      have hw := Memory.writeUser_effect h recordBase (e.context.faultRecord va).encode hp.intact.memory hp.clear
      refine Action.meets_bind (P := fun _ k' => ∃ m, k' = { k with memory := m } ∧ k.memory.Stored m h)
        (Action.meets_mapError (Action.meets_onPart ?_)) fun _ k₁ h₁ => ?_
      · exact hw.mono (fun _ m hm => ⟨m, rfl, hm⟩) (fun _ m hm => ⟨m, rfl, hm⟩) fun _ h => h
      · obtain ⟨m, rfl, hm⟩ := h₁
        rw [updateEnv_bind]
        exact .upcalled _ hs hm

theorem userFault_effect {va : Word} (hp : Proper n k.envs k.memory) (hf : k.envs.find? e.id = some e)
    (hcpu : e.cpu = some c) :
    (userFault c e.id va k : Outcome Kernel ε Bool).Meets (fun _ k' => Serving c e k k') (fun _ _ => False)
      (fun p => p = .addOverflow) := by
  obtain ⟨h, hs, -⟩ := hp.intact.space_of_find? hf
  rw [userFault]
  refine Action.meets_attempt_bind (deliverUpcall_effect hp hf hs) (fun _ _ h₁ => h₁) fun cause k₁ h₁ => ?_
  · obtain ⟨m, rfl, hm⟩ := h₁
    simp only [Action.state_bind]
    rw [record_bind]
    generalize Journal.record _ _ = j
    have hi : Intact n k.envs m := (hp.stored hm).intact
    obtain ⟨m', j', hd, hm'⟩ := kill_effect (ε := ε) (k := { k with memory := m, journal := j }) hi hf hcpu hs
    rw [Action.bind_done hd]
    exact .killed hs hm hm'

theorem debugStop_effect (hp : Proper n k.envs k.memory) (hf : k.envs.find? e.id = some e) (hcpu : e.cpu = some c) :
    (debugStop c e k : Outcome Kernel ε Bool).Meets (fun _ k' => Serving c e k k') (fun _ _ => False)
      (fun p => p = .addOverflow) := by
  obtain ⟨h, hs, -⟩ := hp.intact.space_of_find? hf
  rw [debugStop, Action.advance_bind]
  generalize (k.monitor.breakpoint _) = stop
  have hset : ∀ g : Env → Context, Serving c e k { k with
      envs := k.envs.update e.id fun y => { y with context := g y }, monitor := stop.2 } := fun g =>
    .answered g (.refl _)
  cases stop.1 with
  | kill =>
    simp only
    rw [record_bind]
    generalize Journal.record _ _ = j
    obtain ⟨m, j', hd, hm⟩ :=
      kill_effect (ε := ε) (k := { k with monitor := stop.2, journal := j }) hp.intact hf hcpu hs
    rw [Action.bind_done hd]
    exact .killed hs (Memory.stored_refl hp.clear) hm
  | resume => exact hset _
  | step => exact hset _

theorem callTrap_effect (hp : Proper n k.envs k.memory) (hf : k.envs.find? e.id = some e)
    (hn : e.context.number = Trap.systemCall) :
    (callTrap c e k : Outcome Kernel ε Bool).Meets (fun _ k' => Serving c e k k') (fun _ _ => False)
      (fun p => p = .addOverflow) := by
  rw [callTrap]
  refine Action.meets_attempt_bind ((callSystem_effect .standard _ _ hp hf).mono (fun _ _ h => h) (fun _ _ h => h)
    fun p hx => ?_) (fun reply k₁ h₁ => ?_) fun cause k₁ h₁ => ?_
  · obtain ⟨_, _, ho⟩ := hx
    exact ho.addOverflow
  · obtain ⟨call, hd, he⟩ := h₁
    simp only
    rw [updateEnv_bind]
    refine .called _ ?_ he
    rw [Context.call?, if_pos hn, hd]
    rfl
  · obtain ⟨m, cycles, rfl, hm, -⟩ := h₁
    simp only
    rw [record_bind, updateEnv_bind]
    exact .answered _ hm

theorem handle_effect (hp : Proper n k.envs k.memory) (hf : k.envs.find? e.id = some e) (hcpu : e.cpu = some c) :
    (handle c e k : Outcome Kernel ε Bool).Meets (fun _ k' => Serving c e k k') (fun _ _ => False)
      (fun p => p = .addOverflow) := by
  rw [handle]
  by_cases hpage : e.context.number = Trap.pageFault
  · simp only [if_pos hpage]
    exact userFault_effect hp hf hcpu
  · simp only [if_neg hpage]
    by_cases hstop : e.context.number = Trap.breakpoint ∨ e.context.number = Trap.debug
    · simp only [if_pos hstop]
      exact debugStop_effect hp hf hcpu
    · simp only [if_neg hstop]
      by_cases hcall : e.context.number = Trap.systemCall
      · simp only [if_pos hcall]
        exact callTrap_effect hp hf hcall
      · simp only [if_neg hcall]
        by_cases htimer : e.context.number = Trap.timer
        · simp only [if_pos htimer]
          exact .ticked
        · simp only [if_neg htimer]
          rw [record_bind]
          generalize k.journal.record _ = j
          exact userFault_effect (k := { k with journal := j }) hp hf hcpu

def SameWorld (k k' : Kernel) : Prop := k'.envs = k.envs ∧ k'.memory = k.memory

def Leaves (k k' : Kernel) : Prop := ∃ k₁, SameWorld k k₁ ∧ (k' = k₁ ∨ ∃ c exit, Passed c k₁ exit k')

theorem Leaves.refl (k : Kernel) : Leaves k k := ⟨k, ⟨rfl, rfl⟩, .inl rfl⟩

inductive Left (c : Cpu) (id : Env.Id) (k : Kernel) : Bool → Exit → Kernel → Prop
  | stayed {e : Env} : k.envs.find? id = some e → e.status = .running → e.cpu = some c →
      Left c id k false (.resume id) k
  | turned {e : Env} {d : Decision} {k' : Kernel} : k.envs.find? id = some e →
      (schedule c k : Outcome Kernel Empty Decision) = .done d k' → Left c id k true d.exit k'
  | lost {again : Bool} {d : Decision} {k' : Kernel} : k.envs.find? id = none →
      (schedule c { k with current := k.current.setIfInBounds c.index none } : Outcome Kernel Empty Decision) =
        .done d k' → Left c id k again d.exit k'

theorem leave_effect (again : Bool) (live : Context) :
    (leave c id live again k : Outcome Kernel Empty (Exit × Context)).Meets (fun r k' => Left c id k again r.1 k')
      (fun _ _ => False) (fun p => Blameless p ∨ (again = true ∨ k.envs.find? id = none) ∧ Blames c k p) := by
  rw [leave, Action.state_bind]
  obtain hf | ⟨y, hf⟩ := Option.eq_none_or_eq_some (k.envs.find? id)
  · have hgone : (k.envs.find? id).isNone = true := by simp [hf]
    have hforget : (forget c : Action Kernel Empty Unit) k =
        .done () { k with current := k.current.setIfInBounds c.index none } := rfl
    have hlost : ∀ again, (reschedule c live { k with current := k.current.setIfInBounds c.index none } :
        Outcome Kernel Empty (Exit × Context)).Meets (fun r k' => Left c id k again r.1 k') (fun _ _ => False)
        (Blames c k) := fun again =>
      meets_reschedule (P := Left c id k again) live fun _ _ hd => .lost hf hd
    simp only [if_pos hgone]
    rw [Action.bind_done hforget]
    cases again with
    | true => exact (hlost true).mono (fun _ _ h => h) (fun _ _ h => h) fun _ h => .inr ⟨.inr hf, h⟩
    | false =>
      simp only [Bool.false_eq_true, if_false]
      rw [resumeSame, Action.state_bind]
      simp only [hf]
      exact (hlost false).mono (fun _ _ h => h) (fun _ _ h => h) fun _ h => .inr ⟨.inr trivial, h⟩
  · have hthere : ¬(k.envs.find? id).isNone = true := by simp [hf]
    simp only [if_neg hthere]
    cases again with
    | true =>
      exact (meets_reschedule (P := Left c id k true) live fun _ _ hd => .turned hf hd).mono (fun _ _ h => h)
        (fun _ _ h => h) fun _ h => .inr ⟨.inl rfl, h⟩
    | false =>
      simp only [Bool.false_eq_true, if_false]
      rw [resumeSame, Action.state_bind]
      simp only [hf]
      split
      · next hr => exact .stayed hf hr.1 hr.2
      · split
        · exact .inl fun _ => Panic.noConfusion
        · exact .inl fun _ => Panic.noConfusion

theorem reclaim_effect (hi : Intact n k.envs k.memory) (hf : k.envs.find? e.id = some e) :
    ∃ k₁, (reclaim c e.id k : Outcome Kernel ε Unit) = .done () k₁ ∧ k₁.envs = k.envs.released e.id e ∧
      k₁.current = k.current.setIfInBounds c.index none ∧
      ∃ h, e.space = some h ∧ Memory.destroy h k.memory = .done () k₁.memory := by
  rw [reclaim, record_bind]
  generalize k.journal.record _ = j
  obtain ⟨m, j', hd, -, hm⟩ := free_done (k := { k with journal := j }) hi hf
  have hx : ((free e.id).attempt : Action Kernel ε _) { k with journal := j } =
      .done (.ok ()) { k with envs := k.envs.released e.id e, memory := m, journal := j' } := by
    rw [Action.attempt, hd]
  rw [Action.bind_done hx]
  exact ⟨_, rfl, rfl, rfl, hm⟩

end Kernel

inductive Awaits (c : Cpu) (live : Context) (k : Kernel) : Kernel → Prop
  | vacant : k.runningOn c = none → live.number = Trap.timer → Awaits c live k (k.noted live)
  | reclaimed {e : Env} {k₁ : Kernel} : k.runningOn c = some e → e.status = .dying →
      (Kernel.reclaim c e.id (k.noted live) : Outcome Kernel Empty Unit) = .done () k₁ → Awaits c live k k₁
  | served {e y : Env} {k₁ : Kernel} : k.runningOn c = some e → e.status = .running →
      (Kernel.handle c { e with context := live } (k.saved e.id live) : Outcome Kernel Empty Bool) = .done true k₁ →
      k₁.envs.find? e.id = some y → Awaits c live k k₁
  | lost {e : Env} {again : Bool} {k₁ : Kernel} : k.runningOn c = some e → e.status = .running →
      (Kernel.handle c { e with context := live } (k.saved e.id live) : Outcome Kernel Empty Bool) = .done again k₁ →
      k₁.envs.find? e.id = none → Awaits c live k { k₁ with current := k₁.current.setIfInBounds c.index none }

inductive Quits (c : Cpu) (live : Context) (k : Kernel) : Exit → Kernel → Prop
  | stayed {e y : Env} {k' : Kernel} : k.runningOn c = some e → e.status = .running →
      (Kernel.handle c { e with context := live } (k.saved e.id live) : Outcome Kernel Empty Bool) = .done false k' →
      k'.envs.find? e.id = some y → y.status = .running → y.cpu = some c → Quits c live k (.resume e.id) k'
  | passed {k₁ k' : Kernel} {d : Decision} : Awaits c live k k₁ →
      (Kernel.schedule c k₁ : Outcome Kernel Empty Decision) = .done d k' → Quits c live k d.exit k'

namespace Kernel

/-- A trap that does not panic ends in the environment that was served, or with a pass. -/
theorem trap_quits (c : Cpu) (live : Context) (hp : Proper n k.envs k.memory) :
    (trap c live k : Outcome Kernel Empty (Exit × Context)).Meets (fun r k' => Quits c live k r.1 k')
      (fun _ _ => False) (fun p => Blameless p ∨ ∃ k₁, Awaits c live k k₁ ∧ Blames c k₁ p) := by
  cases hmode : live.mode with
  | kernel =>
    rw [trap, noteProgress_bind, Action.modify_bind]
    simp only [if_pos hmode]
    refine .inl fun d => ?_
    split
    · exact Panic.noConfusion
    · exact Panic.noConfusion
  | user =>
    cases hr : k.runningOn c with
    | none =>
      by_cases ht : live.number = Trap.timer
      · rw [trap_timer hmode hr ht]
        exact (meets_reschedule (P := Quits c live k) live fun _ _ hd => .passed (.vacant hr ht) hd).mono
          (fun _ _ h => h) (fun _ _ h => h) fun _ h => .inr ⟨_, .vacant hr ht, h⟩
      · rw [trap_stray hmode hr ht]
        exact .inl fun _ => Panic.noConfusion
    | some e =>
      obtain ⟨hf, -, hor, hcpu⟩ := runningOn_spec hr
      by_cases hs : e.status = .dying
      · rw [trap_dying hmode hr hs]
        obtain ⟨k₁, hd, -⟩ := reclaim_effect (ε := Empty) (c := c) (k := k.noted live) hp.intact hf
        rw [Action.bind_done hd]
        exact (meets_reschedule (P := Quits c live k) live fun _ _ hpass => .passed (.reclaimed hr hs hd) hpass).mono
          (fun _ _ h => h) (fun _ _ h => h) fun _ h => .inr ⟨_, .reclaimed hr hs hd, h⟩
      · have hrun : e.status = .running := hor.resolve_right hs
        rw [trap_running hmode hr hs]
        have hp' : Proper n (k.saved e.id live).envs (k.saved e.id live).memory := hp.touched touched_context
        have hhandle := handle_effect (ε := Empty) (e := { e with context := live }) hp' (find?_saved hf) hcpu
        refine Action.meets_bind (((handle c _ _).meets_self.and hhandle).mono (fun _ _ h => h.1)
          (fun cause => cause.elim) fun p hp => .inl (hp.2 ▸ blameless_addOverflow)) fun again k₁ h₁ => ?_
        refine (leave_effect again live).mono (fun r k' h => ?_) (fun _ _ h => h) fun p h => ?_
        · generalize r.1 = exit at h
          cases h with
          | stayed hy hst hc => exact .stayed hr hrun h₁ hy hst hc
          | turned hy hpass => exact .passed (.served hr hrun h₁ hy) hpass
          | lost hgone hpass => exact .passed (.lost hr hrun h₁ hgone) hpass
        · refine h.imp_right fun h => ?_
          obtain ⟨hwhy, hb⟩ := h
          cases hy : k₁.envs.find? e.id with
          | none => exact ⟨_, .lost hr hrun h₁ hy, hb⟩
          | some y =>
            obtain rfl : again = true := hwhy.resolve_right (by rw [hy]; exact Option.some_ne_none y)
            exact ⟨_, .served hr hrun h₁ hy, hb⟩

theorem served_of_handle {again : Bool} (hp : Proper n k.envs k.memory) (hr : k.runningOn c = some e)
    (hd : (handle c { e with context := live } (k.saved e.id live) : Outcome Kernel Empty Bool) = .done again k') :
    Served c { e with context := live } (k.saved e.id live).envs k.memory k'.envs k'.memory := by
  obtain ⟨hf, -, -, hcpu⟩ := runningOn_spec hr
  have hp' : Proper n (k.saved e.id live).envs (k.saved e.id live).memory := hp.touched touched_context
  exact (handle_effect (e := { e with context := live }) hp' (find?_saved hf) hcpu).of_done hd

end Kernel

theorem Awaits.handled {k₁ : Kernel} (hp : Proper n k.envs k.memory) (h : Awaits c live k k₁) :
    Handled c live k k₁.envs k₁.memory := by
  cases h with
  | vacant hr _ => exact .vacant hr
  | @reclaimed e _ hr hs hd =>
    obtain ⟨hf, -⟩ := Kernel.runningOn_spec hr
    obtain ⟨k₂, hd₂, he, -, h, hspace, hm⟩ :=
      Kernel.reclaim_effect (ε := Empty) (c := c) (k := k.noted live) hp.intact hf
    cases hd.symm.trans hd₂
    rw [he]
    exact .reclaimed hr hs hspace hm
  | served hr hs hd _ => exact .served hr hs (Kernel.served_of_handle hp hr hd)
  | lost hr hs hd _ =>
    have hserved := Kernel.served_of_handle hp hr hd
    exact .served hr hs hserved

theorem Quits.leaves {exit : Exit} (hp : Proper n k.envs k.memory) (h : Quits c live k exit k') :
    ∃ k₁ : Kernel, Handled c live k k₁.envs k₁.memory ∧ k₁.Leaves k' := by
  cases h with
  | stayed hr hs hd _ _ _ => exact ⟨k', .served hr hs (Kernel.served_of_handle hp hr hd), .refl k'⟩
  | @passed k₁ _ _ ha hd =>
    exact ⟨k₁, ha.handled hp, k₁, ⟨rfl, rfl⟩, .inr ⟨c, _, Kernel.passed_of_schedule hd⟩⟩

theorem Passed.memory {exit : Exit} (h : Passed c k exit k') : k'.memory = k.memory := by
  cases h with
  | dispatched _ => rfl
  | parked monitor j => rfl

theorem Passed.touched {exit : Exit} (h : Passed c k exit k') : Touched k.envs k'.envs := by
  cases h with
  | dispatched _ => exact Kernel.touched_dispatch _ _ _ _
  | parked monitor j =>
    show Touched k.envs (k.vacated c)
    unfold Kernel.vacated
    split
    · exact .refl _
    · exact touched_update fun y _ => Kernel.title_demoted y

/-- The idle environment that a CPU is handed is its own, and can run. -/
theorem Kernel.idleOf_ready (ht : k.envs.Sound) (h : k.idleOf c = some id) :
    ∃ e, k.envs.find? id = some e ∧ e.kind = .idle ∧ id.index = c.index ∧
      (e.status = .runnable ∨ e.status = .running) := by
  unfold idleOf at h
  split at h
  · next y hy =>
    split at h
    · next hr =>
      cases h
      have hlive : y.isFree = false := by
        rcases hr.2 with h | h
        · simp [Env.isFree, h]
        · simp [Env.isFree, h]
      exact ⟨y, ht.find?_of_slot? hy hlive, hr.1, (ht.named _ y hy hlive).1, hr.2⟩
    · cases h
  · cases h

theorem Passed.chosen (ht : k.envs.Sound) (h : Passed c k (.resume id) k') : ∃ e, k.envs.find? id = some e ∧
    (e.status = .runnable ∧ e.kind ≠ .idle ∨
      e.kind = .idle ∧ id.index = c.index ∧ (e.status = .runnable ∨ e.status = .running)) ∧
    k' = k.dispatched c id ∧ k'.envs.find? id = some (Kernel.promoted c e) := by
  cases h with
  | dispatched hpick =>
    rcases hpick with hpick | hidle
    · obtain ⟨e, he, hr, hk⟩ := Kernel.pick_spec ht.indexed hpick
      exact ⟨e, he, .inl ⟨hr, hk⟩, rfl, by rw [Kernel.find?_dispatched he, if_pos rfl]⟩
    · obtain ⟨e, he, hk, hi, hr⟩ := Kernel.idleOf_ready ht hidle
      exact ⟨e, he, .inr ⟨hk, hi, hr⟩, rfl, by rw [Kernel.find?_dispatched he, if_pos rfl]⟩

theorem Passed.find?_other {exit : Exit} (ht : k.envs.Sound) (h : Passed c k exit k') (hid : exit ≠ .resume id) :
    k'.envs.find? id = (k.envs.find? id).map fun y => if k.currentOf c = some id then Kernel.demoted y else y := by
  cases exit with
  | resume next =>
    obtain ⟨y, hy, -, rfl, -⟩ := h.chosen ht
    rw [Kernel.find?_dispatched hy, if_neg fun hn => hid (congrArg Exit.resume hn.symm)]
  | monitor =>
    cases h with
    | parked monitor j => exact Kernel.find?_vacated id

theorem Kernel.demoted_cases (e : Env) : ∃ status cpu, demoted e = { e with status, cpu } ∧
    (status = e.status ∨
      (e.status = .runnable ∨ e.status = .running) ∧ (status = .runnable ∨ status = .running)) := by
  by_cases hr : e.status = .running
  · exact ⟨.runnable, none, by rw [demoted, if_pos hr], .inr ⟨.inr hr, .inl rfl⟩⟩
  · exact ⟨e.status, e.cpu, by rw [demoted, if_neg hr], .inl rfl⟩

/-- Whoever can run is handed on by a pass, and keeps all but its status, its CPU and its count of turns; the others
keep everything. -/
theorem Passed.find? {exit : Exit} (ht : k.envs.Sound) (h : Passed c k exit k') (hf : k.envs.find? id = some e) :
    ∃ status runs cpu, k'.envs.find? id = some { e with status, runs, cpu } ∧
      (status = e.status ∨
        (e.status = .runnable ∨ e.status = .running) ∧ (status = .runnable ∨ status = .running)) := by
  by_cases hid : exit = .resume id
  · subst hid
    obtain ⟨y, hy, hr, -, hf'⟩ := h.chosen ht
    obtain rfl := find?_unique hy hf
    exact ⟨.running, y.runs + 1, some c, hf', .inr ⟨hr.elim (fun h => .inl h.1) fun h => h.2.2, .inr rfl⟩⟩
  · obtain ⟨status, cpu, hd, hs⟩ := Kernel.demoted_cases e
    rw [h.find?_other ht hid, hf, Option.map_some]
    split
    · exact ⟨status, e.runs, cpu, congrArg some hd, hs⟩
    · exact ⟨e.status, e.runs, e.cpu, rfl, .inl rfl⟩

theorem Served.proper (hp : Proper n t m) (hf : t.find? e.id = some e) (h : Served c e t m t' m') : Proper n t' m' := by
  cases h with
  | ticked => exact hp
  | answered g hm => exact (hp.touched touched_context).spent hm
  | upcalled g _ hm => exact (hp.touched touched_context).stored hm
  | killed hs hm hd => exact (hp.stored hm).released hf hs hd
  | called g _ he => exact (he.proper hp).touched touched_context

theorem Handled.proper (hp : Proper n k.envs k.memory) (h : Handled c live k t' m') : Proper n t' m' := by
  cases h with
  | vacant => exact hp
  | reclaimed hr _ hs hd => exact hp.released (Kernel.runningOn_spec hr).1 hs hd
  | @served e _ _ hr _ hs =>
    have hp' : Proper n (k.saved e.id live).envs k.memory := hp.touched touched_context
    exact hs.proper hp' (Kernel.find?_saved (Kernel.runningOn_spec hr).1)

theorem Kernel.Leaves.memory (h : k.Leaves k') : k'.memory = k.memory := by
  obtain ⟨k₁, ⟨-, hm⟩, h⟩ := h
  rcases h with rfl | ⟨c, exit, h⟩
  · exact hm
  · exact h.memory.trans hm

theorem Kernel.Leaves.touched (h : k.Leaves k') : Touched k.envs k'.envs := by
  obtain ⟨k₁, ⟨he, -⟩, h⟩ := h
  rw [← he]
  rcases h with rfl | ⟨c, exit, h⟩
  · exact .refl _
  · exact h.touched

theorem Kernel.Leaves.proper (hp : Proper n k.envs k.memory) (h : k.Leaves k') : Proper n k'.envs k'.memory := by
  rw [h.memory]
  exact hp.touched h.touched

end Exokernel
