import Exokernel.Proofs.Trap.Round

/-!
# What meddling does

A call that meddles succeeds. One that strands a child frees it although some CPU still executes it, or clears the
mark that this CPU looks for. One that rouses a child makes it runnable in the middle of a message operation.
-/

set_option autoImplicit false

namespace Exokernel

open Env (Id Kind Status)
open Env.Table

variable {ε : Type} {n : Nat} {b : Seats} {current : Array (Option Id)} {c : Cpu} {caller target id : Id}
  {k k' : Kernel} {e : Env} {live : Context} {call : Call}

def Lost (b : Seats) (caller : Id) (k : Kernel) : Prop :=
  ∃ d id, b d = some id ∧ id ≠ caller ∧ k.currentOf d = some id ∧
    ∀ e, k.envs.find? id = some e → e.status ≠ .running ∧ e.status ≠ .dying ∧ e.kind ≠ .idle

structure Roused (n : Nat) (b : Seats) (caller : Id) (e : Env) (k : Kernel) : Prop where
  orderly : Orderly n k b (some e.id)
  found : k.envs.find? e.id = some e
  other : e.id ≠ caller
  child : e.parent = caller
  guest : e.kind ≠ .idle
  runnable : e.status = .runnable
  blocked : Blocked e

def Stays (c : Cpu) (caller : Id) (k : Kernel) : Prop :=
  ∃ e, k.envs.find? caller = some e ∧ e.status = .running ∧ e.cpu = some c ∧ e.kind ≠ .idle

theorem OnCpu.stays (h : OnCpu n b current caller k) (hb : b c = some caller) : Stays c caller k := by
  obtain ⟨y, hy, hr, hk⟩ := h.running
  exact ⟨y, hy, hr, (h.caller_spec hb hy).2.2.1, hk⟩

theorem Stays.update {f : Env → Env} (h : Stays c caller k) (htitle : ∀ e, e.isFree = false → (f e).title = e.title)
    (hne : caller ≠ target) : Stays c caller { k with envs := k.envs.update target f } := by
  obtain ⟨y, hy, hrest⟩ := h
  refine ⟨y, ?_, hrest⟩
  show (k.envs.update target f).find? caller = some y
  rw [find?_update htitle, if_neg hne, hy]

theorem Stays.touch {f : Env → Env} (h : Stays c caller k) (hc : ∀ e, (f e).core = e.core) :
    Stays c caller { k with envs := k.envs.update caller f } := by
  obtain ⟨y, hy, hr, hcpu, hk⟩ := h
  have htitle : ∀ e, e.isFree = false → (f e).title = e.title := fun e _ => title_of_core (hc e)
  have hs := stance_of_core (hc y)
  refine ⟨f y, ?_, (status_of_stance hs).trans hr, (cpu_of_stance hs).trans hcpu,
    fun hi => hk ((kind_of_stance hs).symm.trans hi)⟩
  show (k.envs.update caller f).find? caller = some (f y)
  rw [find?_update htitle, if_pos rfl, hy]
  rfl

namespace Kernel

theorem destroyFor_dying (hi : Intact n k.envs k.memory) (hf : k.envs.find? target = some e)
    (hd : e.status = .dying) (hne : target ≠ caller) :
    ∃ m j, destroyFor c caller target k = .done {}
      { k with envs := k.envs.released target e, memory := m, journal := j } := by
  rw [destroyFor, record_bind]
  generalize k.journal.record _ = j
  obtain ⟨m, j', hd⟩ := destroy_dying (c := c) (k := { k with journal := j }) hi hf hd
  have hd' : ((destroy target c).mapError CallError.env) { k with journal := j } = .done .freed
      { k with envs := k.envs.released target e, memory := m, journal := j' } := by
    rw [Action.mapError, hd]
  rw [Action.bind_done hd']
  have hre : decide (Reclaim.freed = .freed ∧ target = caller) = false := by simp [hne]
  rw [hre]
  exact ⟨m, j', rfl⟩

theorem destroyFor_doomed (h : OnCpu n b current caller k) (hb : b c = some caller)
    (hf : k.envs.find? target = some e) (hz : Doomed b e) :
    ∃ k', destroyFor c caller target k = .done {} k' ∧ k'.current = k.current ∧ Stays c caller k' ∧
      Lost b caller k' := by
  have hne : caller ≠ target := by
    rintro rfl
    have hd := hz.1
    rw [(h.caller_spec hb hf).1] at hd
    cases hd
  obtain ⟨y, hy, hr, hk⟩ := h.running
  obtain ⟨-, -, hcpu, -, ho⟩ := h.caller_spec hb hy
  obtain ⟨y', hy', hs, hkind, hcpu'⟩ := find?_released_other hf hne hy ho
  obtain ⟨m, j, hd⟩ := destroyFor_dying h.orderly.intact hf hz.1 (Ne.symm hne)
  refine ⟨_, hd, rfl, ?_, ?_⟩
  · exact ⟨y', hy', hs.trans hr, hcpu'.trans hcpu, fun hi => hk (hkind.symm.trans hi)⟩
  · obtain ⟨d, hd⟩ := hz.2
    rw [id_of_find? hf] at hd
    refine ⟨d, target, hd, Ne.symm hne, h.orderly.scheduled.lastOn_of_seat hd, fun z hz' => ?_⟩
    have hgone := find?_released_self hf
    rw [show (k.envs.released target e).find? target = some z from hz'] at hgone
    cases hgone

theorem authorize_of_lookup (hl : k.envs.lookup id (some caller) true = .ok e) :
    authorize caller id k = .done e.id k := by
  rw [authorize, Action.state_bind, Env.Table.resolve, hl]
  rfl

/-- Without a check that refuses it, a status is set. -/
theorem changeStatus_done {status : Status} (hl : k.envs.lookup id (some caller) true = .ok e)
    (hs : status = .notRunnable ∨ status = .runnable) (hr : e.status ≠ .running) (hne : e.id ≠ caller) :
    changeStatus c caller id status k = .done {}
      { k with envs := k.envs.update e.id fun e => { e with status, cpu := none } } := by
  obtain ⟨hf, -⟩ := lookup_spec hl
  have hfree : ¬(status = .free ∨ status = .dying) := by
    rcases hs with rfl | rfl <;> decide
  have hnofree : status ≠ .free := fun h => hfree (.inl h)
  have hnorun : status ≠ .running := by
    rcases hs with rfl | rfl <;> decide
  have helsewhere : ¬(e.status = .running ∧ e.cpu ≠ some c) := fun h => hr h.1
  rw [changeStatus, Action.bind_done (authorize_of_lookup hl)]
  simp only [if_neg hfree]
  rw [readEnv_mapError_bind _ hf]
  simp only [if_neg helsewhere]
  rw [Action.mapError_bind_done (setStatus_done hf hnofree)]
  simp [hne, hnorun]

theorem title_reset {status : Status} (hs : status = .notRunnable ∨ status = .runnable) (e : Env)
    (he : e.isFree = false) : ({ e with status, cpu := none } : Env).title = e.title := by
  have hfree : status ≠ .free := by
    rcases hs with rfl | rfl
    · decide
    · decide
  exact Env.title_of_live rfl rfl rfl hfree he

/-- Setting the status of a doomed environment makes its CPU lose it. -/
theorem changeStatus_doomed {status : Status} (h : OnCpu n b current caller k) (hb : b c = some caller)
    (hl : k.envs.lookup id (some caller) true = .ok e) (hz : Doomed b e) (hs : status ≠ .running) :
    ∃ k', changeStatus c caller id status k = .done {} k' ∧ k'.current = k.current ∧ Stays c caller k' ∧
      Lost b caller k' := by
  obtain ⟨hf, hk⟩ := h.reach_spec hl
  have hne : e.id ≠ caller := by
    intro hid
    rw [hid] at hf
    have hd := hz.1
    rw [(h.caller_spec hb hf).1] at hd
    cases hd
  by_cases hfree : status = .free ∨ status = .dying
  · have hauth : changeStatus c caller id status k = destroyFor c caller e.id k := by
      rw [changeStatus, Action.bind_done (authorize_of_lookup hl)]
      simp only [if_pos hfree]
    rw [hauth]
    exact destroyFor_doomed h hb hf hz
  · have hset : status = .notRunnable ∨ status = .runnable := by
      cases status with
      | free => exact absurd (.inl rfl) hfree
      | dying => exact absurd (.inr rfl) hfree
      | running => exact absurd rfl hs
      | notRunnable => exact .inl rfl
      | runnable => exact .inr rfl
    have hr : e.status ≠ .running := by rw [hz.1]; decide
    refine ⟨_, changeStatus_done hl hset hr hne, rfl, (h.stays hb).update (title_reset hset) (Ne.symm hne), ?_⟩
    obtain ⟨d, hd⟩ := hz.2
    refine ⟨d, e.id, hd, hne, h.orderly.scheduled.lastOn_of_seat hd, fun y hy => ?_⟩
    change (k.envs.update e.id _).find? e.id = some y at hy
    rw [find?_update (title_reset hset), if_pos rfl, hf] at hy
    obtain rfl := Option.some.inj hy
    rcases hset with rfl | rfl
    · exact ⟨by simp, by simp, hk⟩
    · exact ⟨by simp, by simp, hk⟩

theorem changeStatus_blocked (h : Orderly n k b (some e.id)) (hst : Stays c caller k)
    (hl : k.envs.lookup id (some caller) true = .ok e) (hs : e.status = .notRunnable) (hbl : Blocked e)
    (hk : e.kind ≠ .idle) : ∃ k', changeStatus c caller id .runnable k = .done {} k' ∧ k'.current = k.current ∧
      Stays c caller k' ∧ Roused n b caller { e with status := .runnable, cpu := none } k' := by
  obtain ⟨hf, hor⟩ := lookup_spec hl
  have hr : e.status ≠ .running := by rw [hs]; decide
  have hne : e.id ≠ caller := by
    intro hid
    obtain ⟨y, hy, hrun, -⟩ := hst
    rw [← hid, hf] at hy
    obtain rfl := Option.some.inj hy
    exact hr hrun
  have htitle : ∀ y : Env, y.isFree = false → ({ y with status := .runnable, cpu := none } : Env).title = y.title :=
    title_reset (.inr rfl)
  refine ⟨_, changeStatus_done hl (.inr rfl) hr hne, rfl, hst.update htitle (Ne.symm hne), ?_⟩
  refine ⟨?_, ?_, hne, hor.resolve_left hne, hk, rfl, hbl⟩
  · refine h.update hf htitle rfl (fun _ => rfl) (fun _ => rfl) (.refl _ b) ?_ ?_
    · refine ⟨?_, fun hx => absurd rfl hx, fun hx => absurd rfl hx, fun hi => absurd hi hk⟩
      intro h'
      cases h'
    · intro d hd
      refine absurd hd (h.scheduled.seatless hf hr ?_ d)
      rw [hs]
      decide
  · show (k.envs.update e.id _).find? e.id = _
    rw [find?_update htitle, if_pos rfl, hf]
    rfl

theorem perform_strands (h : OnCpu n b current caller k) (hb : b c = some caller) (hm : Strands k.envs b caller call)
    (hs : ∀ id, call ≠ .setStatus id .running) :
    ∃ k', perform c caller call k = .done {} k' ∧ k'.current = k.current ∧ Stays c caller k' ∧ Lost b caller k' := by
  cases call with
  | destroy id =>
    obtain ⟨e, hl, hz⟩ := hm
    rw [perform, Action.bind_done (authorize_of_lookup hl)]
    exact destroyFor_doomed h hb (lookup_spec hl).1 hz
  | setStatus id status =>
    obtain ⟨e, hl, hz⟩ := hm
    exact changeStatus_doomed h hb hl hz fun hr => hs id (congrArg (Call.setStatus id) hr)
  | _ => exact hm.elim

def answered (k : Kernel) (id : Env.Id) : Kernel :=
  { k with envs := k.envs.update id fun e => { e with context := e.context.setAnswer 0 } }

theorem find?_answered (j : Env.Id) : (k.answered id).envs.find? j =
    if j = id then (k.envs.find? id).map fun e => { e with context := e.context.setAnswer 0 } else k.envs.find? j := by
  show (k.envs.update id fun e => { e with context := e.context.setAnswer 0 }).find? j = _
  rw [find?_update Env.title_context]

theorem orderly_answered {x : Option Env.Id} (h : Orderly n k b x) : Orderly n (k.answered id) b x :=
  h.touch fun _ => rfl

theorem handle_system (hn : live.number = Trap.systemCall) :
    (handle c { e with context := live } : Action Kernel ε Bool) = callTrap c { e with context := live } := by
  have hne : ∀ w : Word, w ≠ Trap.systemCall → live.number ≠ w := fun w hw h => hw (h.symm.trans hn)
  have hstop : ¬(live.number = Trap.breakpoint ∨ live.number = Trap.debug) :=
    not_or.mpr ⟨hne _ (by decide), hne _ (by decide)⟩
  rw [handle]
  simp only [if_neg (hne Trap.pageFault (by decide)), if_neg hstop, if_pos hn]

theorem handle_call (hcall : live.call? = some call) : live.number = Trap.systemCall ∧
    CallTable.standard.decode live.callNumber live.callArguments = .ok call ∧
    (handle c { e with context := live } : Action Kernel ε Bool) = callTrap c { e with context := live } := by
  unfold Context.call? at hcall
  split at hcall
  · next hn =>
    refine ⟨hn, ?_, handle_system hn⟩
    cases hd : CallTable.standard.decode live.callNumber live.callArguments with
    | error cause =>
      rw [hd] at hcall
      cases hcall
    | ok call' =>
      rw [hd] at hcall
      exact congrArg Except.ok (Option.some.inj hcall)
  · cases hcall

theorem handle_of_perform {again : Bool} {k₁ : Kernel} (hcall : live.call? = some call)
    (hd : perform c e.id call k = .done { reschedule := again } k₁) :
    (handle c { e with context := live } : Action Kernel ε Bool) k = .done again (k₁.answered e.id) := by
  obtain ⟨-, hdec, hhandle⟩ := handle_call (ε := ε) (c := c) (e := e) hcall
  have hsys : ((callSystem .standard c e.id live.callNumber live.callArguments).attempt :
      Action Kernel ε _) k = .done (.ok { reschedule := again }) k₁ := by
    rw [Action.attempt, callSystem, hdec, Action.lift_ok_bind, hd]
  rw [hhandle, callTrap]
  simp only
  rw [Action.bind_done hsys]
  rfl

theorem trap_of_perform {again : Bool} {k₁ : Kernel} (hmode : live.mode = .user) (hr : k.runningOn c = some e)
    (hs : e.status = .running) (hcall : live.call? = some call)
    (hd : perform c e.id call (k.saved e.id live) = .done { reschedule := again } k₁) :
    (trap c live : Action Kernel ε (Exit × Context)) k = leave c e.id live again (k₁.answered e.id) := by
  have hlive : e.status ≠ .dying := by rw [hs]; decide
  rw [trap_running hmode hr hlive, Action.bind_done (handle_of_perform hcall hd)]

theorem trap_stays {k₁ : Kernel} (hmode : live.mode = .user) (hr : k.runningOn c = some e)
    (hs : e.status = .running) (hcall : live.call? = some call)
    (hd : perform c e.id call (k.saved e.id live) = .done {} k₁) (hst : Stays c e.id k₁) :
    ∃ ctx, (trap c live : Action Kernel ε (Exit × Context)) k = .done (.resume e.id, ctx) (k₁.answered e.id) := by
  obtain ⟨y, hy, hrun, hcpu, -⟩ : Stays c e.id (k₁.answered e.id) := hst.touch fun _ => rfl
  exact ⟨y.context, (trap_of_perform hmode hr hs hcall hd).trans (leave_running live hy hrun hcpu)⟩

/-- The trap of a program that strands a child resumes the program. -/
theorem trap_strands (h : Orderly n k b none) (hmode : live.mode = .user) (hb : b c = some caller)
    (hf : k.envs.find? caller = some e) (hr : e.status = .running) (hk : e.kind ≠ .idle)
    (hcall : live.call? = some call) (hm : Strands k.envs b caller call) :
    ∃ ctx k', (trap c live : Action Kernel ε (Exit × Context)) k = .done (.resume caller, ctx) k' ∧
      Lost b caller k' := by
  obtain ⟨y, hrun, hid, hy⟩ := runningOn_of_seat h hb
  obtain rfl := find?_unique hf hy
  obtain rfl := hid
  have hon : OnCpu n b (k.saved e.id live).current e.id (k.saved e.id live) :=
    ⟨orderly_saved h, rfl, _, find?_saved hf, hr, hk⟩
  obtain ⟨-, hdec, -⟩ := handle_call (ε := ε) (c := c) (e := e) hcall
  obtain ⟨k₁, hd, -, hst, hlost⟩ := perform_strands hon hb ((strands_saved call).mpr hm) (decode_ne hdec)
  obtain ⟨ctx, htrap⟩ := trap_stays (ε := ε) hmode hrun hr hcall hd hst
  refine ⟨ctx, _, htrap, ?_⟩
  obtain ⟨d, id, hd', hne, hl, hgone⟩ := hlost
  refine ⟨d, id, hd', hne, hl, fun z hz => hgone z ?_⟩
  rw [find?_answered, if_neg hne] at hz
  exact hz

theorem lookup_saved (hl : k.envs.lookup id (some caller) true = .ok e) (hne : e.id ≠ caller) :
    (k.saved caller live).envs.lookup id (some caller) true = .ok e := by
  obtain ⟨hj, hf, hor⟩ := lookup_resolved hl
  rw [lookup_eq]
  have hf₁ : (k.saved caller live).envs.find? e.id = some e := (find?_saved_of_ne hne).trans hf
  rw [hj, get_of_find? hf₁]
  simp only [Except.bind, if_pos hor]

/-- The trap of a program that rouses a child resumes the program. -/
theorem trap_rouses (h : Orderly n k b (some e.id)) (hmode : live.mode = .user) (hb : b c = some caller)
    (hst : Stays c caller k) (hcall : live.call? = some (.setStatus id .runnable))
    (hl : k.envs.lookup id (some caller) true = .ok e) (hs : e.status = .notRunnable) (hbl : Blocked e)
    (hk : e.kind ≠ .idle) :
    ∃ ctx k', (trap c live : Action Kernel ε (Exit × Context)) k = .done (.resume caller, ctx) k' ∧
      k'.current = k.current ∧ Stays c caller k' ∧
      Roused n b caller { e with status := .runnable, cpu := none } k' := by
  obtain ⟨y, hrun, hid, hy⟩ := runningOn_of_seat h hb
  obtain rfl := hid
  have hr : y.status = .running := by
    obtain ⟨y', hy', hr, -⟩ := hst
    rw [hy] at hy'
    exact Option.some.inj hy' ▸ hr
  have hne : e.id ≠ y.id := by
    intro hid
    have hf := (lookup_spec hl).1
    rw [hid, hy] at hf
    obtain rfl := Option.some.inj hf
    rw [hs] at hr
    cases hr
  have hsaved : Stays c y.id (k.saved y.id live) := hst.touch fun _ => rfl
  obtain ⟨k₁, hd, hc, hst₁, hroused⟩ := changeStatus_blocked (orderly_saved h) hsaved (lookup_saved hl hne) hs hbl hk
  obtain ⟨ctx, htrap⟩ := trap_stays (ε := ε) hmode hrun hr hcall hd hst₁
  refine ⟨ctx, _, htrap, hc, hst₁.touch fun _ => rfl, orderly_answered hroused.orderly, ?_, hroused.other,
    hroused.child, hroused.guest, hroused.runnable, hroused.blocked⟩
  rw [find?_answered, if_neg hroused.other]
  exact hroused.found

end Kernel

end Exokernel
