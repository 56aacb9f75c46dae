import Exokernel.Proofs.Trap.Serving

/-!
# A trap from entry to exit
-/

set_option autoImplicit false

namespace Exokernel

open Env (Id Kind Status)
open Env.Table

def Context.call? (ctx : Context) : Option Call :=
  if ctx.number = Trap.systemCall then
    (CallTable.standard.decode ctx.callNumber ctx.callArguments).toOption
  else none

theorem Context.number_of_call {live : Context} {call : Call} (h : live.call? = some call) :
    live.number = Trap.systemCall := by
  unfold Context.call? at h
  split at h
  · next hn => exact hn
  · cases h

variable {ε : Type} {n : Nat} {b b₁ : Seats} {current : Array (Option Id)} {c : Cpu} {caller id : Id} {k : Kernel}
  {e : Env} {live : Context}

namespace Kernel

def noted (k : Kernel) (live : Context) : Kernel := { k with progress := k.progress + 1, lastTrap := live }

def saved (k : Kernel) (id : Env.Id) (live : Context) : Kernel :=
  { k.noted live with envs := k.envs.update id fun e => { e with context := live } }

def leave (c : Cpu) (id : Env.Id) (live : Context) (again : Bool) : Action Kernel ε (Exit × Context) := do
  if ((← .state).envs.find? id).isNone then forget c
  if again then reschedule c live else resumeSame c id live

section entry

variable (hmode : live.mode = .user)
include hmode

theorem trap_entry : (trap c live : Action Kernel ε (Exit × Context)) k =
    (match k.runningOn c with
      | none => if live.number = Trap.timer then reschedule c live else .halt (.noCurrent live)
      | some e =>
        if e.status = .dying then do
          reclaim c e.id
          reschedule c live
        else do
          updateEnv e.id fun e => { e with context := live }
          leave c e.id live (← handle c { e with context := live }) :
        Action Kernel ε (Exit × Context)) (k.noted live) := by
  have hm : ¬live.mode = .kernel := by rw [hmode]; decide
  rw [trap, noteProgress_bind, Action.modify_bind]
  simp only [if_neg hm]
  rfl

theorem trap_timer (hr : k.runningOn c = none) (ht : live.number = Trap.timer) :
    (trap c live : Action Kernel ε (Exit × Context)) k = reschedule c live (k.noted live) := by
  rw [trap_entry hmode, hr]
  simp only [if_pos ht]

theorem trap_stray (hr : k.runningOn c = none) (ht : live.number ≠ Trap.timer) :
    (trap c live : Action Kernel ε (Exit × Context)) k = .halted (.noCurrent live) := by
  rw [trap_entry hmode, hr]
  simp only [if_neg ht]
  rfl

theorem trap_dying (hr : k.runningOn c = some e) (hs : e.status = .dying) :
    (trap c live : Action Kernel ε (Exit × Context)) k = (do
      reclaim c e.id
      reschedule c live) (k.noted live) := by
  rw [trap_entry hmode, hr]
  simp only [if_pos hs]

theorem trap_running (hr : k.runningOn c = some e) (hs : e.status ≠ .dying) :
    (trap c live : Action Kernel ε (Exit × Context)) k = (do
      leave c e.id live (← handle c { e with context := live })) (k.saved e.id live) := by
  rw [trap_entry hmode, hr]
  simp only [if_neg hs]
  rfl

end entry

theorem handle_timer (ht : live.number = Trap.timer) :
    (handle c { e with context := live } : Action Kernel ε Bool) k = .done true k := by
  have hne : ∀ w : Word, w ≠ Trap.timer → live.number ≠ w := fun w hw h => hw (h.symm.trans ht)
  have hstop : ¬(live.number = Trap.breakpoint ∨ live.number = Trap.debug) :=
    not_or.mpr ⟨hne _ (by decide), hne _ (by decide)⟩
  rw [handle]
  simp only [if_neg (hne Trap.pageFault (by decide)), if_neg hstop, if_neg (hne Trap.systemCall (by decide)), if_pos ht]
  rfl

theorem find?_saved (hf : k.envs.find? id = some e) :
    (k.saved id live).envs.find? id = some { e with context := live } := by
  show (k.envs.update id fun y => { y with context := live }).find? id = _
  rw [find?_update Env.title_context, if_pos rfl, hf]
  rfl

theorem find?_saved_of_ne (hne : id ≠ caller) :
    (k.saved caller live).envs.find? id = k.envs.find? id := by
  show (k.envs.update caller fun y => { y with context := live }).find? id = _
  rw [find?_update Env.title_context, if_neg hne]

theorem orderly_saved {x : Option Env.Id} (h : Orderly n k b x) : Orderly n (k.saved id live) b x := by
  have hnoted : Orderly n (k.noted live) b x := h.congr h.intact rfl rfl
  exact hnoted.touch fun _ => rfl

theorem lastHere_of_forgotten (hl : k.currentOf c = none) : LastHere k b c := by
  intro id e hl'
  rw [hl] at hl'
  cases hl'

theorem currentOf_forget (hc : c.index < k.current.size) :
    ({ k with current := k.current.setIfInBounds c.index none } : Kernel).currentOf c = none := lastOn_set_self hc

theorem orderly_forget (h : Orderly n k b none) (hb : b c = none) :
    Orderly n { k with current := k.current.setIfInBounds c.index none } b none := by
  refine ⟨h.intact, h.scheduled.setLast (fun j hj => ?_) fun j e hj => ?_, h.counted⟩
  · rw [hb] at hj
    cases hj
  · cases hj

theorem reschedule_emptied (live : Context) (h : Orderly n k b₁ none) (hb : b₁ = b ∨ b₁ = Function.update b c none)
    (hs : LastHere k b₁ c) (hc : c.index < k.current.size) :
    ∃ exit ctx k', (reschedule c live : Action Kernel ε (Exit × Context)) k = .done (exit, ctx) k' ∧
      Orderly n k' (Function.update b c exit.seat) none ∧ k'.current.size = k.current.size := by
  obtain ⟨exit, ctx, k', hd, ho, hsize⟩ := reschedule_spec (ε := ε) live h hs hc
  refine ⟨exit, ctx, k', hd, ?_, hsize⟩
  rcases hb with rfl | rfl
  · exact ho
  · rw [Function.update_idem] at ho
    exact ho

/-- A destroyed environment is freed at the next trap of its CPU. -/
theorem reclaim_spec (h : Orderly n k b none) (hr : k.runningOn c = some e) (hs : e.status = .dying)
    (hc : c.index < k.current.size) :
    ∃ k', (reclaim c e.id : Action Kernel ε Unit) k = .done () k' ∧ Orderly n k' (Function.update b c none) none ∧
      k'.currentOf c = none ∧ k'.current.size = k.current.size := by
  obtain ⟨hf, hl, -, hcpu⟩ := runningOn_spec hr
  have hk : e.kind ≠ .idle := by
    intro hk
    rcases ((h.scheduled.fit _ e hf).idle hk).2.2 with h' | ⟨h', -⟩
    · rw [hs] at h'
      cases h'
    · rw [hs] at h'
      cases h'
  have hseat : ∀ d, Function.update b c none d ≠ some e.id := by
    intro d hd
    obtain ⟨hdc, hbd⟩ := seat_of_vacated hd
    obtain ⟨y, hy, -, hy', -⟩ := h.scheduled.hosted d _ hbd
    obtain rfl := find?_unique hf hy
    rw [hcpu] at hy'
    exact hdc (Option.some.inj hy').symm
  rw [reclaim, record_bind]
  generalize k.journal.record _ = j
  have h₁ : Orderly n { k with journal := j } b none := h.congr h.intact rfl rfl
  obtain ⟨m, j', hd, ho⟩ := h₁.freed hf hk
    (sameOthers_update (fun i hi => h.last_of_seat hl hi) fun i hi => by cases hi) hseat
  have hattempt : ((free e.id).attempt : Action Kernel ε _) { k with journal := j } =
      .done (.ok ()) { k with envs := k.envs.released e.id e, memory := m, journal := j' } := by
    rw [Action.attempt, hd]
  rw [Action.bind_done hattempt]
  refine ⟨_, rfl, orderly_forget ho (Function.update_self c none b), currentOf_forget hc, ?_⟩
  exact Array.size_setIfInBounds

theorem leave_running (live : Context) (hf : k.envs.find? caller = some e) (hr : e.status = .running)
    (hcpu : e.cpu = some c) : (leave c caller live false : Action Kernel ε (Exit × Context)) k =
      .done (.resume caller, e.context) k := by
  have hthere : ¬(k.envs.find? caller).isNone = true := by simp [hf]
  rw [leave, Action.state_bind]
  simp only [if_neg hthere, Bool.false_eq_true, if_false]
  rw [resumeSame, Action.state_bind]
  simp only [hf, hr, hcpu, and_self, if_true]
  rfl

theorem leave_runnable (live : Context) (hf : k.envs.find? caller = some e) (hs : e.status = .runnable) :
    (leave c caller live false : Action Kernel ε (Exit × Context)) k = .halted (.resumeNotRunning e.context) := by
  have hthere : ¬(k.envs.find? caller).isNone = true := by simp [hf]
  rw [leave, Action.state_bind]
  simp only [if_neg hthere, Bool.false_eq_true, if_false]
  rw [resumeSame, Action.state_bind]
  simp only [hf, hs]
  rfl

/-- Whoever was served is resumed if it stays on its CPU; else the CPU gets other work. -/
theorem leave_spec {again : Bool} (live : Context) (h : Ends n b current c caller again k) (hb : b c = some caller)
    (hl : k.currentOf c = some caller) (hu : ∀ d, b d = some caller → d = c) (hc : c.index < k.current.size) :
    ∃ exit ctx k', (leave c caller live again : Action Kernel ε (Exit × Context)) k = .done (exit, ctx) k' ∧
      Orderly n k' (Function.update b c exit.seat) none ∧ k'.current.size = k.current.size := by
  rcases h with h | ⟨rfl, h⟩
  · obtain ⟨e, hf, hr, hk⟩ := h.running
    cases again with
    | true =>
      have hthere : ¬(k.envs.find? caller).isNone = true := by simp [hf]
      rw [leave, Action.state_bind]
      simp only [if_neg hthere, if_true]
      refine reschedule_emptied live h.orderly (.inl rfl) ?_ hc
      intro id y hl' hy _
      rw [hl] at hl'
      exact hl' ▸ hb
    | false =>
      refine ⟨.resume caller, e.context, k, leave_running live hf hr (h.caller_spec hb hf).2.2.1, ?_, rfl⟩
      rw [Exit.seat, ← hb, Function.update_eq_self]
      exact h.orderly
  · rw [leave, Action.state_bind]
    by_cases hthere : (k.envs.find? caller).isNone = true
    · simp only [if_pos hthere, if_true]
      have ho := orderly_forget h.orderly (Function.update_self c none b)
      obtain ⟨exit, ctx, k', hd, ho', hsize⟩ := reschedule_emptied (ε := ε) live ho (.inr rfl)
        (lastHere_of_forgotten (currentOf_forget hc)) (by simpa using hc)
      refine ⟨exit, ctx, k', hd, ho', hsize.trans ?_⟩
      exact Array.size_setIfInBounds
    · simp only [if_neg hthere, if_true]
      refine reschedule_emptied live h.orderly (.inr rfl) ?_ hc
      intro id y hl' hy hrun
      rw [hl] at hl'
      obtain rfl := Option.some.inj hl'
      -- Whoever runs sits somewhere, but nobody took the caller's seat elsewhere.
      obtain ⟨d, -, hd⟩ := (h.orderly.scheduled.fit _ y hy).running hrun
      rw [id_of_find? hy] at hd
      by_cases hdc : d = c
      · subst hdc
        exact hd
      · rw [Function.update_of_ne hdc] at hd
        exact absurd (hu d hd) hdc

theorem strands_saved (call : Call) : Strands (k.saved id live).envs b caller call ↔ Strands k.envs b caller call := by
  have hcore : ∀ e : Env, ({ e with context := live } : Env).core = e.core := fun _ => rfl
  exact strands_touch hcore call

theorem rouses_saved (call : Call) : Rouses (k.saved id live).envs caller call ↔ Rouses k.envs caller call := by
  have hcore : ∀ e : Env, ({ e with context := live } : Env).core = e.core := fun _ => rfl
  exact rouses_touch hcore call

/-- Serving a trap of a program that does not meddle. -/
theorem serve_spec (h : OnCpu n b k.current caller k) (hb : b c = some caller) (hl : k.currentOf c = some caller)
    (hc : c.index < k.current.size) (hid : e.id = caller)
    (hm : ∀ call, e.context.call? = some call → ¬Meddles k.envs b caller call) :
    ∃ exit ctx k', (do leave c caller live (← handle c e) : Action Kernel ε (Exit × Context)) k =
        .done (exit, ctx) k' ∧
      Orderly n k' (Function.update b c exit.seat) none ∧ k'.current.size = k.current.size := by
  have hu : ∀ d, b d = some caller → d = c := fun d hd => h.orderly.scheduled.seat_unique hb hd
  have hhandle : (handle c e k : Outcome Kernel ε Bool).Meets (Ends n b k.current c caller) (fun _ _ => False)
      fun _ => False := by
    refine handle_spec h hb hid fun hnum call hd => hm call ?_
    rw [Context.call?, if_pos hnum, hd]
    rfl
  obtain ⟨again, k₁, hd, h₁⟩ := hhandle.done
  rw [Action.bind_done hd]
  have hcur : k₁.current = k.current := h₁.current_eq
  have hl₁ : k₁.currentOf c = some caller := by
    rw [currentOf, hcur]
    exact hl
  have hc₁ : c.index < k₁.current.size := by
    rw [hcur]
    exact hc
  obtain ⟨exit, ctx, k', hd', ho', hsize⟩ := leave_spec live (hcur ▸ h₁) hb hl₁ hu hc₁
  exact ⟨exit, ctx, k', hd', ho', by rw [hsize, hcur]⟩

theorem tick_spec (h : Orderly n k b none) (hb : b c = some caller) (hl : k.currentOf c = some caller)
    (hf : k.envs.find? caller = some e) (hc : c.index < k.current.size) (ht : live.number = Trap.timer) (y : Env) :
    ∃ exit ctx k', (do leave c caller live (← handle c { y with context := live }) :
        Action Kernel ε (Exit × Context)) k = .done (exit, ctx) k' ∧
      Orderly n k' (Function.update b c exit.seat) none ∧ k'.current.size = k.current.size := by
  have hthere : ¬(k.envs.find? caller).isNone = true := by simp [hf]
  rw [Action.bind_done (handle_timer ht), leave, Action.state_bind]
  simp only [if_neg hthere, if_true]
  refine reschedule_spec live h ?_ hc
  intro id _ hl' _ _
  rw [hl] at hl'
  exact hl' ▸ hb

/-- A trap of a CPU ends in order, unless its program meddles or its last environment runs elsewhere. A CPU that
executes no program of its own raises timer traps only. -/
theorem trap_spec (h : Orderly n k b none) (hmode : live.mode = .user) (hc : c.index < k.current.size)
    (hlast : LastHere k b c)
    (hguest : live.number ≠ Trap.timer → ∃ id e, b c = some id ∧ k.envs.find? id = some e ∧ e.kind ≠ .idle)
    (hm : ∀ id e call, b c = some id → k.envs.find? id = some e → e.status = .running → live.call? = some call →
      ¬Meddles k.envs b id call) :
    ∃ exit ctx k', (trap c live : Action Kernel ε (Exit × Context)) k = .done (exit, ctx) k' ∧
      Orderly n k' (Function.update b c exit.seat) none ∧ k'.current.size = k.current.size := by
  have hnoted : Orderly n (k.noted live) b none := h.congr h.intact rfl rfl
  cases hr : k.runningOn c with
  | none =>
    by_cases ht : live.number = Trap.timer
    · rw [trap_timer hmode hr ht]
      exact reschedule_spec live hnoted hlast hc
    · obtain ⟨id, e, hb, -⟩ := hguest ht
      obtain ⟨y, hy, -⟩ := runningOn_of_seat h hb
      rw [hr] at hy
      cases hy
  | some e =>
    obtain ⟨hf, hl, hor, hcpu⟩ := runningOn_spec hr
    by_cases hs : e.status = .dying
    · obtain ⟨k₁, hd, ho, hl₁, hsize⟩ := reclaim_spec (ε := ε) hnoted hr hs hc
      rw [trap_dying hmode hr hs, Action.bind_done hd]
      have hc₁ : c.index < k₁.current.size := by
        rw [hsize]
        exact hc
      obtain ⟨exit, ctx, k', hd', ho', hsize'⟩ := reschedule_emptied live ho (.inr rfl) (lastHere_of_forgotten hl₁) hc₁
      exact ⟨exit, ctx, k', hd', ho', hsize'.trans hsize⟩
    · have hrun : e.status = .running := hor.resolve_right hs
      have hb : b c = some e.id := by
        obtain ⟨d, hd, hb⟩ := (h.scheduled.fit _ e hf).running hrun
        rw [hcpu] at hd
        obtain rfl := Option.some.inj hd
        exact hb
      have hsaved : Orderly n (k.saved e.id live) b none := orderly_saved h
      have hfsaved : (k.saved e.id live).envs.find? e.id = some { e with context := live } := find?_saved hf
      rw [trap_running hmode hr hs]
      by_cases ht : live.number = Trap.timer
      · exact tick_spec hsaved hb hl hfsaved hc ht e
      · have hk : e.kind ≠ .idle := by
          obtain ⟨id, y, hb', hy, hk⟩ := hguest ht
          rw [hb] at hb'
          obtain rfl := Option.some.inj hb'
          obtain rfl := find?_unique hf hy
          exact hk
        have hon : OnCpu n b (k.saved e.id live).current e.id (k.saved e.id live) :=
          ⟨hsaved, rfl, _, hfsaved, hrun, hk⟩
        refine serve_spec hon hb hl hc rfl fun call hcall hmed => ?_
        exact hm e.id e call hb hf hrun hcall (hmed.imp (strands_saved call).mp (rouses_saved call).mp)

end Kernel

end Exokernel
