import Exokernel.Proofs.Syscall.Serving

/-!
# Traps and the scheduler

Where a scheduling pass takes a CPU. However a trap is handled, its CPU ends in the seat of whoever it resumes, and
everybody else stays where they were. The handler of a system call must not meddle.
-/

set_option autoImplicit false

namespace Exokernel

open Env (Id Kind Status)
open Env.Table

def Exit.seat : Exit → Option Env.Id
  | .resume id => some id
  | .monitor => none

namespace Kernel

variable {ε : Type} {n : Nat} {k : Kernel} {b : Seats} {x : Option Env.Id} {id last : Env.Id} {e : Env} {c : Cpu}

theorem reschedule_of_run (live : Context)
    (hd : (schedule c : Action Kernel ε Decision) k = .done (.run id) (k.dispatched c id))
    (hf : k.envs.find? id = some e) : (reschedule c live : Action Kernel ε (Exit × Context)) k =
      .done (.resume id, e.context) (k.dispatched c id) := by
  have hself : (k.dispatched c id).envs.find? id = some (promoted c e) := by rw [find?_dispatched hf, if_pos rfl]
  rw [reschedule, Action.bind_done hd]
  simp only [Action.state_bind, hself]
  rfl

theorem reschedule_cases (ε : Type) (live : Context) (h : Orderly n k b x) (hc : c.index < k.current.size) :
    (∃ id e, (reschedule c live : Action Kernel ε (Exit × Context)) k =
          .done (.resume id, e.context) (k.dispatched c id) ∧
        k.envs.find? id = some e ∧ (e.status = .runnable ∨ e.status = .running ∧ b c = some id) ∧
        (e.kind = .idle → c.index = id.index)) ∨
      ∃ m j, (reschedule c live : Action Kernel ε (Exit × Context)) k =
        .done (.monitor, live) { k with envs := k.vacated c, monitor := m, journal := j } := by
  rcases schedule_cases h hc with ⟨id, e, hd, hf, hr, hk⟩ | ⟨m, j, hd⟩
  · exact .inl ⟨id, e, reschedule_of_run live hd hf, hf, hr, hk⟩
  · refine .inr ⟨m, j, ?_⟩
    rw [reschedule, Action.bind_done hd]
    rfl

theorem reschedule_spec (live : Context) (h : Orderly n k b x) (hs : LastHere k b c) (hc : c.index < k.current.size) :
    ∃ exit ctx k', (reschedule c live : Action Kernel ε (Exit × Context)) k = .done (exit, ctx) k' ∧
      Orderly n k' (Function.update b c exit.seat) x ∧ k'.current.size = k.current.size := by
  rcases reschedule_cases ε live h hc with ⟨id, e, hd, hf, hr, hk⟩ | ⟨m, j, hd⟩
  · refine ⟨_, _, _, hd, h.dispatched hs hc hf hr hk, ?_⟩
    exact Array.size_setIfInBounds
  · exact ⟨_, _, _, hd, h.vacated hs, rfl⟩

/-- If the last environment of the CPU runs on another one, a pass makes it runnable there. -/
theorem reschedule_stale (live : Context) (h : Orderly n k b x) (hc : c.index < k.current.size)
    (hl : k.currentOf c = some last) (hf : k.envs.find? last = some e) (hr : e.status = .running)
    (hb : b c ≠ some last) :
    ∃ exit ctx k', (reschedule c live : Action Kernel ε (Exit × Context)) k = .done (exit, ctx) k' ∧
      (∃ e', k'.envs.find? last = some e' ∧ e'.status = .runnable ∧ e'.kind = e.kind) ∧
      ∀ d, d ≠ c → k'.currentOf d = k.currentOf d := by
  have hdem : (demoted e).status = .runnable ∧ (demoted e).kind = e.kind := by
    rw [demoted, if_pos hr]
    exact ⟨rfl, rfl⟩
  rcases reschedule_cases ε live h hc with ⟨id, y, hd, hy, hor, -⟩ | ⟨m, j, hd⟩
  · have hne : last ≠ id := by
      rintro rfl
      obtain rfl := find?_unique hf hy
      rcases hor with h' | ⟨-, h'⟩
      · rw [hr] at h'
        cases h'
      · exact hb h'
    refine ⟨_, _, _, hd, ⟨demoted e, ?_, hdem⟩, fun d hdc => lastOn_set_of_ne hdc⟩
    rw [find?_dispatched hy, if_neg hne, hf, hl, Option.map_some, if_pos rfl]
  · refine ⟨_, _, _, hd, ⟨demoted e, ?_, hdem⟩, fun _ _ => rfl⟩
    show (k.vacated c).find? last = _
    rw [vacated, hl]
    show (k.envs.update last demoted).find? last = _
    rw [find?_update fun e _ => title_demoted e, if_pos rfl, hf]
    rfl

end Kernel

variable {ε : Type} {n : Nat} {b : Seats} {current : Array (Option Id)} {c : Cpu} {caller id : Id} {k : Kernel}
  {e : Env} {live : Context}

theorem Ends.weaken {again : Bool} (h : Ends n b current c caller again k) : Ends n b current c caller true k :=
  h.imp_right fun h => ⟨rfl, h.2⟩

theorem Ends.current_eq {again : Bool} (h : Ends n b current c caller again k) : k.current = current := by
  rcases h with h | ⟨-, h⟩
  · exact h.current
  · exact h.current

theorem statusArgument_ne {w : Word} {s : Status} (h : Call.statusArgument w = .ok s) : s ≠ .running := by
  unfold Call.statusArgument at h
  split at h
  · cases h
  · next hne _ =>
    cases h
    rintro rfl
    exact hne rfl
  · cases h

theorem bind_eq_ok {α β δ : Type} {r : Except δ α} {f : α → Except δ β} {y : β} (h : r >>= f = .ok y) :
    ∃ a, r = .ok a ∧ f a = .ok y := by
  cases r with
  | error cause => cases h
  | ok a => exact ⟨a, rfl, h⟩

/-- No program asks for a running status. -/
theorem decode_ne {number : Word} {a : Arguments} {call : Call} (h : CallTable.standard.decode number a = .ok call)
    (id : Id) : call ≠ .setStatus id .running := by
  rintro rfl
  unfold CallTable.decode at h
  split at h
  · next d hd =>
    unfold CallTable.standard at hd
    split at hd
    all_goals cases hd
    -- Most decoders end in another call.
    all_goals try cases h
    · obtain ⟨_, -, h⟩ := bind_eq_ok h
      cases h
    · obtain ⟨_, -, h⟩ := bind_eq_ok h
      obtain ⟨s, hs, h⟩ := bind_eq_ok h
      cases h
      exact statusArgument_ne hs rfl
    · obtain ⟨_, -, h⟩ := bind_eq_ok h
      obtain ⟨_, -, h⟩ := bind_eq_ok h
      obtain ⟨_, -, h⟩ := bind_eq_ok h
      cases h
    · obtain ⟨_, -, h⟩ := bind_eq_ok h
      obtain ⟨_, -, h⟩ := bind_eq_ok h
      obtain ⟨_, -, h⟩ := bind_eq_ok h
      obtain ⟨_, -, h⟩ := bind_eq_ok h
      obtain ⟨_, -, h⟩ := bind_eq_ok h
      cases h
    all_goals
      obtain ⟨_, -, h⟩ := bind_eq_ok h
      cases h
  · cases h

namespace Kernel

theorem kill_spec (h : OnCpu n b current caller k) (hb : b c = some caller) :
    (kill c caller k : Outcome Kernel ε Unit).Meets (fun _ => Ends n b current c caller true) (fun _ _ => False)
      fun _ => False := by
  obtain ⟨e, hf, hr, hk⟩ := h.running
  have hz : ¬Doomed b e := by
    intro hz
    have hd := hz.1
    rw [hr] at hd
    cases hd
  rw [kill]
  exact Action.meets_attempt_bind (destroy_spec h hb hf hk hz) (fun _ _ h₁ => h₁.weaken) fun _ _ h₁ => h₁.elim

theorem serves_deliverUpcall {va : Word} : Serves n b current caller (deliverUpcall id va) := by
  refine Action.preserves_bind (Action.preserves_mapError serves_readEnv) fun e => ?_
  refine Action.preserves_ite (fun _ => Action.preserves_refuse _) fun _ => ?_
  refine Action.preserves_ite (fun _ => Action.preserves_refuse _) fun _ => ?_
  cases e.space with
  | none => exact Action.preserves_refuse _
  | some space =>
    refine Action.preserves_bind (Action.preserves_mapError (serves_onMemory fun m hm => ?_)) fun _ => ?_
    · have hva : recordBase < addressLimit := by decide
      refine (Memory.balanced_writeUser hm hva).mono (fun _ _ h => ?_) (fun _ _ h => ?_) fun _ h => h.elim
      · exact ⟨h.1, Memory.kept_of_spaces h.2⟩
      · exact ⟨h.1, Memory.kept_of_spaces h.2⟩
    · exact Action.preserves_bind (serves_updateEnv fun _ => rfl) fun _ => Action.preserves_pure _

theorem userFault_spec {va : Word} (h : OnCpu n b current caller k) (hb : b c = some caller) :
    (userFault c caller va k : Outcome Kernel ε Bool).Meets (Ends n b current c caller) (fun _ _ => False)
      fun _ => False := by
  rw [userFault]
  refine Action.meets_attempt_bind (serves_deliverUpcall k h) (fun _ k₁ h₁ => ?_) fun cause k₁ h₁ => ?_
  · exact .inl (h₁.congr h₁.orderly.intact rfl rfl)
  · simp only
    rw [Action.state_bind, record_bind]
    exact Action.meets_bind (kill_spec (h₁.congr h₁.orderly.intact rfl rfl) hb) fun _ _ h₂ => h₂

theorem debugStop_spec (h : OnCpu n b current caller k) (hb : b c = some caller) (hid : e.id = caller) :
    (debugStop c e k : Outcome Kernel ε Bool).Meets (Ends n b current c caller) (fun _ _ => False)
      fun _ => False := by
  subst hid
  rw [debugStop]
  refine Action.meets_bind (P := fun _ => OnCpu n b current e.id) ?_ fun action k₁ h₁ => ?_
  · exact h.congr h.orderly.intact rfl rfl
  · cases action with
    | kill =>
      simp only
      rw [record_bind]
      exact Action.meets_bind (kill_spec (h₁.congr h₁.orderly.intact rfl rfl) hb) fun _ _ h₂ => h₂
    | resume => exact .inl (h₁.touch fun _ => rfl)
    | step => exact .inl (h₁.touch fun _ => rfl)

/-- A call that the program in `e` makes and that is performed in order. -/
theorem callTrap_spec (h : OnCpu n b current caller k) (hb : b c = some caller) (hid : e.id = caller)
    (hm : ∀ call, CallTable.standard.decode e.context.callNumber e.context.callArguments = .ok call →
      ¬Meddles k.envs b caller call) :
    (callTrap c e k : Outcome Kernel ε Bool).Meets (Ends n b current c caller) (fun _ _ => False)
      fun _ => False := by
  subst hid
  rw [callTrap]
  have hcall : (callSystem .standard c e.id e.context.callNumber e.context.callArguments k).Meets
      (fun r => Ends n b current c e.id r.reschedule) (fun _ => OnCpu n b current e.id) fun _ => False := by
    rw [callSystem]
    cases hd : CallTable.standard.decode e.context.callNumber e.context.callArguments with
    | error cause => exact h
    | ok call =>
      rw [Action.lift_ok_bind]
      exact perform_spec h hb (hm call hd) (decode_ne hd)
  refine Action.meets_attempt_bind hcall (fun reply k₁ h₁ => ?_) fun cause k₁ h₁ => ?_
  · simp only
    rw [updateEnv_bind]
    exact h₁.touch fun _ => rfl
  · simp only
    rw [record_bind, updateEnv_bind]
    have h₂ : ∀ j, OnCpu n b current e.id { k₁ with journal := j } := fun j => h₁.congr h₁.orderly.intact rfl rfl
    exact .inl ((h₂ _).touch fun _ => rfl)

theorem handle_spec (h : OnCpu n b current caller k) (hb : b c = some caller) (hid : e.id = caller)
    (hm : e.context.number = Trap.systemCall → ∀ call,
      CallTable.standard.decode e.context.callNumber e.context.callArguments = .ok call →
      ¬Meddles k.envs b caller call) :
    (handle c e k : Outcome Kernel ε Bool).Meets (Ends n b current c caller) (fun _ _ => False)
      fun _ => False := by
  have hfault : ∀ k, OnCpu n b current caller k → (userFault c e.id e.context.va k : Outcome Kernel ε Bool).Meets
      (Ends n b current c caller) (fun _ _ => False) fun _ => False := by
    intro k hk
    rw [hid]
    exact userFault_spec hk hb
  rw [handle]
  by_cases hpage : e.context.number = Trap.pageFault
  · simp only [if_pos hpage]
    exact hfault k h
  · simp only [if_neg hpage]
    by_cases hstop : e.context.number = Trap.breakpoint ∨ e.context.number = Trap.debug
    · simp only [if_pos hstop]
      exact debugStop_spec h hb hid
    · simp only [if_neg hstop]
      by_cases hcall : e.context.number = Trap.systemCall
      · simp only [if_pos hcall]
        exact callTrap_spec h hb hid (hm hcall)
      · simp only [if_neg hcall]
        by_cases htimer : e.context.number = Trap.timer
        · simp only [if_pos htimer]
          exact .inl h
        · simp only [if_neg htimer]
          rw [record_bind]
          exact hfault _ (h.congr h.orderly.intact rfl rfl)

theorem runningOn_spec (h : k.runningOn c = some e) : k.envs.find? e.id = some e ∧ k.currentOf c = some e.id ∧
    (e.status = .running ∨ e.status = .dying) ∧ e.cpu = some c := by
  unfold runningOn at h
  split at h
  · next y hy =>
    split at h
    · next hr =>
      obtain rfl := Option.some.inj h
      obtain ⟨id, hl, hf⟩ := Option.bind_eq_some_iff.mp hy
      have hid := id_of_find? hf
      exact ⟨by rw [hid, hf], by rw [hid, hl], hr.1, hr.2⟩
    · cases h
  · cases h

theorem runningOn_of_last (hl : k.currentOf c = some id) (hf : k.envs.find? id = some e)
    (hs : e.status = .running ∨ e.status = .dying) (hcpu : e.cpu = some c) : k.runningOn c = some e := by
  rw [runningOn, hl, Option.bind_some, hf]
  simp only [if_pos (And.intro hs hcpu)]

theorem runningOn_of_seat {x : Option Env.Id} (h : Orderly n k b x) (hb : b c = some id) :
    ∃ e, k.runningOn c = some e ∧ e.id = id ∧ k.envs.find? id = some e := by
  obtain ⟨e, hf, hs, hc, hl⟩ := h.scheduled.hosted c id hb
  exact ⟨e, runningOn_of_last hl hf hs hc, id_of_find? hf, hf⟩

end Kernel

theorem lookup_touch {t : Env.Table} {f : Env → Env} (hc : ∀ e, (f e).core = e.core) (a : Id) :
    ((t.update id f).lookup a (some caller) true).map Env.core = (t.lookup a (some caller) true).map Env.core := by
  have htitle : ∀ e, e.isFree = false → (f e).title = e.title := fun e _ => title_of_core (hc e)
  rw [lookup_eq, lookup_eq]
  generalize (if a.isSelf then caller else a) = j
  have hget : ∀ y : Env, (f y).id = y.id ∧ (f y).parent = y.parent := by
    intro y
    have hid : (f y).core.id = y.core.id := by rw [hc]
    have hparent : (f y).core.parent = y.core.parent := by rw [hc]
    exact ⟨hid, hparent⟩
  by_cases hj : j = id
  · subst hj
    simp only [Env.Table.get, find?_update htitle, if_true]
    cases t.find? j with
    | none => rfl
    | some y =>
      simp only [Option.map_some, Except.bind, (hget y).1, (hget y).2]
      split
      · exact congrArg Except.ok (hc y)
      · rfl
  · simp only [Env.Table.get, find?_update htitle, if_neg hj]

theorem exists_ok_core {x y : Except EnvError Env} {P : Env → Prop} (h : x.map Env.core = y.map Env.core)
    (hP : ∀ e e', e'.core = e.core → P e → P e') : (∃ e, x = .ok e ∧ P e) → ∃ e, y = .ok e ∧ P e := by
  rintro ⟨e, rfl, he⟩
  cases y with
  | error cause => cases h
  | ok e' => exact ⟨e', rfl, hP e e' (Except.ok.inj h).symm he⟩

theorem Doomed.congr {e' : Env} (h : Doomed b e) (hc : e'.core = e.core) : Doomed b e' := by
  have hs := status_of_stance (stance_of_core hc)
  have hid : e'.core.id = e.core.id := by rw [hc]
  obtain ⟨hd, d, hb⟩ := h
  exact ⟨hs.trans hd, d, hb.trans (congrArg some hid.symm)⟩

theorem Blocked.congr {e' : Env} (h : Blocked e) (hc : e'.core = e.core) : Blocked e' := by
  show e'.core.mailbox.receiving = true ∨ e'.core.outbox.isSome = true
  rw [hc]
  exact h

theorem strands_touch {t : Env.Table} {f : Env → Env} (hc : ∀ e, (f e).core = e.core) (call : Call) :
    Strands (t.update id f) b caller call ↔ Strands t b caller call := by
  have hd : ∀ e e' : Env, e'.core = e.core → Doomed b e → Doomed b e' := fun _ _ hc h => h.congr hc
  cases call with
  | destroy a => exact ⟨exists_ok_core (lookup_touch hc a) hd, exists_ok_core (lookup_touch hc a).symm hd⟩
  | setStatus a s => exact ⟨exists_ok_core (lookup_touch hc a) hd, exists_ok_core (lookup_touch hc a).symm hd⟩
  | _ => exact Iff.rfl

theorem rouses_touch {t : Env.Table} {f : Env → Env} (hc : ∀ e, (f e).core = e.core) (call : Call) :
    Rouses (t.update id f) caller call ↔ Rouses t caller call := by
  have hs : ∀ e e' : Env, e'.core = e.core → Blocked e → Blocked e' := fun _ _ hc h => h.congr hc
  cases call with
  | setStatus a s =>
    exact and_congr_right fun _ => ⟨exists_ok_core (lookup_touch hc a) hs, exists_ok_core (lookup_touch hc a).symm hs⟩
  | _ => exact Iff.rfl

end Exokernel
