import Exokernel.Proofs.System.Lapse
import Exokernel.Proofs.Trap.Provoking

/-!
# From a lapse to a panic

A CPU that is adrift panics at its next trap, unless that is the timer's. A program that has roused its child only
has to wait: timer traps take its CPU to the child, which sends to itself. A child that was roused while it was
parked calls receive first, and the CPU goes back to its parent, which rouses it again.
-/

set_option autoImplicit false

namespace Exokernel.System

open Env (Id Kind Status)
open Env.Table

variable {n d : Nat} {s s' s'' : System} {c : Cpu} {id j caller : Id} {live ctx : Context} {l : Step} {e : Env}
  {x : Option Id} {k : Kernel} {trace trace' : List (System × Step)}

def Crashes (s : System) : Prop :=
  ∃ trace s' l p, Runs s trace s' ∧ s'.Permitted l ∧ s'.step l = .error p

theorem Runs.append (h : Runs s trace s') (h' : Runs s' trace' s'') : Runs s (trace' ++ trace) s'' := by
  induction h' with
  | start => exact h
  | step _ hp hs ih => exact ih.step hp hs

theorem Runs.crashes (h : Runs s trace s') (h' : s'.Crashes) : s.Crashes := by
  obtain ⟨trace', s'', l, p, hr, hp, hs⟩ := h'
  exact ⟨trace' ++ trace, s'', l, p, h.append hr, hp, hs⟩

theorem Adrift.crashes (h : s.Adrift) : s.Crashes := by
  obtain ⟨d, id, he, hl, hlost⟩ := h
  have hrun : s.kernel.runningOn d = none := by
    cases hrun : s.kernel.runningOn d with
    | none => rfl
    | some y =>
      obtain ⟨hy, hly, hor, -⟩ := Kernel.runningOn_spec hrun
      rw [hl] at hly
      obtain ⟨hr, hdying, -⟩ := hlost y (Option.some.inj hly ▸ hy)
      rcases hor with h' | h'
      · exact absurd h' hr
      · exact absurd h' hdying
  have hp : s.Permitted (.trap d {}) := by
    refine ⟨rfl, ?_, fun _ => ⟨id, he, fun e hf => (hlost e hf).2.2⟩⟩
    rw [he]
    simp
  refine ⟨[], s, .trap d {}, .noCurrent {}, .start, hp, ?_⟩
  rw [step, Kernel.trap_stray rfl hrun (by decide)]
  rfl

structure Hosts (n : Nat) (x : Option Id) (s : System) (c : Cpu) (caller : Id) : Prop where
  orderly : Exokernel.Orderly n s.kernel s.seats x
  exit : s.exits c = some (.resume caller)
  cpu : c.index < s.kernel.current.size
  stays : Stays c caller s.kernel

namespace Hosts

theorem permitted (h : s.Hosts n x c caller) (hmode : live.mode = .user) : s.Permitted (.trap c live) := by
  obtain ⟨e, hf, -, -, hk⟩ := h.stays
  refine ⟨hmode, ?_, fun _ => ⟨caller, h.exit, fun y hy => ?_⟩⟩
  · rw [h.exit]
    simp
  · rw [hf] at hy
    exact Option.some.inj hy ▸ hk

theorem next (h : s.Hosts n x c caller) (hmode : live.mode = .user)
    (hd : (Kernel.trap c live s.kernel : Outcome Kernel Empty (Exit × Context)) = .done (.resume j, ctx) k)
    (ho : Exokernel.Orderly n k (Function.update s.seats c (some j)) x) (hst : Stays c j k)
    (hsize : k.current.size = s.kernel.current.size) :
    ∃ s', Runs s [(s, .trap c live)] s' ∧ s'.Hosts n x c j ∧ s'.kernel = k ∧ ∀ a, a ≠ c → s'.exits a = s.exits a := by
  refine ⟨{ kernel := k, exits := Function.update s.exits c (some (.resume j)) }, ?_, ?_, rfl, fun a ha => ?_⟩
  · refine .step .start (h.permitted hmode) ?_
    rw [step, hd]
    rfl
  · refine ⟨?_, Function.update_self c _ s.exits, ?_, hst⟩
    · rw [seats_left]
      exact ho
    · rw [hsize]
      exact h.cpu
  · exact Function.update_of_ne ha _ s.exits

/-- Timer traps take the CPU to a program that can run, and change nothing else. -/
theorem walk (h : s.Hosts n x c caller) (hf : s.kernel.envs.find? id = some e) (hr : e.status = .runnable)
    (hk : e.kind ≠ .idle) (hd : d < s.kernel.envs.capacity)
    (hi : (caller.index + 1 + d) % s.kernel.envs.capacity = id.index) :
    ∃ trace s', Runs s trace s' ∧ s'.Hosts n x c id ∧ Rested s.kernel.envs s'.kernel.envs ∧
      ∀ a, a ≠ c → s'.exits a = s.exits a := by
  induction d using Nat.strong_induction_on generalizing s caller with
  | _ d ih =>
    have hb := seats_eq_some.mpr h.exit
    have hmode : ({ number := Trap.timer } : Context).mode = .user := rfl
    obtain ⟨j, ctx, k, hdone, ho, hst, hrest, hsize, hcap, hcase⟩ :=
      Kernel.trap_toward (ε := Empty) h.orderly hmode rfl hb h.stays h.cpu hf hr hk hd hi
    obtain ⟨s₁, hrun, h₁, rfl, hexits⟩ := h.next hmode hdone ho hst hsize
    rcases hcase with rfl | ⟨hf₁, d', hlt, hi'⟩
    · exact ⟨_, s₁, hrun, h₁, hrest, hexits⟩
    · have hd' : d' < s₁.kernel.envs.capacity := by
        rw [hcap]
        exact Nat.lt_trans hlt hd
      obtain ⟨trace, s', hrun', h', hrest', hexits'⟩ := ih d' hlt h₁ hf₁ hd' hi'
      exact ⟨_, s', hrun.append hrun', h', hrest.trans hrest', fun a ha => (hexits' a ha).trans (hexits a ha)⟩

theorem reach (h : s.Hosts n x c caller) (hf : s.kernel.envs.find? id = some e)
    (hr : caller = id ∨ e.status = .runnable) (hk : e.kind ≠ .idle) :
    ∃ trace s', Runs s trace s' ∧ s'.Hosts n x c id ∧ Rested s.kernel.envs s'.kernel.envs ∧
      ∀ a, a ≠ c → s'.exits a = s.exits a := by
  rcases hr with rfl | hr
  · exact ⟨[], s, .start, h, .refl _, fun _ _ => rfl⟩
  · obtain ⟨d, hd, hi⟩ := Kernel.exists_distance (caller.index + 1) (slot?_lt (slot?_of_find? hf))
    exact h.walk hf hr hk hd hi

theorem crashes (h : s.Hosts n x c caller) (hf : s.kernel.envs.find? caller = some e)
    (hr : e.mailbox.receiving = true) : s.Crashes := by
  have hb := seats_eq_some.mpr h.exit
  obtain ⟨ctx, hd⟩ := Kernel.trap_sendSelf (ε := Empty) h.orderly hb h.stays hf hr
  refine ⟨[], s, .trap c (.making .sendSelf), .resumeNotRunning ctx, .start, h.permitted rfl, ?_⟩
  rw [step, hd]
  rfl

end Hosts

theorem Unrest.hosts (h : s.Unrest n c caller e) : s.Hosts n (some e.id) c caller :=
  ⟨h.roused.orderly, h.exit, h.cpu, h.stays⟩

theorem Unrest.crashes_of_receiving (h : s.Unrest n c caller e) (hr : e.mailbox.receiving = true) : s.Crashes := by
  obtain ⟨trace, s', hrun, h', hrest, -⟩ := h.hosts.reach h.roused.found (.inr h.roused.runnable) h.roused.guest
  obtain ⟨e', hf', hrest'⟩ := hrest.find? h.roused.found
  obtain ⟨-, -, -, hmail, -⟩ := parts_of_resting hrest'
  exact hrun.crashes (h'.crashes hf' (hmail.trans hr))

/-- The parent of a roused child that is back on its CPU rouses the child again. -/
theorem Hosts.rouse (h : s.Hosts n (some e.id) c caller) (hf : s.kernel.envs.find? e.id = some e)
    (hp : e.parent = caller) (hs : e.status = .notRunnable) (hr : e.mailbox.receiving = true) (hk : e.kind ≠ .idle) :
    s.Crashes := by
  have hb := seats_eq_some.mpr h.exit
  have ht := h.orderly.intact.table
  have hgen := (ht.named _ e (slot?_of_find? hf) (live_of_find? hf)).2.2
  have hlive : (Context.making (.setStatus e.id .runnable)).mode = .user := rfl
  obtain ⟨ctx, k, hd, hcur, hst, hroused⟩ := Kernel.trap_rouses (ε := Empty) h.orderly hlive hb h.stays
    (call?_rouse hgen) (lookup_of_kin ht hf (.inr hp)) hs (.inl hr) hk
  have hstep := step_resumed h.exit hd
  have hu : Unrest n { s with kernel := k } c caller { e with status := .runnable, cpu := none } := by
    refine ⟨h.exit, ?_, hst, hroused⟩
    rw [hcur]
    exact h.cpu
  exact (Runs.start.step (h.permitted hlive) hstep).crashes (hu.crashes_of_receiving hr)

/-- A program that ran on a CPU, and has left it to another, can run again. -/
theorem Hosts.left_behind {y : Env} (h : s.Hosts n x c caller) (h' : s'.Hosts n x c id) (hne : id ≠ caller)
    (hrest : Rested s.kernel.envs s'.kernel.envs) (hexits : ∀ a, a ≠ c → s'.exits a = s.exits a)
    (hy : s'.kernel.envs.find? caller = some y) : y.status = .runnable ∧ y.kind ≠ .idle := by
  obtain ⟨z, hz, hrz, -, hkz⟩ := h.stays
  obtain ⟨y', hy', hresty⟩ := hrest.find? hz
  obtain rfl := find?_unique hy hy'
  obtain ⟨-, -, hkind, -, -⟩ := parts_of_resting hresty
  refine ⟨?_, fun hk => hkz (hkind.symm.trans hk)⟩
  have hs := status_of_resting hresty
  rw [if_pos hrz] at hs
  split at hs
  · next hr =>
    -- Whoever runs sits somewhere, but the seat on `c` is taken and the others were not its own.
    obtain ⟨d, -, hd⟩ := (h'.orderly.scheduled.fit _ y hy).running hr
    rw [id_of_find? hy] at hd
    have hd' := seats_eq_some.mp hd
    by_cases hdc : d = c
    · rw [hdc, h'.exit] at hd'
      cases hd'
      exact absurd rfl hne
    · rw [hexits d hdc] at hd'
      exact absurd (h.orderly.scheduled.seat_unique (seats_eq_some.mpr h.exit) (seats_eq_some.mpr hd')) hdc
  · exact hs

/-- Whoever blocks after it was roused is roused again by its parent. -/
theorem Hosts.crashes_of_parked {y : Env} (h : s.Hosts n (some e.id) c e.id)
    (hf : s.kernel.envs.find? e.id = some e) (hp : e.parent = caller) (hy : s.kernel.envs.find? caller = some y)
    (hr : y.status = .runnable) (hk : y.kind ≠ .idle) : s.Crashes := by
  have hb := seats_eq_some.mpr h.exit
  obtain ⟨j, ctx, k, hd, ho, hst, hsize, ⟨e₁, hf₁, hs₁, hr₁, hp₁, hk₁⟩, hcase⟩ :=
    Kernel.trap_receiveAny (ε := Empty) h.orderly hb h.stays h.cpu hf hy hr hk
  obtain ⟨s₁, hrun, h₁, rfl, -⟩ := h.next rfl hd ho hst hsize
  have hparent : ∃ z, s₁.kernel.envs.find? caller = some z ∧ (j = caller ∨ z.status = .runnable) ∧ z.kind ≠ .idle := by
    rcases hcase with rfl | hy₁
    · obtain ⟨z, hz, -, -, hkz⟩ := h₁.stays
      exact ⟨z, hz, .inl rfl, hkz⟩
    · exact ⟨y, hy₁, .inr hr, hk⟩
  obtain ⟨z, hz, hor, hkz⟩ := hparent
  obtain ⟨trace, s₂, hrun', h₂, hrest, -⟩ := h₁.reach hz hor hkz
  obtain ⟨e₂, hf₂, hrest₂⟩ := hrest.find? hf₁
  obtain ⟨-, hp₂, hk₂, hmail, -⟩ := parts_of_resting hrest₂
  have hid := id_of_find? hf₂
  have hs₂ : e₂.status = .notRunnable := by
    have hs := status_of_resting hrest₂
    rw [hs₁] at hs
    split at hs
    · cases hs
    · exact hs
  have hke : e₂.kind ≠ .idle := by
    obtain ⟨e', hf', -, -, hke⟩ := h.stays
    obtain rfl := find?_unique hf hf'
    rw [hk₂, hk₁]
    exact hke
  rw [← hid] at h₂ hf₂
  exact hrun.crashes (hrun'.crashes (h₂.rouse hf₂ ((hp₂.trans hp₁).trans hp) hs₂ (hmail.trans hr₁) hke))

theorem Unrest.crashes (h : s.Unrest n c caller e) : s.Crashes := by
  obtain ⟨trace, s₁, hrun, h₁, hrest, hexits⟩ := h.hosts.reach h.roused.found (.inr h.roused.runnable) h.roused.guest
  obtain ⟨e₁, hf₁, hrest₁⟩ := hrest.find? h.roused.found
  obtain ⟨hid, hparent, -, -, -⟩ := parts_of_resting hrest₁
  obtain ⟨y, hy, -⟩ := h.stays
  obtain ⟨y₁, hy₁, -⟩ := hrest.find? hy
  obtain ⟨hr, hk⟩ := h.hosts.left_behind h₁ h.roused.other hrest hexits hy₁
  rw [← hid] at h₁ hf₁
  exact hrun.crashes (h₁.crashes_of_parked hf₁ (hparent.trans h.roused.child) hy₁ hr hk)

/-- What a booted kernel can come to without lapses. -/
def Attained (k : Kernel) (s : System) : Prop := ∃ trace, Runs (booted k) trace s ∧ Careful trace

/-- As long as a run of a booted kernel has not lapsed, no permitted step panics. A step that lapses does not panic
either, but leaves the machine in a state that permitted steps bring to a panic. -/
theorem panics_after_lapse {config : Config} {cycles : CycleCounter} {monitor : Monitor}
    (hk : Kernel.boot config cycles monitor = .ok k) (h : Attained k s) (hp : s.Permitted l) :
    ∃ s', s.step l = .ok s' ∧ (¬s.Lapse l → Attained k s') ∧ (s.Lapse l → s'.Crashes) := by
  obtain ⟨trace, hrun, hc⟩ := h
  have ho := hrun.orderly (orderly_booted hk) hc
  by_cases hl : s.Lapse l
  · rcases hl with hl | hl
    · obtain ⟨s', hs, ha⟩ := ho.strands hp hl
      exact ⟨s', hs, fun hn => absurd (.inl hl) hn, fun _ => ha.crashes⟩
    · obtain ⟨s', c, caller, e, hs, hu⟩ := ho.rouses hp hl
      exact ⟨s', hs, fun hn => absurd (.inr hl) hn, fun _ => hu.crashes⟩
  · obtain ⟨s', hs, -⟩ := ho.step hp hl
    refine ⟨s', hs, fun _ => ⟨_, hrun.step hp hs, ?_⟩, fun h => absurd h hl⟩
    exact List.forall_mem_cons.mpr ⟨hl, hc⟩

theorem Attained.call {config : Config} {cycles : CycleCounter} {monitor : Monitor} {call : Call}
    (hk : Kernel.boot config cycles monitor = .ok k) (h : Attained k s) (he : s.exits c = some (.resume caller))
    (hp : s.Permitted (.trap c live)) (hcall : live.call? = some call)
    (hm : ¬Meddles s.kernel.envs s.seats caller call) (hs : (s.step (.trap c live)).isOk = true) :
    Attained k (s.next (.trap c live)) := by
  obtain ⟨trace, hrun, hc⟩ := h
  have ho := hrun.orderly (orderly_booted hk) hc
  refine ⟨_, hrun.step hp (step_next hs), List.forall_mem_cons.mpr ⟨?_, hc⟩⟩
  rintro ((ha | ⟨id, e, call', he', -, -, hcall', h'⟩) | ⟨id, e, call', he', -, -, hcall', h'⟩)
  · obtain ⟨-, -, -, -, -, -, -, -, -, -, hexit⟩ := ho.astray ha
    exact hexit caller he
  · rw [he] at he'
    rw [hcall] at hcall'
    cases he'
    cases hcall'
    exact hm (.inl h')
  · rw [he] at he'
    rw [hcall] at hcall'
    cases he'
    cases hcall'
    exact hm (.inr h')

def childStarted : System :=
  ((oneStarted.next (.trap ⟨0⟩ (.making .fork))).next (.trap ⟨0⟩ (.making (.setStatus ⟨0x403⟩ .runnable)))).next
    (.start ⟨1⟩ {})

def childDying : System := childStarted.next (.trap ⟨0⟩ (.making (.destroy ⟨0x403⟩)))

theorem permitted_of_kind {s : System} (hmode : live.mode = .user) (he : s.exits c = some (.resume caller))
    (hk : (s.kernel.envs.find? caller).map Env.kind ≠ some .idle) : s.Permitted (.trap c live) := by
  refine ⟨hmode, ?_, fun _ => ⟨caller, he, fun e hf hi => hk ?_⟩⟩
  · rw [he]
    simp
  · rw [hf]
    exact congrArg some hi

theorem not_meddles_of_lookup {t : Env.Table} {status : Status} (b : Seats)
    (h : (t.lookup id (some caller) true).toOption.map (fun e => (e.status, e.mailbox.receiving, e.outbox.isSome)) =
      some (status, false, false)) (hd : status ≠ .dying) :
    ¬Meddles t b caller (.destroy id) ∧ ∀ st, ¬Meddles t b caller (.setStatus id st) := by
  have hz : ∀ e, t.lookup id (some caller) true = .ok e → ¬Doomed b e ∧ ¬Blocked e := by
    intro e hl
    rw [hl] at h
    simp only [Except.toOption, Option.map_some, Option.some.injEq, Prod.mk.injEq] at h
    obtain ⟨hs, hr, ho⟩ := h
    refine ⟨fun hz => hd (hs.symm.trans hz.1), fun hb => ?_⟩
    rcases hb with hb | hb
    · rw [hr] at hb
      cases hb
    · rw [ho] at hb
      cases hb
  refine ⟨?_, fun st => ?_⟩
  · rintro (⟨e, hl, h'⟩ | h')
    · exact (hz e hl).1 h'
    · exact h'
  · rintro (⟨e, hl, h'⟩ | ⟨-, e, hl, h'⟩)
    · exact (hz e hl).1 h'
    · exact (hz e hl).2 h'

theorem attained_childStarted (hk : Kernel.boot twoCpus {} {} = .ok twoCpusBooted) :
    Attained twoCpusBooted childStarted := by
  let forked := oneStarted.next (.trap ⟨0⟩ (.making .fork))
  let released := forked.next (.trap ⟨0⟩ (.making (.setStatus ⟨0x403⟩ .runnable)))
  have h₁ : Attained twoCpusBooted oneStarted := ⟨_, runs_oneStarted, careful_oneStarted⟩
  have he₁ : oneStarted.exits ⟨0⟩ = some (.resume ⟨0x402⟩) := by decide +kernel
  have h₂ : Attained twoCpusBooted forked := by
    have hcall : (Context.making .fork).call? = some .fork := by decide
    refine h₁.call hk he₁ (permitted_of_kind rfl he₁ (by decide +kernel)) hcall ?_ (by decide +kernel)
    exact not_or.mpr ⟨fun h => h, fun h => h⟩
  have he₂ : forked.exits ⟨0⟩ = some (.resume ⟨0x402⟩) := by decide +kernel
  have hl₂ : (forked.kernel.envs.lookup ⟨0x403⟩ (some ⟨0x402⟩) true).toOption.map
      (fun e => (e.status, e.mailbox.receiving, e.outbox.isSome)) = some (.notRunnable, false, false) := by
    decide +kernel
  have h₃ : Attained twoCpusBooted released := by
    have hcall : (Context.making (.setStatus ⟨0x403⟩ .runnable)).call? = some (.setStatus ⟨0x403⟩ .runnable) := by
      decide
    have hm := (not_meddles_of_lookup forked.seats hl₂ (by decide)).2 .runnable
    exact h₂.call hk he₂ (permitted_of_kind rfl he₂ (by decide +kernel)) hcall hm (by decide +kernel)
  obtain ⟨trace, hrun, hc⟩ := h₃
  have hp : released.Permitted (.start ⟨1⟩ {}) := by
    show _ < _
    decide +kernel
  refine ⟨_, hrun.step hp (step_next (by decide +kernel)), List.forall_mem_cons.mpr ⟨?_, hc⟩⟩
  rintro (⟨id, e, d, hl, -⟩ | h)
  · have hnone : released.kernel.currentOf ⟨1⟩ = none := by decide +kernel
    rw [hnone] at hl
    cases hl
  · exact h

theorem attained_childDying (hk : Kernel.boot twoCpus {} {} = .ok twoCpusBooted) :
    Attained twoCpusBooted childDying := by
  have h := attained_childStarted hk
  have he : childStarted.exits ⟨0⟩ = some (.resume ⟨0x402⟩) := by decide +kernel
  have hl : (childStarted.kernel.envs.lookup ⟨0x403⟩ (some ⟨0x402⟩) true).toOption.map
      (fun e => (e.status, e.mailbox.receiving, e.outbox.isSome)) = some (.running, false, false) := by
    decide +kernel
  have hcall : (Context.making (.destroy ⟨0x403⟩)).call? = some (.destroy ⟨0x403⟩) := by decide
  have hm := (not_meddles_of_lookup childStarted.seats hl (by decide)).1
  exact h.call hk he (permitted_of_kind rfl he (by decide +kernel)) hcall hm (by decide +kernel)

/-- Destroying the child again is a lapse. -/
theorem panics_after_lapse_childDying : Kernel.boot twoCpus {} {} = .ok twoCpusBooted ∧
    Attained twoCpusBooted childDying ∧ ∃ s', childDying.step (.trap ⟨0⟩ (.making (.destroy ⟨0x403⟩))) = .ok s' ∧
      s'.Crashes := by
  have hk : Kernel.boot twoCpus {} {} = .ok twoCpusBooted := by decide +kernel
  have h := attained_childDying hk
  have he : childDying.exits ⟨0⟩ = some (.resume ⟨0x402⟩) := by decide +kernel
  have hp : childDying.Permitted (.trap ⟨0⟩ (.making (.destroy ⟨0x403⟩))) :=
    permitted_of_kind rfl he (by decide +kernel)
  have hcaller : (childDying.kernel.envs.find? ⟨0x402⟩).map Env.status = some .running := by decide +kernel
  have htarget : (childDying.kernel.envs.lookup ⟨0x403⟩ (some ⟨0x402⟩) true).toOption.map
      (fun e => (e.id, e.status)) = some (⟨0x403⟩, .dying) := by decide +kernel
  have hseat : childDying.seats ⟨1⟩ = some ⟨0x403⟩ := by decide +kernel
  obtain ⟨y, hy, hr⟩ := Option.map_eq_some_iff.mp hcaller
  obtain ⟨e, hl, hid⟩ := Option.map_eq_some_iff.mp htarget
  simp only [Prod.mk.injEq] at hid
  have hl' : childDying.kernel.envs.lookup ⟨0x403⟩ (some ⟨0x402⟩) true = .ok e := by
    cases hx : childDying.kernel.envs.lookup ⟨0x403⟩ (some ⟨0x402⟩) true with
    | ok e' =>
      rw [hx] at hl
      exact congrArg Except.ok (Option.some.inj hl)
    | error cause =>
      rw [hx] at hl
      cases hl
  have hlapse : childDying.Lapse (.trap ⟨0⟩ (.making (.destroy ⟨0x403⟩))) :=
    .inl (.inr ⟨⟨0x402⟩, y, .destroy ⟨0x403⟩, he, hy, hr, by decide, e, hl', hid.2, ⟨1⟩, hid.1 ▸ hseat⟩)
  obtain ⟨s', hs, -, hcrash⟩ := panics_after_lapse hk h hp
  exact ⟨hk, h, s', hs, hcrash hlapse⟩

end Exokernel.System
