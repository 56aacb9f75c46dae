import Exokernel.Proofs.System.Run
import Exokernel.Proofs.Trap.Meddling

/-!
# What a lapse does

A lapse does not panic. Either it leaves a CPU with an environment that is not marked as running there, or it leaves
a program with a child that is runnable in the middle of a message operation.
-/

set_option autoImplicit false

namespace Exokernel.System

open Env (Id Kind Status)
open Env.Table

variable {n : Nat} {s s' : System} {c d : Cpu} {id caller : Id} {live : Context} {l : Step} {exit : Exit}

def Adrift (s : System) : Prop :=
  ∃ d id, s.exits d = some (.resume id) ∧ s.kernel.currentOf d = some id ∧
    ∀ e, s.kernel.envs.find? id = some e → e.status ≠ .running ∧ e.status ≠ .dying ∧ e.kind ≠ .idle

structure Unrest (n : Nat) (s : System) (c : Cpu) (caller : Id) (e : Env) : Prop where
  exit : s.exits c = some (.resume caller)
  cpu : c.index < s.kernel.current.size
  stays : Stays c caller s.kernel
  roused : Roused n s.seats caller e s.kernel

theorem Adrift.not_exclusive (h : s.Adrift) : ¬s.Exclusive := by
  intro he
  obtain ⟨d, id, hd, -, hlost⟩ := h
  obtain ⟨⟨e, hf, hs, -⟩, -⟩ := he d id hd
  obtain ⟨hr, hdying, -⟩ := hlost e hf
  rcases hs with hs | hs
  · exact hr hs
  · exact hdying hs

theorem Unrest.not_calm {e : Env} (h : s.Unrest n c caller e) : ¬s.Calm := by
  intro hc
  have hn := hc e.id e h.roused.found h.roused.blocked
  rw [h.roused.runnable] at hn
  cases hn

/-- Whoever runs astray is not idle, and the CPU that went astray executes nobody. -/
theorem Orderly.astray (h : s.Orderly n) (ha : s.Astray c) : ∃ id e d, s.kernel.currentOf c = some id ∧
    s.kernel.envs.find? id = some e ∧ e.status = .running ∧ d ≠ c ∧ s.exits d = some (.resume id) ∧
    e.cpu = some d ∧ e.kind ≠ .idle ∧ ∀ j, s.exits c ≠ some (.resume j) := by
  obtain ⟨id, e, d, hl, hf, hr, hdc, hd⟩ := ha
  have hb := seats_eq_some.mpr hd
  obtain ⟨y, hy, -, hcpu, -⟩ := h.1.scheduled.hosted d id hb
  obtain rfl := find?_unique hf hy
  refine ⟨id, e, d, hl, hf, hr, hdc, hd, hcpu, fun hk => ?_, fun j hj => ?_⟩
  · have hhome := h.1.scheduled.home c id e hl hf hk
    have hhome' := h.1.scheduled.home d id e (h.1.scheduled.lastOn_of_seat hb) hf hk
    exact hdc (Cpu.index_inj (hhome'.trans hhome.symm))
  · have hj' := h.1.last_of_seat hl (seats_eq_some.mpr hj)
    rw [hj'] at hj
    exact hdc (h.1.scheduled.seat_unique (seats_eq_some.mpr hj) hb)

/-- A pass on a CPU that is astray sets another CPU adrift. -/
theorem Orderly.stale (live : Context) (h : s.Orderly n) (ha : s.Astray c)
    (hc : c.index < s.kernel.current.size) {k : Kernel}
    (he : k.envs = s.kernel.envs) (hcur : k.current = s.kernel.current) (hm : k.memory = s.kernel.memory) :
    ∃ s', s.left c (Kernel.reschedule c live k) = .ok s' ∧ s'.Adrift := by
  obtain ⟨id, e, d, hl, hf, hr, hdc, hd, -, hk, -⟩ := h.astray ha
  have ho : Exokernel.Orderly n k s.seats none := h.1.congr (by rw [he, hm]; exact h.1.intact) he hcur
  have hl' : k.currentOf c = some id := by rw [Kernel.currentOf, hcur]; exact hl
  have hb : s.seats c ≠ some id := fun hb => hdc (h.1.scheduled.seat_unique hb (seats_eq_some.mpr hd))
  obtain ⟨exit, ctx, k', hdone, ⟨e', hf', hs', hk'⟩, hothers⟩ := Kernel.reschedule_stale (ε := Empty) live ho
    (by rw [hcur]; exact hc) hl' (by rw [he]; exact hf) hr hb
  refine ⟨{ kernel := k', exits := Function.update s.exits c (some exit) }, by rw [hdone]; rfl, d, id, ?_, ?_, ?_⟩
  · show Function.update s.exits c (some exit) d = _
    rw [Function.update_of_ne hdc, hd]
  · show k'.currentOf d = some id
    rw [hothers d hdc, Kernel.currentOf, hcur]
    exact h.1.scheduled.lastOn_of_seat (seats_eq_some.mpr hd)
  · intro y hy
    rw [show k'.envs.find? id = some y from hy] at hf'
    obtain rfl := Option.some.inj hf'
    rw [hs', hk']
    exact ⟨by decide, by decide, hk⟩

theorem guest_of_call {call : Call} {e : Env} (hp : s.Permitted (.trap c live)) (hcall : live.call? = some call)
    (he : s.exits c = some (.resume id)) (hf : s.kernel.envs.find? id = some e) : e.kind ≠ .idle := by
  have ht : live.number ≠ Trap.timer := by
    rw [Context.number_of_call hcall]
    decide
  obtain ⟨j, hj, hk⟩ := hp.2.2 ht
  rw [he] at hj
  cases hj
  exact hk e hf

theorem step_resumed {ctx : Context} {k : Kernel} (he : s.exits c = some (.resume caller))
    (hd : (Kernel.trap c live s.kernel : Outcome Kernel Empty (Exit × Context)) = .done (.resume caller, ctx) k) :
    s.step (.trap c live) = .ok { s with kernel := k } := by
  have hexits : Function.update s.exits c (some (.resume caller)) = s.exits := by
    rw [← he, Function.update_eq_self]
  rw [System.step, hd, left, hexits]

theorem Orderly.strands (h : s.Orderly n) (hp : s.Permitted l) (hl : s.Strands l) :
    ∃ s', s.step l = .ok s' ∧ s'.Adrift := by
  cases l with
  | start c live =>
    obtain ⟨m, j, hd⟩ := Kernel.startCpu_done (ε := Empty) live h.1 hp
    obtain ⟨s', hs', ha⟩ := h.stale live hl hp (k := { s.kernel with online := m, journal := j }) rfl rfl rfl
    exact ⟨s', by rw [System.step, hd]; exact hs', ha⟩
  | trap c live =>
    obtain ⟨hmode, hentered, hguest⟩ := hp
    have hc := h.2 c hentered
    rcases hl with ha | ⟨id, e, call, he, hf, hr, hcall, hm⟩
    · obtain ⟨id, e, d, hlast, hf, hr, hdc, hd, hcpu, -, hexit⟩ := h.astray ha
      have ht : live.number = Trap.timer := by
        by_contra ht
        obtain ⟨j, hj, -⟩ := hguest ht
        exact hexit j hj
      have hrun : s.kernel.runningOn c = none := by
        cases hrun : s.kernel.runningOn c with
        | none => rfl
        | some y =>
          obtain ⟨hy, hly, -, hcy⟩ := Kernel.runningOn_spec hrun
          rw [hlast] at hly
          rw [← Option.some.inj hly, hf] at hy
          obtain rfl := Option.some.inj hy
          rw [hcpu] at hcy
          exact absurd (Option.some.inj hcy) hdc
      obtain ⟨s', hs', hadrift⟩ := h.stale live ha hc (k := s.kernel.noted live) rfl rfl rfl
      exact ⟨s', by rw [System.step, Kernel.trap_timer hmode hrun ht]; exact hs', hadrift⟩
    · have hb := seats_eq_some.mpr he
      have hk := guest_of_call ⟨hmode, hentered, hguest⟩ hcall he hf
      obtain ⟨ctx, k', hd, d, j, hj, -, hlast, hgone⟩ := Kernel.trap_strands (ε := Empty) h.1 hmode hb hf hr hk hcall hm
      exact ⟨_, step_resumed he hd, d, j, seats_eq_some.mp hj, hlast, hgone⟩
  | create kind => exact hl.elim
  | load id va flags => exact hl.elim
  | entry id ip sp => exact hl.elim

theorem Orderly.rouses (h : s.Orderly n) (hp : s.Permitted l) (hl : s.Rouses l) :
    ∃ s' c caller e, s.step l = .ok s' ∧ s'.Unrest n c caller e := by
  cases l with
  | trap c live =>
    obtain ⟨caller, y, call, he, hf, hr, hcall, hm⟩ := hl
    have hb := seats_eq_some.mpr he
    have hk := guest_of_call hp hcall he hf
    cases call with
    | setStatus id status =>
      obtain ⟨rfl, e, hl, hbl⟩ := hm
      have hon : OnCpu n s.seats s.kernel.current caller s.kernel := ⟨h.1, rfl, y, hf, hr, hk⟩
      obtain ⟨hfe, hke⟩ := hon.reach_spec hl
      have hs : e.status = .notRunnable := (h.1.scheduled.fit _ e hfe).calm (by simp) hbl
      have hex : Exokernel.Orderly n s.kernel s.seats (some e.id) :=
        ⟨h.1.intact, h.1.scheduled.exempt hfe hke, h.1.counted⟩
      obtain ⟨ctx, k', hd, hcur, hst, hroused⟩ :=
        Kernel.trap_rouses (ε := Empty) hex hp.1 hb (hon.stays hb) hcall hl hs hbl hke
      refine ⟨_, c, caller, _, step_resumed he hd, he, ?_, hst, hroused⟩
      rw [hcur]
      exact h.2 c hp.2.1
    | _ => exact hm.elim
  | _ => exact hl.elim

/-- One step breaks what it is meant to keep exactly if it lapses. -/
theorem Orderly.kept_iff (h : s.Orderly n) (hp : s.Permitted l) (hs : s.step l = .ok s') :
    (s'.Exclusive ↔ ¬s.Strands l) ∧ (s'.Exclusive ∧ s'.Calm ↔ ¬s.Lapse l) := by
  by_cases hstrands : s.Strands l
  · obtain ⟨s₁, hs₁, ha⟩ := h.strands hp hstrands
    rw [hs] at hs₁
    obtain rfl := Except.ok.inj hs₁
    have hx := ha.not_exclusive
    exact ⟨iff_of_false hx (not_not.mpr hstrands), iff_of_false (fun h => hx h.1) (not_not.mpr (.inl hstrands))⟩
  · by_cases hrouses : s.Rouses l
    · obtain ⟨s₁, c, caller, e, hs₁, hu⟩ := h.rouses hp hrouses
      rw [hs] at hs₁
      obtain rfl := Except.ok.inj hs₁
      have hx := exclusive_of_orderly hu.roused.orderly
      exact ⟨iff_of_true hx hstrands, iff_of_false (fun h => hu.not_calm h.2) (not_not.mpr (.inr hrouses))⟩
    · have hl : ¬s.Lapse l := not_or.mpr ⟨hstrands, hrouses⟩
      obtain ⟨s₁, hs₁, ho⟩ := h.step hp hl
      rw [hs] at hs₁
      obtain rfl := Except.ok.inj hs₁
      have hx := exclusive_of_orderly ho.1
      exact ⟨iff_of_true hx hstrands, iff_of_true ⟨hx, ho.calm⟩ hl⟩

def Throughout (P : System → Prop) (trace : List (System × Step)) (s : System) : Prop :=
  P s ∧ ∀ p ∈ trace, P p.1

/-- What every single step breaks in the same way, while an invariant holds that the other steps keep, holds
throughout a run exactly if no step of the run breaks it. -/
theorem Runs.throughout_iff_of_kept {s₀ : System} {trace : List (System × Step)} {J P : System → Prop}
    {B : System → Step → Prop} (h : Runs s₀ trace s) (h₀ : J s₀) (hP : ∀ s : System, J s → P s)
    (hstep : ∀ (s s' : System) (l : Step), (s, l) ∈ trace → J s → s.Permitted l → s.step l = .ok s' →
      (P s' ↔ ¬B s l) ∧ (¬B s l → J s')) : Throughout P trace s ↔ ∀ p ∈ trace, ¬B p.1 p.2 := by
  suffices hall : (Throughout P trace s ↔ ∀ p ∈ trace, ¬B p.1 p.2) ∧ ((∀ p ∈ trace, ¬B p.1 p.2) → J s) from hall.1
  induction h with
  | start =>
    have hnone : ∀ (C : System × Step → Prop), ∀ p ∈ ([] : List (System × Step)), C p := fun C p hp => by cases hp
    exact ⟨iff_of_true ⟨hP s₀ h₀, hnone _⟩ (hnone _), fun _ => h₀⟩
  | @step trace s s' l _ hp hs ih =>
    obtain ⟨hiff, hkept⟩ := ih fun s s' l hmem => hstep s s' l (List.mem_cons_of_mem _ hmem)
    have hlast := fun hb => hstep s s' l List.mem_cons_self (hkept hb) hp hs
    refine ⟨⟨fun ⟨hlater, hall⟩ => ?_, fun hall => ?_⟩, fun hall => ?_⟩
    · have hb := hiff.mp ⟨hall _ List.mem_cons_self, fun p hp => hall p (List.mem_cons_of_mem _ hp)⟩
      exact List.forall_mem_cons.mpr ⟨(hlast hb).1.mp hlater, hb⟩
    · obtain ⟨hl, hb⟩ := List.forall_mem_cons.mp hall
      obtain ⟨hnow, hbefore⟩ := hiff.mpr hb
      exact ⟨(hlast hb).1.mpr hl, List.forall_mem_cons.mpr ⟨hnow, hbefore⟩⟩
    · obtain ⟨hl, hb⟩ := List.forall_mem_cons.mp hall
      exact (hlast hb).2 hl

theorem Runs.throughout_iff {s₀ : System} {trace : List (System × Step)} {P : System → Prop}
    {B : System → Step → Prop} (h : Runs s₀ trace s) (h₀ : s₀.Orderly n) (hP : ∀ s : System, s.Orderly n → P s)
    (hstep : ∀ (s s' : System) (l : Step), s.Orderly n → s.Permitted l → s.step l = .ok s' → (P s' ↔ ¬B s l))
    (hB : ∀ p ∈ trace, ¬B p.1 p.2 → ¬p.1.Lapse p.2) : Throughout P trace s ↔ ∀ p ∈ trace, ¬B p.1 p.2 := by
  refine h.throughout_iff_of_kept (J := Orderly n) h₀ hP fun s s' l hmem ho hp hs =>
    ⟨hstep s s' l ho hp hs, fun hb => ?_⟩
  obtain ⟨s₁, hs₁, ho₁⟩ := ho.step hp (hB _ hmem hb)
  rw [hs] at hs₁
  exact Except.ok.inj hs₁ ▸ ho₁

/-- In a run of a booted kernel every environment executes on one CPU at most, marked as running or dying there and
nowhere blocked, exactly if no step lapses. When no step rouses anybody, only a step that strands can break the
exclusion itself, and each of these does. -/
theorem exclusive_throughout {config : Config} {cycles : CycleCounter} {monitor : Monitor} {k : Kernel}
    {trace : List (System × Step)} (hk : Kernel.boot config cycles monitor = .ok k) (h : Runs (booted k) trace s) :
    (Throughout (fun s => s.Exclusive ∧ s.Calm) trace s ↔ Careful trace) ∧
      ((∀ p ∈ trace, ¬p.1.Rouses p.2) → (Throughout Exclusive trace s ↔ ∀ p ∈ trace, ¬p.1.Strands p.2)) := by
  have h₀ := orderly_booted hk
  constructor
  · exact h.throughout_iff h₀ (fun s hs => ⟨exclusive_of_orderly hs.1, hs.calm⟩)
      (fun s s' l ho hp hs => (ho.kept_iff hp hs).2) fun p _ hl => hl
  · intro hrouses
    exact h.throughout_iff h₀ (fun s hs => exclusive_of_orderly hs.1)
      (fun s s' l ho hp hs => (ho.kept_iff hp hs).1) fun p hp hl => not_or.mpr ⟨hl, hrouses p hp⟩

def next (s : System) (l : Step) : System := (s.step l).toOption.getD s

theorem step_next (h : (s.step l).isOk = true) : s.step l = .ok (s.next l) := by
  unfold next
  cases hs : s.step l with
  | ok s' => rfl
  | error p =>
    rw [hs] at h
    cases h

def twoCpus : Config := { cpus := 2, capacity := 4, frames := 4, level := .error }

def twoCpusBooted : Kernel := (Kernel.boot twoCpus {} {}).toOption.getD (.blank twoCpus {} {})

def oneStarted : System := ((booted twoCpusBooted).next (.create .user)).next (.start ⟨0⟩ {})

theorem runs_oneStarted : Runs (booted twoCpusBooted)
    [((booted twoCpusBooted).next (.create .user), .start ⟨0⟩ {}), (booted twoCpusBooted, .create .user)]
    oneStarted := by
  have h₁ : (booted twoCpusBooted).step (.create .user) = .ok ((booted twoCpusBooted).next (.create .user)) :=
    step_next (by decide +kernel)
  have hp : ((booted twoCpusBooted).next (.create .user)).Permitted (.start ⟨0⟩ {}) := by
    show _ < _
    decide +kernel
  have hcreate : (booted twoCpusBooted).Permitted (.create .user) := by
    show _ ≠ _
    decide
  exact (Runs.start.step hcreate h₁).step hp (step_next (by decide +kernel))

theorem careful_oneStarted : Careful
    [((booted twoCpusBooted).next (.create .user), .start ⟨0⟩ {}), (booted twoCpusBooted, .create .user)] := by
  refine List.forall_mem_cons.mpr ⟨?_, List.forall_mem_singleton.mpr ?_⟩
  · rintro (⟨id, e, d, hl, -⟩ | h)
    · have hnone : ((booted twoCpusBooted).next (.create .user)).kernel.currentOf ⟨0⟩ = none := by decide +kernel
      rw [hnone] at hl
      cases hl
    · exact h
  · rintro (h | h)
    · exact h
    · exact h

theorem exclusive_throughout_oneStarted : Kernel.boot twoCpus {} {} = .ok twoCpusBooted ∧
    oneStarted.exits ⟨0⟩ = some (.resume ⟨0x402⟩) ∧ oneStarted.Exclusive := by
  have hk : Kernel.boot twoCpus {} {} = .ok twoCpusBooted := by decide +kernel
  have hall := (exclusive_throughout hk runs_oneStarted).1.mpr careful_oneStarted
  exact ⟨hk, by decide +kernel, hall.1.1⟩

end Exokernel.System
