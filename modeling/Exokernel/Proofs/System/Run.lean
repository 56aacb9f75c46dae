import Exokernel.Proofs.Kernel.Entry

/-!
# Runs of a machine

A machine is a kernel together with the last exit of each CPU. Programs raise traps with any contents of the
registers; a CPU that is parked or runs its idle environment raises timer traps only; the loader works in between.

Some steps are lapses. A CPU that enters the scheduler while its last environment runs on another CPU by now takes
it from there, as a program does that strands a child. A program that rouses a child lets it run in the middle of a
message operation. Without lapses a machine stays in order and never panics.
-/

set_option autoImplicit false

namespace Exokernel

open Env (Id Kind Status)
open Env.Table

structure System where
  kernel : Kernel
  exits : Cpu → Option Exit

inductive Step where
  | start (cpu : Cpu) (live : Context)
  | trap (cpu : Cpu) (live : Context)
  | create (kind : Kind)
  | load (id : Id) (va : Nat) (flags : PageFlags)
  | entry (id : Id) (ip sp : Word)

namespace System

def booted (k : Kernel) : System := { kernel := k, exits := fun _ => none }

def seats (s : System) : Seats := fun c => (s.exits c).bind Exit.seat

def left (s : System) (c : Cpu) : Outcome Kernel Empty (Exit × Context) → Except Panic System
  | .done (exit, _) k => .ok { kernel := k, exits := Function.update s.exits c (some exit) }
  | .refused cause _ => nomatch cause
  | .halted p => .error p

def step (s : System) : Step → Except Panic System
  | .start c live => s.left c (Kernel.startCpu c live s.kernel)
  | .trap c live => s.left c (Kernel.trap c live s.kernel)
  | .create kind => (Kernel.createEnv kind s.kernel).after.map fun k => { s with kernel := k }
  | .load id va flags => (Kernel.loadPage id va flags s.kernel).after.map fun k => { s with kernel := k }
  | .entry id ip sp => (Kernel.setEntry id ip sp s.kernel).after.map fun k => { s with kernel := k }

def Executes (s : System) (c : Cpu) : Prop :=
  ∃ id, s.exits c = some (.resume id) ∧ ∀ e, s.kernel.envs.find? id = some e → e.kind ≠ .idle

def Permitted (s : System) : Step → Prop
  | .start c _ => c.index < s.kernel.cpuCount
  | .trap c live => live.mode = .user ∧ s.exits c ≠ none ∧ (live.number ≠ Trap.timer → s.Executes c)
  | .create kind => kind ≠ .idle
  | .load .. => True
  | .entry .. => True

def Astray (s : System) (c : Cpu) : Prop :=
  ∃ id e d, s.kernel.currentOf c = some id ∧ s.kernel.envs.find? id = some e ∧ e.status = .running ∧ d ≠ c ∧
    s.exits d = some (.resume id)

def Calls (s : System) (c : Cpu) (live : Context) (P : Id → Call → Prop) : Prop :=
  ∃ id e call, s.exits c = some (.resume id) ∧ s.kernel.envs.find? id = some e ∧ e.status = .running ∧
    live.call? = some call ∧ P id call

/-- Steps that take an environment from a CPU that still executes it. -/
def Strands (s : System) : Step → Prop
  | .start c _ => s.Astray c
  | .trap c live => s.Astray c ∨ s.Calls c live (Exokernel.Strands s.kernel.envs s.seats)
  | _ => False

def Rouses (s : System) : Step → Prop
  | .trap c live => s.Calls c live (Exokernel.Rouses s.kernel.envs)
  | _ => False

def Lapse (s : System) (l : Step) : Prop := s.Strands l ∨ s.Rouses l

inductive Runs (s₀ : System) : List (System × Step) → System → Prop
  | start : Runs s₀ [] s₀
  | step {trace : List (System × Step)} {s s' : System} {l : Step} :
      Runs s₀ trace s → s.Permitted l → s.step l = .ok s' → Runs s₀ ((s, l) :: trace) s'

def Careful (trace : List (System × Step)) : Prop := ∀ p ∈ trace, ¬p.1.Lapse p.2

/-- Every environment that a CPU executes is there, marked as running or dying on that CPU and on no other. -/
def Exclusive (s : System) : Prop :=
  ∀ c id, s.exits c = some (.resume id) →
    (∃ e, s.kernel.envs.find? id = some e ∧ (e.status = .running ∨ e.status = .dying) ∧ e.cpu = some c) ∧
      s.kernel.currentOf c = some id ∧ ∀ d, d ≠ c → s.exits d ≠ some (.resume id)

/-- Whoever is blocked in a message operation is not runnable. -/
def Calm (s : System) : Prop :=
  ∀ id e, s.kernel.envs.find? id = some e → Blocked e → e.status = .notRunnable

def Orderly (n : Nat) (s : System) : Prop :=
  Exokernel.Orderly n s.kernel s.seats none ∧ ∀ c, s.exits c ≠ none → c.index < s.kernel.current.size

variable {n : Nat} {s s' : System} {c d : Cpu} {id caller : Id} {live : Context} {l : Step} {exit : Exit}

theorem seats_eq_some : s.seats c = some id ↔ s.exits c = some (.resume id) := by
  unfold seats
  cases he : s.exits c with
  | none => simp
  | some exit =>
    cases exit with
    | resume j => simp [Exit.seat]
    | monitor => simp [Exit.seat]

theorem seats_left (k : Kernel) (exit : Exit) :
    seats { kernel := k, exits := Function.update s.exits c (some exit) } = Function.update s.seats c exit.seat := by
  funext d
  by_cases hd : d = c
  · subst hd
    simp [seats]
  · simp [seats, Function.update_of_ne hd]

theorem exclusive_of_orderly {x : Option Id} (h : Exokernel.Orderly n s.kernel s.seats x) : s.Exclusive := by
  intro c id hc
  have hb := seats_eq_some.mpr hc
  obtain ⟨e, hf, hs, hcpu, hl⟩ := h.scheduled.hosted c id hb
  refine ⟨⟨e, hf, hs, hcpu⟩, hl, fun d hdc hd => ?_⟩
  exact hdc (h.scheduled.seat_unique hb (seats_eq_some.mpr hd))

theorem Orderly.calm (h : s.Orderly n) : s.Calm :=
  fun id e hf hb => (h.1.scheduled.fit id e hf).calm (by simp) hb

theorem Orderly.lastHere (h : s.Orderly n) (ha : ¬s.Astray c) : LastHere s.kernel s.seats c := by
  intro id e hl hf hr
  obtain ⟨d, -, hd⟩ := (h.1.scheduled.fit id e hf).running hr
  rw [id_of_find? hf] at hd
  by_cases hdc : d = c
  · exact hdc ▸ hd
  · exact absurd ⟨id, e, d, hl, hf, hr, hdc, seats_eq_some.mp hd⟩ ha

theorem Orderly.left {k : Kernel} (h : s.Orderly n)
    (ho : Exokernel.Orderly n k (Function.update s.seats c exit.seat) none) (hc : c.index < s.kernel.current.size)
    (hsize : k.current.size = s.kernel.current.size) :
    Orderly n { kernel := k, exits := Function.update s.exits c (some exit) } := by
  constructor
  · rw [seats_left]
    exact ho
  · intro d hd
    show d.index < k.current.size
    rw [hsize]
    by_cases hdc : d = c
    · exact hdc ▸ hc
    · exact h.2 d (by rw [← Function.update_of_ne hdc (some exit) s.exits]; exact hd)

theorem Orderly.unmoved {ε α : Type} {o : Outcome Kernel ε α} (h : s.Orderly n)
    (ho : o.Meets (fun _ => Kernel.Unmoved n s.seats s.kernel) (fun _ => Kernel.Unmoved n s.seats s.kernel)
      fun _ => False) :
    ∃ s', (o.after.map fun k => ({ s with kernel := k } : System)) = .ok s' ∧ s'.Orderly n := by
  have hk : ∀ k, Kernel.Unmoved n s.seats s.kernel k → Orderly n { s with kernel := k } := by
    intro k hk
    refine ⟨hk.1, fun c hc => ?_⟩
    show c.index < k.current.size
    rw [hk.2]
    exact h.2 c hc
  rcases ho.after with ⟨k, hd, hu⟩ | ⟨p, -, hp⟩
  · exact ⟨{ s with kernel := k }, by rw [hd]; rfl, hk k hu⟩
  · exact hp.elim

/-- A step that is no lapse never panics, and keeps the machine in order. -/
theorem Orderly.step (h : s.Orderly n) (hp : s.Permitted l) (hl : ¬s.Lapse l) :
    ∃ s', s.step l = .ok s' ∧ s'.Orderly n := by
  cases l with
  | start c live =>
    obtain ⟨exit, ctx, k, hd, ho, hsize⟩ :=
      Kernel.startCpu_spec (ε := Empty) live h.1 (h.lastHere fun ha => hl (.inl ha)) hp
    exact ⟨_, by rw [System.step, hd]; rfl, h.left ho hp hsize⟩
  | trap c live =>
    obtain ⟨hmode, hentered, hguest⟩ := hp
    have hc := h.2 c hentered
    have hexec : live.number ≠ Trap.timer →
        ∃ id e, s.seats c = some id ∧ s.kernel.envs.find? id = some e ∧ e.kind ≠ .idle := by
      intro ht
      obtain ⟨id, he, hk⟩ := hguest ht
      have hb := seats_eq_some.mpr he
      obtain ⟨e, hf, -⟩ := h.1.scheduled.hosted c id hb
      exact ⟨id, e, hb, hf, hk e hf⟩
    obtain ⟨exit, ctx, k, hd, ho, hsize⟩ := Kernel.trap_spec (ε := Empty) h.1 hmode hc
      (h.lastHere fun ha => hl (.inl (.inl ha))) hexec fun id e call hb hf hr hcall hm => by
        have he := seats_eq_some.mp hb
        rcases hm with hm | hm
        · exact hl (.inl (.inr ⟨id, e, call, he, hf, hr, hcall, hm⟩))
        · exact hl (.inr ⟨id, e, call, he, hf, hr, hcall, hm⟩)
    exact ⟨_, by rw [System.step, hd]; rfl, h.left ho hc hsize⟩
  | create kind => exact h.unmoved (Kernel.createEnv_spec h.1 hp)
  | load id va flags => exact h.unmoved (Kernel.loadPage_spec h.1)
  | entry id ip sp => exact h.unmoved (Kernel.setEntry_spec h.1)

theorem orderly_booted {config : Config} {cycles : CycleCounter} {monitor : Monitor} {k : Kernel}
    (hk : Kernel.boot config cycles monitor = .ok k) : (booted k).Orderly config.frames :=
  ⟨Kernel.boot_spec hk, fun _ hc => absurd rfl hc⟩

theorem Runs.orderly {s₀ : System} {trace : List (System × Step)} (h : Runs s₀ trace s) (h₀ : s₀.Orderly n)
    (hc : Careful trace) : s.Orderly n := by
  induction h with
  | start => exact h₀
  | step _ hp hs ih =>
    have ho := ih fun p hp => hc p (List.mem_cons_of_mem _ hp)
    obtain ⟨s₁, hs₁, ho₁⟩ := ho.step hp (hc _ List.mem_cons_self)
    rw [hs] at hs₁
    exact Except.ok.inj hs₁ ▸ ho₁

end System

end Exokernel
