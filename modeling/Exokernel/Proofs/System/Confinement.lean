import Exokernel.Proofs.System.Coherence
import Exokernel.Proofs.System.Lapse
import Exokernel.Proofs.System.Moves

/-!
# What a pass on one CPU does to the others

A scheduling pass touches whom it dispatches and the last environment of its CPU, which loses the CPU. It leaves the
other CPUs alone exactly if that last environment does not run on one of them by now. A CPU that served or reclaimed
somebody finds it so; only one that comes without an environment of its own can be stale.
-/

set_option autoImplicit false

namespace Exokernel

open Env (Id Kind Status)
open Env.Table

def Env.Table.AtHome (t : Env.Table) : Prop :=
  ∀ id e, t.find? id = some e → e.kind = .idle → e.status = .running → ∃ c, e.cpu = some c ∧ c.index = id.index

/-- The last environment of `c` runs on another CPU by now. -/
def Kernel.Stale (c : Cpu) (k : Kernel) : Prop :=
  ∃ id e, k.currentOf c = some id ∧ k.envs.find? id = some e ∧ e.status = .running ∧ e.cpu ≠ some c

/-- A pass on `c` that keeps to the environments of `c`: it dispatches somebody who could run or its own idle
environment, and changes the status or the CPU of nobody else but of whoever runs on `c`. -/
structure Confined (c : Cpu) (d : Decision) (t t' : Env.Table) : Prop where
  chosen : ∀ id, d = .run id →
    ∃ e, t.find? id = some e ∧ (e.status = .runnable ∨ e.kind = .idle ∧ id.index = c.index)
  others : ∀ id e, d ≠ .run id → t.find? id = some e → ¬(e.status = .running ∧ e.cpu = some c) →
    ∃ e', t'.find? id = some e' ∧ e'.status = e.status ∧ e'.cpu = e.cpu
  elsewhere : ∀ id e, t.find? id = some e → e.status = .running → e.cpu ≠ some c →
    ∃ e', t'.find? id = some e' ∧ e'.status = .running ∧ e'.cpu = e.cpu

variable {n : Nat} {c : Cpu} {id : Id} {d : Decision} {exit : Exit} {k k' k₁ : Kernel} {l : Step} {e : Env}
  {t t' : Env.Table}

section home

theorem NobodyTurns.atHome (h : StartsNobody t t') (ht : t.AtHome) : t'.AtHome := by
  intro id e' hf hk hr
  obtain ⟨e, he, hre, hcpu, hkind⟩ := h id e' hf hr
  rw [← hcpu]
  exact ht id e he (hkind.trans hk) hre

theorem Kernel.demoted_stops (e : Env) : (demoted e).status ≠ .running := by
  unfold demoted
  split
  · intro h
    cases h
  · next hr => exact hr

theorem Passed.running_other {e' : Env} (hs : k.envs.Sound) (h : Passed c k exit k') (hid : exit ≠ .resume id)
    (hf : k'.envs.find? id = some e') (hr : e'.status = .running) :
    k.envs.find? id = some e' ∧ k.currentOf c ≠ some id := by
  rw [h.find?_other hs hid] at hf
  obtain ⟨e, he, hd⟩ := Option.map_eq_some_iff.mp hf
  split at hd
  · subst hd
    exact absurd hr (Kernel.demoted_stops e)
  · next hlast => exact ⟨hd ▸ he, hlast⟩

theorem Passed.atHome (hs : k.envs.Sound) (h : Passed c k exit k') (ht : k.envs.AtHome) : k'.envs.AtHome := by
  intro id e' hf hk hr
  by_cases hid : exit = .resume id
  · subst hid
    obtain ⟨e, -, hor, -, hf'⟩ := h.chosen hs
    cases hf.symm.trans hf'
    rcases hor with ⟨-, hne⟩ | ⟨-, hi, -⟩
    · exact absurd hk hne
    · exact ⟨c, rfl, hi.symm⟩
  · exact ht id e' (h.running_other hs hid hf hr).1 hk hr

theorem Step.Moves.atHome {o : Option (Cpu × Exit)} (hp : Proper n k.envs k.memory) (ht : k.envs.AtHome)
    (h : l.Moves k o k') : k'.envs.AtHome := by
  cases h with
  | worked _ hu _ => exact (hu.startsNobody hp).atHome ht
  | stayed hr hs hd _ _ _ => exact ((Kernel.upshot_of_handle hp hr hs hd).startsNobody hp).atHome ht
  | passed ha hd =>
    have hu := ha.upshot hp
    exact (Kernel.passed_of_schedule hd).atHome (hu.proper hp).intact.table ((hu.startsNobody hp).atHome ht)

theorem Kernel.boot_atHome {config : Config} {cycles : CycleCounter} {monitor : Monitor}
    (h : boot config cycles monitor = .ok k) : k.envs.AtHome := by
  refine (boot_establishes (fun t index space ht hfree hhome => ?_) h fun id e hf => ?_).2
  · exact (NobodyTurns.occupy (.inl rfl) ht hfree).atHome hhome
  · cases (find?_ofCapacity _ id).symm.trans hf

theorem Kernel.Runs.atHome {k₀ : Kernel} {trace : List (Kernel × Step)} (h : Runs k₀ trace k)
    (hp : Proper n k₀.envs k₀.memory) (h₀ : k₀.envs.AtHome) : k.envs.AtHome := by
  induction h with
  | start => exact h₀
  | step hold hrun ih =>
    obtain ⟨o, hm⟩ := Step.moves (hold.proper hp) hrun
    exact hm.atHome (hold.proper hp) ih

end home

section pass

theorem Passed.not_chosen (hs : k.envs.Sound) (ht : k.envs.AtHome) (h : Passed c k exit k')
    (hf : k.envs.find? id = some e) (hr : e.status = .running) (hcpu : e.cpu ≠ some c) : exit ≠ .resume id := by
  rintro rfl
  obtain ⟨y, hy, hor, -⟩ := h.chosen hs
  obtain rfl := find?_unique hf hy
  rcases hor with ⟨hrun, -⟩ | ⟨hk, hi, -⟩
  · cases hr.symm.trans hrun
  · obtain ⟨c', hc', hi'⟩ := ht id e hf hk hr
    obtain rfl : c' = c := Cpu.index_inj (hi'.trans hi)
    exact hcpu hc'

theorem Passed.demotes (hs : k.envs.Sound) (ht : k.envs.AtHome) (h : Passed c k exit k')
    (hl : k.currentOf c = some id) (hf : k.envs.find? id = some e) (hr : e.status = .running)
    (hcpu : e.cpu ≠ some c) : k'.envs.find? id = some { e with status := .runnable, cpu := none } := by
  rw [h.find?_other hs (h.not_chosen hs ht hf hr hcpu), hf, Option.map_some, if_pos hl, Kernel.demoted, if_pos hr]

theorem Passed.untouched (hs : k.envs.Sound) (h : Passed c k exit k') (hid : exit ≠ .resume id)
    (hl : k.currentOf c ≠ some id) : k'.envs.find? id = k.envs.find? id := by
  rw [h.find?_other hs hid]
  cases k.envs.find? id with
  | none => rfl
  | some e => rw [Option.map_some, if_neg hl]

theorem Passed.keeps (hs : k.envs.Sound) (h : Passed c k exit k') (hstale : ¬k.Stale c) (hid : exit ≠ .resume id)
    (hf : k.envs.find? id = some e) (hne : ¬(e.status = .running ∧ e.cpu = some c)) :
    k'.envs.find? id = some e := by
  by_cases hl : k.currentOf c = some id
  · have hstops : e.status ≠ .running := fun hr => hstale ⟨id, e, hl, hf, hr, fun hc => hne ⟨hr, hc⟩⟩
    rw [h.find?_other hs hid, hf, Option.map_some, if_pos hl, Kernel.demoted, if_neg hstops]
  · rw [h.untouched hs hid hl, hf]

theorem Decision.exit_eq : d.exit = .resume id ↔ d = .run id := by
  cases d with
  | run j => simp [Decision.exit]
  | monitor => simp [Decision.exit]

theorem Passed.dispatches (hs : k.envs.Sound) (h : Passed c k exit k') (hid : exit = .resume id) :
    ∃ e, k.envs.find? id = some e ∧ (e.status = .runnable ∨ e.kind = .idle ∧ id.index = c.index) ∧
      k'.envs.find? id = some (Kernel.promoted c e) := by
  subst hid
  obtain ⟨e, he, hor, -, hf'⟩ := h.chosen hs
  exact ⟨e, he, hor.imp (fun h => h.1) fun h => ⟨h.1, h.2.1⟩, hf'⟩

theorem Passed.confined_iff (hs : k.envs.Sound) (ht : k.envs.AtHome) (h : Passed c k d.exit k') :
    Confined c d k.envs k'.envs ↔ ¬k.Stale c := by
  constructor
  · rintro hconf ⟨id, e, hl, hf, hr, hcpu⟩
    obtain ⟨e', hf', hr', -⟩ := hconf.elsewhere id e hf hr hcpu
    cases (h.demotes hs ht hl hf hr hcpu).symm.trans hf'
    cases hr'
  · intro hstale
    refine ⟨fun id hd => ?_, fun id e hd hf hne => ?_, fun id e hf hr hcpu => ?_⟩
    · obtain ⟨e, he, hor, -⟩ := h.dispatches hs (Decision.exit_eq.mpr hd)
      exact ⟨e, he, hor⟩
    · have hid : d.exit ≠ .resume id := fun h => hd (Decision.exit_eq.mp h)
      exact ⟨e, h.keeps hs hstale hid hf hne, rfl, rfl⟩
    · have hid := h.not_chosen hs ht hf hr hcpu
      exact ⟨e, h.keeps hs hstale hid hf fun hc => hcpu hc.2, hr, rfl⟩

end pass

/-- Serving somebody leaves nobody else's environment behind as the last one of the CPU. -/
theorem Step.Awaits.not_stale (hp : Proper n k.envs k.memory) (h : l.Awaits c k k₁)
    (hr : k.runningOn c = some e) : ¬k₁.Stale c := by
  rintro ⟨id, y, hl, hf, hrun, hcpu⟩
  obtain ⟨hfe, hle, -, hce⟩ := Kernel.runningOn_spec hr
  rcases h.currentOf hp with hlast | ⟨hnone, -⟩
  · rw [hlast, hle] at hl
    cases hl
    obtain ⟨x, hx, -, hcx, -⟩ := (h.upshot hp).startsNobody hp _ y hf hrun
    obtain rfl := find?_unique hfe hx
    exact hcpu (hcx.symm.trans hce)
  · rw [hnone] at hl
    cases hl

namespace Kernel

/-- In every state that a run from boot comes to, and in which a step starts a pass, a pass on `c` is confined to the
environments of `c` exactly if `c` is not stale. Beside whom it dispatches it only ever touches the last environment
of `c`, which loses its CPU, whichever that is. A CPU that served or reclaimed an environment is not stale. -/
theorem confined_unless_stale {config : Config} {cycles : CycleCounter} {monitor : Monitor} {k₀ : Kernel}
    {trace : List (Kernel × Step)} (hk : boot config cycles monitor = .ok k₀) (h : Runs k₀ trace k) :
    (∀ c k₁, k₁ = k ∨ (∃ l : Step, l.Awaits c k k₁) → (schedule c k₁ : Outcome Kernel Empty Decision).Meets
      (fun d k' => (Confined c d k₁.envs k'.envs ↔ ¬k₁.Stale c) ∧
        (∀ id, d = .run id → ∃ e, k₁.envs.find? id = some e ∧
          (e.status = .runnable ∨ e.kind = .idle ∧ id.index = c.index) ∧ k'.envs.find? id = some (promoted c e)) ∧
        ∀ id e, d ≠ .run id → k₁.envs.find? id = some e →
          k'.envs.find? id = some (if k₁.currentOf c = some id then demoted e else e))
      (fun _ _ => False) fun p => p = .idleNotRunnable c ∧ k₁.idleOf c = none) ∧
    ∀ (l : Step) c k₁ e, l.Awaits c k k₁ → k.runningOn c = some e → ¬k₁.Stale c := by
  have hp := h.proper (boot_proper hk)
  have hhome := h.atHome (boot_proper hk) (boot_atHome hk)
  refine ⟨fun c k₁ hk₁ => ?_, fun l c k₁ e ha hr => ha.not_stale hp hr⟩
  have hbefore : k₁.envs.Sound ∧ k₁.envs.AtHome := by
    rcases hk₁ with rfl | ⟨l, ha⟩
    · exact ⟨hp.intact.table, hhome⟩
    · have hu := ha.upshot hp
      exact ⟨(hu.proper hp).intact.table, (hu.startsNobody hp).atHome hhome⟩
  obtain ⟨hs, ht⟩ := hbefore
  refine schedule_effect.mono (fun d k' hpass => ⟨hpass.confined_iff hs ht, fun id hd => ?_, fun id e hd hf => ?_⟩)
    (fun _ _ h => h) fun _ h => h
  · exact hpass.dispatches hs (Decision.exit_eq.mpr hd)
  · rw [hpass.find?_other hs fun h => hd (Decision.exit_eq.mp h), hf, Option.map_some]

def runsElsewhere : List Step :=
  [.create .user, .start ⟨0⟩ {}, .start ⟨1⟩ {}, .trap ⟨0⟩ (.making .receiveAny), .create .user,
    .trap ⟨1⟩ { number := Trap.timer }, .trap ⟨1⟩ (.making (.trySend ⟨0x402⟩ ⟨7, UInt64.ofNat utop, .empty⟩)),
    .trap ⟨1⟩ (.making .yield)]

/-- The next timer trap of the first CPU takes the program from the second one. -/
theorem confined_unless_stale_runsElsewhere : boot System.twoCpus {} {} = .ok System.twoCpusBooted ∧
    ∃ k k₁ k' trace, Runs System.twoCpusBooted trace k ∧ (Step.trap ⟨0⟩ { number := Trap.timer }).Awaits ⟨0⟩ k k₁ ∧
      (schedule ⟨0⟩ k₁ : Outcome Kernel Empty Decision) = .done (.run ⟨0x403⟩) k' ∧ k₁.Stale ⟨0⟩ ∧
      ¬Confined ⟨0⟩ (.run ⟨0x403⟩) k₁.envs k'.envs ∧
      (k₁.envs.find? ⟨0x402⟩).map (fun e => (e.status, e.cpu)) = some (.running, some ⟨1⟩) ∧
      (k'.envs.find? ⟨0x402⟩).map (fun e => (e.status, e.cpu)) = some (.runnable, none) := by
  have hboot : boot System.twoCpus {} {} = .ok System.twoCpusBooted := by decide +kernel
  let k := System.twoCpusBooted.followed runsElsewhere
  let k₁ := k.noted { number := Trap.timer }
  have hreach : runsElsewhere.foldlM Step.run System.twoCpusBooted = .ok k := foldlM_followed (by decide +kernel)
  obtain ⟨trace, hruns, -⟩ := Runs.start.follow hreach
  have hvacant : k.runningOn ⟨0⟩ = none := by decide +kernel
  have hawaits : (Step.trap ⟨0⟩ { number := Trap.timer }).Awaits ⟨0⟩ k k₁ := .trapped (.vacant hvacant rfl)
  have hlast : k₁.currentOf ⟨0⟩ = some ⟨0x402⟩ := by decide +kernel
  have hruns₁ : (k₁.envs.find? ⟨0x402⟩).map (fun e => (e.status, e.cpu)) = some (.running, some ⟨1⟩) := by
    decide +kernel
  have hstale : k₁.Stale ⟨0⟩ := by
    obtain ⟨e, hf, he⟩ := Option.map_eq_some_iff.mp hruns₁
    obtain ⟨hr, hcpu⟩ := Prod.mk.inj he
    exact ⟨_, e, hlast, hf, hr, by rw [hcpu]; decide⟩
  have hpass := (confined_unless_stale hboot hruns).1 ⟨0⟩ k₁ (.inr ⟨_, hawaits⟩)
  have hdecides : ((schedule ⟨0⟩ k₁ : Outcome Kernel Empty Decision).result?.map Prod.fst) = some (.run ⟨0x403⟩) := by
    decide +kernel
  obtain ⟨⟨d, k'⟩, hd, rfl⟩ := Option.map_eq_some_iff.mp hdecides
  have hdone := Outcome.result?_eq_some hd
  obtain ⟨hiff, -, hothers⟩ := hpass.of_done hdone
  refine ⟨hboot, k, k₁, k', trace, hruns, hawaits, hdone, hstale, fun hc => hiff.mp hc hstale, hruns₁, ?_⟩
  obtain ⟨e, hf, he⟩ := Option.map_eq_some_iff.mp hruns₁
  rw [hothers _ e (by decide) hf, if_pos hlast, demoted, if_pos (Prod.mk.inj he).1]
  rfl

end Kernel

end Exokernel
