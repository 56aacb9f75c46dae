import Exokernel.Proofs.Memory.Supply
import Exokernel.Proofs.System.Anchored

/-!
# Idle environments stand by

Booting with a valid configuration makes an idle environment for each CPU, and runs short of neither slots nor frames.
From then on each one stays in its slot and can run on its own CPU, whatever the programs and the loader do, so that
no scheduling pass ever misses it.
-/

set_option autoImplicit false

namespace Exokernel

open Env (Id Kind Status)
open Env.Table

variable {n count index : Nat} {c d : Cpu} {id : Id} {k k' k₀ k₁ : Kernel} {l : Step} {r : Demand}
  {e : Env} {config : Config} {cycles : CycleCounter} {monitor : Monitor}

namespace Kernel

section boot

/-- With frames in supply an environment is made wherever there is a slot. -/
theorem allocate_stocked (parent : Id) (kind : Kind) (ht : k.envs.Sound) (hs : k.memory.Stocked (count + 1))
    (hf : k.envs.freeHead = some index) :
    (allocate parent kind k).Meets
      (fun _ k' => k'.memory.Stocked count ∧ k'.envs.Sound ∧ k.envs.free = index :: k'.envs.free)
      (fun _ _ => False) (fun _ => True) := by
  rw [allocate, Action.state_bind]
  simp only [hf]
  refine Action.meets_bind (P := fun _ k₁ => k₁.memory.Stocked count ∧ k₁.envs = k.envs) (Action.meets_mapError
    (Action.meets_onPart ((Memory.stocked_create hs).mono (fun _ _ h => ⟨h, rfl⟩) (fun _ _ h => h) fun _ h => h)))
    fun space k₁ h₁ => ?_
  rw [Action.advance_bind, record_bind]
  obtain ⟨hs₁, he⟩ := h₁
  rw [he]
  exact ⟨hs₁, ht.occupy hf, free_occupy ht hf ..⟩

theorem createIdle_stocked (cpus : List Cpu) (ht : k.envs.Sound) (hs : k.memory.Stocked cpus.length)
    (hf : cpus.length ≤ k.envs.free.length) :
    (createIdle cpus k).Meets (fun _ _ => True) (fun _ _ => False) (fun _ => True) := by
  induction cpus generalizing k with
  | nil => exact trivial
  | cons cpu cpus ih =>
    rw [createIdle]
    cases hhead : k.envs.freeHead with
    | none =>
      rw [ht.free_of_head_none hhead] at hf
      cases hf
    | some index =>
      refine Action.meets_bind (Action.meets_mapError (allocate_stocked .self .idle ht hs hhead)) fun id k₁ h₁ => ?_
      obtain ⟨hs₁, ht₁, hfree⟩ := h₁
      rw [record_bind]
      rw [hfree] at hf
      exact ih (k := { k₁ with journal := _ }) ht₁ hs₁ (Nat.le_of_succ_le_succ hf)

/-- A valid configuration boots. -/
theorem boot_done (hv : config.validate = .ok ()) (hf : config.frames < countLimit) :
    ∃ k, boot config cycles monitor = .ok k := by
  obtain ⟨hcpus, hslots, hlimit, hframes⟩ := of_validate hv
  have hlength : (Cpu.firstOf config.cpus).length ≤ config.cpus := by
    rw [Cpu.firstOf, List.length_map, List.length_range]
    exact Nat.min_le_left ..
  have hstocked : (Memory.ofFrames config.frames).Stocked (Cpu.firstOf config.cpus).length := by
    refine ⟨rfl, rfl, ?_⟩
    have hfree : (Memory.ofFrames config.frames).freeFrames = config.frames := by
      simp only [Memory.freeFrames, FramePool.freeCount, Memory.ofFrames, FramePool.ofSize, List.length_range,
        Nat.mod_eq_of_lt hf]
    rw [hfree]
    exact hlength.trans hframes
  have hroom : (Cpu.firstOf config.cpus).length ≤ (Env.Table.ofCapacity config.capacity).free.length := by
    rw [free_ofCapacity, List.length_range]
    omega
  have hup : (bringUp config (blank config cycles monitor)).Meets (fun _ _ => True) (fun _ _ => False)
      (fun _ => False) := by
    refine (Outcome.Meets.and (Q := fun _ _ => True) (R := fun _ _ => False) (H := fun _ => True) ?_
      (bringUp_rising hcpus)).mono (fun _ _ _ => trivial) (fun _ _ h => h.1) fun _ h => h.2
    rw [bringUp, record_bind]
    exact Action.meets_bind (createIdle_stocked _ (sound_ofCapacity _) hstocked hroom) fun _ _ _ => trivial
  obtain ⟨_, k, hd, -⟩ := hup.done
  exact ⟨k, by rw [boot, hv]; simp only [hd]⟩

end boot

end Kernel

/-- Demands that leave the idle environments to the timer: the steps of the CPUs and of the loader, and besides them
accesses of programs, new input and failures at any time. -/
def Demand.Fair (k : Kernel) : Demand → Prop
  | step l => l.Fair k
  | status .. => False
  | call .. => False
  | _ => True

inductive Kernel.Fares (k₀ : Kernel) : Kernel → Prop
  | start : Fares k₀ k₀
  | next {k k' : Kernel} {r : Demand} : Fares k₀ k → r.Fair k → r.run k = .ok k' → Fares k₀ k'

namespace Demand.Fair

theorem allowed (h : r.Fair k) : r.Allowed k := by
  cases r with
  | call => exact h.elim
  | _ => trivial

/-- What is no step leaves the environments alone. -/
theorem cases (h : r.Fair k) (hr : r.run k = .ok k') :
    (∃ l : Step, l.Fair k ∧ l.run k = .ok k') ∨ k'.envs = k.envs := by
  have hmemory : ∀ {ε α : Type} (x : Action Memory ε α), Action.Keeps Kernel.envs (Kernel.onMemory x) :=
    fun x k => Action.meets_onPart ((x k.memory).meets_self.mono (fun _ _ _ => rfl) (fun _ _ _ => rfl)
      fun _ _ => trivial)
  cases r with
  | step l => exact .inl ⟨l, h, hr⟩
  | status => exact h.elim
  | call => exact h.elim
  | read id va count =>
    have hkeeps : Action.Keeps Kernel.envs (Kernel.userRead id va count) := by
      refine Action.keeps_state_bind fun k => ?_
      cases k.spaceOf id with
      | error cause => exact Action.keeps_refuse _
      | ok space => exact hmemory _
    exact .inr (hkeeps.after hr)
  | write id va data =>
    have hkeeps : Action.Keeps Kernel.envs (Kernel.userWrite id va data) := by
      refine Action.keeps_state_bind fun k => ?_
      cases k.spaceOf id with
      | error cause => exact Action.keeps_refuse _
      | ok space => exact hmemory _
    exact .inr (hkeeps.after hr)
  | denyAlloc =>
    cases hr
    exact .inr rfl
  | denyMap =>
    cases hr
    exact .inr rfl
  | devices =>
    cases hr
    exact .inr rfl

end Demand.Fair

namespace Kernel

/-- Fair demands keep everybody on duty who is. -/
theorem Fares.standing (hp₀ : Proper n k₀.envs k₀.memory) (hhome : k₀.envs.AtHome) (h : Fares k₀ k) :
    Proper n k.envs k.memory ∧ k.envs.AtHome ∧
      ∀ id e, k₀.envs.find? id = some e → e.OnDuty → ∃ e', k.envs.find? id = some e' ∧ e'.OnDuty := by
  induction h with
  | start => exact ⟨hp₀, hhome, fun _ e he hd => ⟨e, he, hd⟩⟩
  | next _ hfair hrun ih =>
    obtain ⟨hp, hhome, hduty⟩ := ih
    have hp' := (Demand.does hp hfair.allowed hrun).proper hp
    rcases hfair.cases hrun with ⟨l, hl, hrun⟩ | hsame
    · obtain ⟨o, hm⟩ := Step.moves hp hrun
      refine ⟨hp', hm.atHome hp hhome, fun id e he hd => ?_⟩
      obtain ⟨e₁, he₁, hd₁⟩ := hduty id e he hd
      exact hm.onDuty hp hl he₁ hd₁
    · refine ⟨hp', ?_, ?_⟩
      · rwa [hsame]
      · rwa [hsame]

/-- A CPU whose idle environment is on duty never misses it. -/
theorem run_ne_idleNotRunnable (hp : Proper n k.envs k.memory) (hfair : l.Fair k) (hc : l.cpu? = some c)
    (he : k.envs.find? id = some e) (hi : id.index = c.index) (hd : e.OnDuty) :
    l.run k ≠ .error (.idleNotRunnable d) := by
  have hnone : ∀ p, (Blameless p ∨ ∃ k₁, l.Awaits c k k₁ ∧ Blames c k₁ p) → p ≠ .idleNotRunnable d := by
    rintro p (hb | ⟨k₁, ha, hb⟩) rfl
    · exact hb d rfl
    · obtain ⟨e₁, he₁, hd₁⟩ := ha.onDuty hp hfair he hd
      have hidle := idleOf_of_find? he₁ hi hd₁.idle hd₁.ready
      rw [hb d rfl] at hidle
      cases hidle
  intro hrun
  cases l with
  | start c' live =>
    cases hc
    exact hnone _ ((startCpu_moves c live k).of_error hrun) rfl
  | trap c' live =>
    cases hc
    exact hnone _ ((trap_moves c live hp).of_error hrun) rfl
  | _ => cases hc

/-- Every valid configuration with frames that can be counted boots. From then on, as long as idle environments take
timer traps only, slot `n` holds the idle environment that CPU `n` had at boot: it is live, it neither receives nor
waits with a message, and it is runnable or runs on CPU `n`. No step of a CPU finds its idle environment unable to
run. -/
theorem idle_on_duty (cycles : CycleCounter) (monitor : Monitor) (hv : config.validate = .ok ())
    (hf : config.frames < countLimit) : ∃ k₀, boot config cycles monitor = .ok k₀ ∧ ∀ k, Fares k₀ k →
      (∀ c : Cpu, c.index < config.cpus → ∃ e₀ e, k₀.envs.slot? c.index = some e₀ ∧ e₀.kind = .idle ∧
        k.envs.slot? c.index = some e ∧ k.envs.find? e₀.id = some e ∧ e.kind = .idle ∧
        e.mailbox.receiving = false ∧ e.outbox = none ∧
        (e.status = .runnable ∨ e.status = .running ∧ e.cpu = some c)) ∧
      ∀ (l : Step) c d, l.Fair k → l.cpu? = some c → c.index < config.cpus →
        l.run k ≠ .error (.idleNotRunnable d) := by
  obtain ⟨k₀, hk⟩ : ∃ k₀, boot config cycles monitor = .ok k₀ := boot_done hv hf
  refine ⟨k₀, hk, fun k h => ?_⟩
  obtain ⟨hp, hhome, hduty⟩ := h.standing (boot_proper hk) (boot_atHome hk)
  have hstaffed : ∀ c : Cpu, c.index < config.cpus → ∃ id e₀ e, id.index = c.index ∧ k₀.envs.find? id = some e₀ ∧
      e₀.OnDuty ∧ k.envs.find? id = some e ∧ e.OnDuty := by
    intro c hc
    obtain ⟨id, e₀, hi, he₀, hd₀⟩ := (System.anchored_booted hk).staffed c (by
      rw [System.booted, boot_size hk]
      exact hc)
    obtain ⟨e, he, hd⟩ := hduty id e₀ he₀ hd₀
    exact ⟨id, e₀, e, hi, he₀, hd₀, he, hd⟩
  refine ⟨fun c hc => ?_, fun l c d hfair hl hc => ?_⟩
  · obtain ⟨id, e₀, e, hi, he₀, hd₀, he, hd⟩ := hstaffed c hc
    have hslot := slot?_of_find? he
    have hslot₀ := slot?_of_find? he₀
    rw [hi] at hslot hslot₀
    rw [← id_of_find? he₀] at he
    have hreceiving : e.mailbox.receiving = false := Bool.not_eq_true _ ▸ fun h => hd.free (.inl h)
    have houtbox : e.outbox = none := Option.not_isSome_iff_eq_none.mp fun h => hd.free (.inr h)
    refine ⟨e₀, e, hslot₀, hd₀.idle, hslot, he, hd.idle, hreceiving, houtbox, hd.ready.imp_right fun hr => ⟨hr, ?_⟩⟩
    obtain ⟨c', hcpu, hi'⟩ := hhome _ e he hd.idle hr
    rw [id_of_find? he₀, hi] at hi'
    rwa [← Cpu.index_inj hi']
  · obtain ⟨id, _, e, hi, -, -, he, hd⟩ := hstaffed c hc
    exact run_ne_idleNotRunnable hp hfair hl he hi hd

def oneBusy : Kernel :=
  (Demand.step (.start ⟨1⟩ {})).next ((Demand.step (.start ⟨0⟩ {})).next
    ((Demand.step (.create .user)).next System.twoCpusBooted))

theorem fares_oneBusy : Fares System.twoCpusBooted oneBusy := by
  have hcreate : (Step.create .user).Fair System.twoCpusBooted := fun _ _ _ h => nomatch h
  have hstart : ∀ c k, (Step.start c {}).Fair k := fun _ _ _ _ _ h => nomatch h
  have h₁ := Fares.start.next (r := .step (.create .user)) hcreate (Demand.run_next (by decide +kernel))
  have h₂ := h₁.next (r := .step (.start ⟨0⟩ {})) (hstart _ _) (Demand.run_next (by decide +kernel))
  exact h₂.next (r := .step (.start ⟨1⟩ {})) (hstart _ _) (Demand.run_next (by decide +kernel))

/-- The idle environment of the second CPU runs from its slot, and the next timer trap finds it there. -/
theorem idle_on_duty_oneBusy : System.twoCpus.validate = .ok () ∧ System.twoCpus.frames < countLimit ∧
    Fares System.twoCpusBooted oneBusy ∧ (Step.trap ⟨1⟩ { number := Trap.timer }).Fair oneBusy ∧
    (∃ e, oneBusy.envs.slot? 1 = some e ∧ oneBusy.envs.find? e.id = some e ∧ e.kind = .idle ∧
      e.status = .running ∧ e.cpu = some ⟨1⟩) ∧
    ∀ d, (Step.trap ⟨1⟩ { number := Trap.timer }).run oneBusy ≠ .error (.idleNotRunnable d) := by
  have hvalid : System.twoCpus.validate = .ok () := by decide
  have hframes : System.twoCpus.frames < countLimit := by decide
  have hfair : (Step.trap ⟨1⟩ { number := Trap.timer }).Fair oneBusy := fun _ _ _ hl _ _ => by cases hl; rfl
  obtain ⟨k₀, hk, hall⟩ := idle_on_duty {} {} hvalid hframes
  have hboot : boot System.twoCpus {} {} = .ok System.twoCpusBooted := by decide +kernel
  obtain rfl : System.twoCpusBooted = k₀ := Except.ok.inj (hboot.symm.trans hk)
  obtain ⟨hslots, hsteps⟩ := hall oneBusy fares_oneBusy
  refine ⟨hvalid, hframes, fares_oneBusy, hfair, ?_, fun d => hsteps _ ⟨1⟩ d hfair rfl (by decide)⟩
  obtain ⟨e₀, e, -, -, hslot, hf, hk, -, -, hready⟩ := hslots ⟨1⟩ (by decide)
  have hstatus : (oneBusy.envs.slot? 1).map Env.status = some .running := by decide +kernel
  rw [show (⟨1⟩ : Cpu).index = 1 from rfl] at hslot
  rw [hslot] at hstatus
  have hrunning : e.status = .running := Option.some.inj hstatus
  refine ⟨e, hslot, ?_, hk, hrunning, (hready.resolve_left ?_).2⟩
  · rw [id_of_find? hf, hf]
  · rw [hrunning]
    decide

end Kernel

end Exokernel
