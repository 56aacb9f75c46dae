import Exokernel.Proofs.System.Run
import Exokernel.Proofs.Trap.Effect

/-!
# Demands to a kernel

A booted kernel is asked to take traps and to enter CPUs, by the loader to create environments and to fill them, by
programs to load and to store, and by anybody to perform a call for a live environment. It may be asked in any order,
on any CPU and with any arguments; in between, devices move and failures are armed. What is left of environments and
memory is listed case by case, and fits together in every state that is ever reached.
-/

set_option autoImplicit false

namespace Exokernel

open Env (Id Kind Status)
open Env.Table

inductive Demand where
  | step (l : Step)
  | status (id : Id) (status : Status)
  | read (id : Id) (va count : Nat)
  | write (id : Id) (va : Nat) (data : Bytes)
  | call (table : CallTable) (cpu : Cpu) (caller : Id) (number : Word) (a : Arguments)
  | denyAlloc
  | denyMap
  | devices (console : Console) (cycles : CycleCounter) (monitor : Monitor) (journal : Journal)

def Step.run (k : Kernel) : Step → Except Panic Kernel
  | .start c live => (Kernel.startCpu c live k : Outcome Kernel Empty (Exit × Context)).after
  | .trap c live => (Kernel.trap c live k : Outcome Kernel Empty (Exit × Context)).after
  | .create kind => (Kernel.createEnv kind k).after
  | .load id va flags => (Kernel.loadPage id va flags k).after
  | .entry id ip sp => (Kernel.setEntry id ip sp k).after

namespace Demand

def run (k : Kernel) : Demand → Except Panic Kernel
  | step l => l.run k
  | status id s => (Kernel.setStatus id s k).after
  | read id va count => (Kernel.userRead id va count k).after
  | write id va data => (Kernel.userWrite id va data k).after
  | call table cpu caller number a => (Kernel.callSystem table cpu caller number a k).after
  | denyAlloc => .ok { k with memory := k.memory.denyAlloc }
  | denyMap => .ok { k with memory := k.memory.denyMap }
  | devices console cycles monitor journal => .ok { k with console, cycles, monitor, journal }

def next (r : Demand) (k : Kernel) : Kernel := (r.run k).toOption.getD k

theorem run_next {k : Kernel} {r : Demand} (h : (r.run k).isOk = true) : r.run k = .ok (r.next k) := by
  unfold next
  cases hr : r.run k with
  | ok k' => rfl
  | error p =>
    rw [hr] at h
    cases h

def Allowed (k : Kernel) : Demand → Prop
  | call _ _ caller _ _ => ∃ e, k.envs.find? caller = some e
  | _ => True

inductive Calls (k : Kernel) : Demand → Id → Call → Prop
  | asked {table : CallTable} {cpu : Cpu} {caller : Id} {number : Word} {a : Arguments} {call : Call} :
      table.decode number a = .ok call → Calls k (.call table cpu caller number a) caller call
  | trapped {c : Cpu} {live : Context} {e : Env} {call : Call} : k.runningOn c = some e → e.status = .running →
      live.call? = some call → Calls k (.step (.trap c live)) e.id call

end Demand

/-- The states of a kernel that was booted with some configuration. -/
inductive Kernel.Reachable : Kernel → Prop
  | boot {config : Config} {cycles : CycleCounter} {monitor : Monitor} {k : Kernel} :
      Kernel.boot config cycles monitor = .ok k → Reachable k
  | demand {k k' : Kernel} (r : Demand) : Reachable k → r.Allowed k → r.run k = .ok k' → Reachable k'

theorem Kernel.Reachable.next {k : Kernel} {r : Demand} (hk : k.Reachable) (ha : r.Allowed k)
    (hr : (r.run k).isOk = true) : (r.next k).Reachable := .demand r hk ha (Demand.run_next hr)

instance (k : Kernel) : (r : Demand) → Decidable (r.Allowed k)
  | .call _ _ caller _ _ =>
    decidable_of_iff ((k.envs.find? caller).isSome = true) (by simp [Demand.Allowed, Option.isSome_iff_exists])
  | .step _ | .status .. | .read .. | .write .. | .denyAlloc | .denyMap | .devices .. => .isTrue trivial

def Demand.replay (k : Kernel) : List Demand → Option Kernel
  | [] => some k
  | r :: rest => if r.Allowed k then (r.run k).toOption.bind fun k' => replay k' rest else none

theorem Kernel.Reachable.replay {k k' : Kernel} {rs : List Demand} (hk : k.Reachable)
    (h : Demand.replay k rs = some k') : k'.Reachable := by
  induction rs generalizing k with
  | nil => exact Option.some.inj h ▸ hk
  | cons r rest ih =>
    rw [Demand.replay, Option.ite_none_right_eq_some] at h
    obtain ⟨ha, h⟩ := h
    cases hr : r.run k with
    | error p =>
      rw [hr] at h
      cases h
    | ok k₁ =>
      rw [hr] at h
      exact ih (hk.demand r ha hr) h

theorem Kernel.Reachable.of_replay {config : Config} {k : Kernel} {rs : List Demand}
    (h : (Kernel.boot config {} {}).toOption.bind (Demand.replay · rs) = some k) : k.Reachable := by
  cases hb : Kernel.boot config {} {} with
  | error p =>
    rw [hb] at h
    cases h
  | ok k₀ =>
    rw [hb] at h
    exact (Reachable.boot hb).replay h

inductive Upshot (k : Kernel) : Demand → Env.Table → Memory → Prop
  | still (r : Demand) {m : Memory} : k.memory.Spent m → Upshot k r k.envs m
  | armed {r : Demand} {deny denyMap : Bool} : r = .denyAlloc ∨ r = .denyMap →
      Upshot k r k.envs (k.memory.armed deny denyMap)
  | trapped {c : Cpu} {live : Context} {t : Env.Table} {m : Memory} : Handled c live k t m →
      Upshot k (.step (.trap c live)) t m
  | created {kind : Kind} {index : Nat} {space : Handle} {m : Memory} :
      k.envs.freeHead = some index → Memory.create k.memory = .done space m →
      Upshot k (.step (.create kind)) (k.envs.occupy index .self kind space).2 m
  | loaded {id : Id} {va : Nat} {flags : PageFlags} {h : Handle} {m : Memory} :
      Memory.allocPage h va flags k.memory = .done () m → Upshot k (.step (.load id va flags)) k.envs m
  | entered {id : Id} {ip sp : Word} :
      Upshot k (.step (.entry id ip sp)) (k.envs.update id fun e => { e with context := { e.context with ip, sp } })
        k.memory
  | freed {id : Id} {e : Env} {h : Handle} {m : Memory} : k.envs.find? id = some e → e.space = some h →
      Memory.destroy h k.memory = .done () m → Upshot k (.status id .free) (k.envs.released id e) m
  | reset {id : Id} {status : Status} : status ≠ .free →
      Upshot k (.status id status)
        (k.envs.update id fun e => { e with status, cpu := if status = .running then e.cpu else none }) k.memory
  | stored {id : Id} {va : Nat} {data : Bytes} {h : Handle} {m : Memory} : k.memory.Stored m h →
      Upshot k (.write id va data) k.envs m
  | called {table : CallTable} {cpu : Cpu} {caller : Id} {number : Word} {a : Arguments} {call : Call}
      {t : Env.Table} {m : Memory} : table.decode number a = .ok call →
      Effect cpu caller k.envs k.memory call t m → Upshot k (.call table cpu caller number a) t m

def Does (k : Kernel) (r : Demand) (k' : Kernel) : Prop := ∃ k₁ : Kernel, Upshot k r k₁.envs k₁.memory ∧ k₁.Leaves k'

variable {ε α : Type} {n : Nat} {k k' : Kernel} {r : Demand} {l : Step} {c : Cpu} {id : Id} {t : Env.Table}
  {m : Memory}

theorem Outcome.Meets.of_after {P : Kernel → Prop} {H : Panic → Prop} {o : Outcome Kernel ε α}
    (h : o.Meets (fun _ => P) (fun _ => P) H) (ho : o.after = .ok k') : P k' := by
  rcases h.after with ⟨k₁, h₁, hp⟩ | ⟨p, h₁, -⟩
  · rw [ho] at h₁
    exact Except.ok.inj h₁ ▸ hp
  · rw [ho] at h₁
    cases h₁

theorem does_of_upshot (h : Upshot k r k'.envs k'.memory) : Does k r k' := ⟨k', h, .refl k'⟩

theorem upshot_still (he : k'.envs = k.envs) (hm : k.memory.Spent k'.memory) : Upshot k r k'.envs k'.memory := by
  rw [he]
  exact .still r hm

namespace Kernel

/-- The first entry of a CPU ends with a pass, if there is such a CPU. -/
theorem startCpu_effect (c : Cpu) (live : Context) (k : Kernel) :
    (startCpu c live k : Outcome Kernel ε (Exit × Context)).Meets
      (fun r k' => c.index < k.cpuCount ∧ ∃ online journal d, r.1 = d.exit ∧
        (schedule c { k with online, journal } : Outcome Kernel ε Decision) = .done d k')
      (fun _ _ => False) (fun p => Blameless p ∨ c.index < k.cpuCount ∧ Blames c k p) := by
  rw [startCpu, Action.state_bind]
  by_cases hc : k.cpuCount ≤ c.index
  · simp only [if_pos hc]
    exact .inl fun _ => Panic.noConfusion
  · simp only [if_neg hc]
    have hin := Nat.not_le.mp hc
    cases k.online.mark c with
    | none => exact .inl fun _ => Panic.noConfusion
    | some marked =>
      simp only [Action.modify_bind]
      by_cases hfirst : (!marked.1) = true
      · simp only [if_pos hfirst, record_bind]
        exact (reschedule_effect live).mono (fun _ _ h => ⟨hin, _, _, h⟩) (fun _ _ h => h) fun _ h => .inr ⟨hin, h⟩
      · simp only [if_neg hfirst, record_bind]
        exact (reschedule_effect live).mono (fun _ _ h => ⟨hin, _, _, h⟩) (fun _ _ h => h) fun _ h => .inr ⟨hin, h⟩

theorem loadPage_effect (id : Env.Id) (va : Nat) (flags : PageFlags) (hp : Proper n k.envs k.memory) :
    (loadPage id va flags k).Meets (fun _ k' => Upshot k (.step (.load id va flags)) k'.envs k'.memory)
      (fun _ k' => Upshot k (.step (.load id va flags)) k'.envs k'.memory) (fun _ => True) := by
  rw [loadPage, Action.state_bind]
  cases k.spaceOf id with
  | error cause => exact upshot_still rfl (.refl _)
  | ok space =>
    apply Action.meets_onPart
    have hx := Memory.allocPage_effect space va flags hp.intact.memory hp.clear
    cases hm : Memory.allocPage space va flags k.memory with
    | done u m => exact .loaded hm
    | refused cause m => exact .still _ (hx.of_refused hm)
    | halted p => exact trivial

theorem setEntry_effect (id : Env.Id) (ip sp : Word) (k : Kernel) :
    (setEntry id ip sp k).Meets (fun _ k' => Upshot k (.step (.entry id ip sp)) k'.envs k'.memory)
      (fun _ k' => Upshot k (.step (.entry id ip sp)) k'.envs k'.memory) (fun _ => True) := by
  rw [setEntry]
  cases hf : k.envs.find? id with
  | none =>
    rw [readEnv_bind_none hf]
    exact upshot_still rfl (.refl _)
  | some e =>
    rw [readEnv_bind hf]
    exact .entered

theorem setStatus_effect (id : Env.Id) (status : Env.Status) (hp : Proper n k.envs k.memory) :
    (setStatus id status k).Meets (fun _ k' => Upshot k (.status id status) k'.envs k'.memory)
      (fun _ k' => Upshot k (.status id status) k'.envs k'.memory) (fun _ => True) := by
  cases hf : k.envs.find? id with
  | none =>
    rw [setStatus]
    split
    · rw [free_none hf]
      exact upshot_still rfl (.refl _)
    · rw [readEnv_bind_none hf]
      exact upshot_still rfl (.refl _)
  | some e =>
    by_cases hs : status = .free
    · obtain ⟨m, j, hd, -, h, hspace, hm⟩ := free_done hp.intact hf
      rw [setStatus, if_pos hs, hd, hs]
      exact .freed hf hspace hm
    · rw [setStatus_done hf hs]
      exact .reset hs

theorem userRead_effect (id : Env.Id) (va count : Nat) (hp : Proper n k.envs k.memory) :
    (userRead id va count k).Meets (fun _ k' => Upshot k (.read id va count) k'.envs k'.memory)
      (fun _ k' => Upshot k (.read id va count) k'.envs k'.memory) (fun _ => True) := by
  have hself : Upshot k (.read id va count) k.envs k.memory := .still _ (.refl _)
  rw [userRead, Action.state_bind]
  cases k.spaceOf id with
  | error cause => exact hself
  | ok space =>
    apply Action.meets_onPart
    by_cases hva : va < addressLimit
    · refine (Memory.readUser_spec hp.intact.memory hva).mono (fun _ m hm => ?_) (fun _ m hm => ?_) fun _ h => h.elim
      · rw [hm]
        exact hself
      · rw [hm]
        exact hself
    · rw [Memory.readUser]
      split
      · exact hself
      · exact trivial

theorem userWrite_effect (id : Env.Id) (va : Nat) (data : Bytes) (hp : Proper n k.envs k.memory) :
    (userWrite id va data k).Meets (fun _ k' => Upshot k (.write id va data) k'.envs k'.memory)
      (fun _ k' => Upshot k (.write id va data) k'.envs k'.memory) (fun _ => True) := by
  rw [userWrite, Action.state_bind]
  cases k.spaceOf id with
  | error cause => exact upshot_still rfl (.refl _)
  | ok space =>
    apply Action.meets_onPart
    exact (Memory.writeUser_effect space va data hp.intact.memory hp.clear).mono
      (fun _ _ h => .stored h) (fun _ _ h => .stored h) fun _ _ => trivial

theorem createEnv_effect (kind : Env.Kind) (hp : Proper n k.envs k.memory) :
    (createEnv kind k).Meets (fun _ k' => Upshot k (.step (.create kind)) k'.envs k'.memory)
      (fun _ k' => Upshot k (.step (.create kind)) k'.envs k'.memory) (fun _ => True) := by
  refine (allocate_effect hp).mono (fun _ k' h => ?_) (fun _ k' h => ?_) fun _ _ => trivial
  · obtain ⟨index, space, m, j, hfree, hm, -, rfl⟩ := h
    exact .created hfree hm
  · obtain ⟨m, rfl, hm⟩ := h
    exact .still _ hm

end Kernel

theorem Step.does (hp : Proper n k.envs k.memory) (h : l.run k = .ok k') : Does k (.step l) k' := by
  cases l with
  | start c live =>
    exact Outcome.Meets.of_after ((Kernel.startCpu_effect c live k).mono
      (fun r _ ⟨_, online, journal, d, _, hd⟩ => ⟨k, .still _ (.refl _), { k with online, journal }, ⟨rfl, rfl⟩,
        .inr ⟨c, d.exit, Kernel.passed_of_schedule hd⟩⟩) (fun _ _ h => h.elim) fun _ h => h) h
  | trap c live =>
    exact Outcome.Meets.of_after ((Kernel.trap_quits c live hp).mono
      (fun _ _ hq => have ⟨k₁, hd, hl⟩ := hq.leaves hp; ⟨k₁, .trapped hd, hl⟩) (fun _ _ h => h.elim) fun _ h => h) h
  | create kind => exact does_of_upshot ((Kernel.createEnv_effect kind hp).of_after h)
  | load id va flags => exact does_of_upshot ((Kernel.loadPage_effect id va flags hp).of_after h)
  | entry id ip sp => exact does_of_upshot ((Kernel.setEntry_effect id ip sp k).of_after h)

/-- A demand that takes no CPU into the kernel ends with its upshot. -/
theorem Demand.upshot (hp : Proper n k.envs k.memory) (ha : r.Allowed k) (h : r.run k = .ok k')
    (hr : ∀ l, r ≠ .step l) : Upshot k r k'.envs k'.memory := by
  cases r with
  | step l => exact absurd rfl (hr l)
  | status id status => exact (Kernel.setStatus_effect id status hp).of_after h
  | read id va count => exact (Kernel.userRead_effect id va count hp).of_after h
  | write id va data => exact (Kernel.userWrite_effect id va data hp).of_after h
  | call table cpu caller number a =>
    obtain ⟨e, hc⟩ := ha
    refine Outcome.Meets.of_after (P := fun k₁ => Upshot k _ k₁.envs k₁.memory)
      ((Kernel.callSystem_effect table number a hp hc).mono (fun _ k₁ h₁ => ?_) (fun _ k₁ h₁ => ?_) fun _ h => h) h
    · obtain ⟨call, hd, he⟩ := h₁
      exact .called hd he
    · obtain ⟨m, cycles, rfl, hm, -⟩ := h₁
      exact upshot_still rfl hm
  | denyAlloc =>
    cases h
    exact .armed (.inl rfl)
  | denyMap =>
    cases h
    exact .armed (.inr rfl)
  | devices console cycles monitor journal =>
    cases h
    exact upshot_still rfl (.refl _)

theorem Demand.does (hp : Proper n k.envs k.memory) (ha : r.Allowed k) (h : r.run k = .ok k') : Does k r k' := by
  cases r with
  | step l => exact Step.does hp h
  | _ => exact does_of_upshot (Demand.upshot hp ha h fun _ => Demand.noConfusion)

theorem Proper.armed (hp : Proper n t m) (deny denyMap : Bool) : Proper n t (m.armed deny denyMap) :=
  ⟨hp.intact.kept (Memory.settled_armed hp.intact.memory deny denyMap) (Memory.kept_of_spaces rfl), hp.clear⟩

theorem Upshot.proper (hp : Proper n k.envs k.memory) (h : Upshot k r t m) : Proper n t m := by
  cases h with
  | still _ hm => exact hp.spent hm
  | armed _ => exact hp.armed _ _
  | trapped hd => exact hd.proper hp
  | created hfree hm => exact hp.occupied hfree hm
  | loaded hm => exact hp.allocated hm
  | entered => exact hp.touched touched_context
  | freed hf hs hm => exact hp.released hf hs hm
  | reset hs => exact hp.touched (touched_status hs)
  | stored hm => exact hp.stored hm
  | called _ he => exact he.proper hp

theorem Does.proper (hp : Proper n k.envs k.memory) (h : Does k r k') : Proper n k'.envs k'.memory := by
  obtain ⟨k₁, hd, hl⟩ := h
  exact hl.proper (hd.proper hp)

/-- A history lists demands that are allowed and do not panic, with the states before them, the latest first. -/
inductive Kernel.History (k₀ : Kernel) : List (Kernel × Demand) → Kernel → Prop
  | start : History k₀ [] k₀
  | demand {past : List (Kernel × Demand)} {k k' : Kernel} {r : Demand} : History k₀ past k → r.Allowed k →
      r.run k = .ok k' → History k₀ ((k, r) :: past) k'

namespace Kernel.History

variable {k₀ : Kernel} {past : List (Kernel × Demand)}

theorem next (h : History k₀ past k) (ha : r.Allowed k) (hr : (r.run k).isOk = true) :
    History k₀ ((k, r) :: past) (r.next k) := .demand h ha (Demand.run_next hr)

theorem proper (hp : Proper n k₀.envs k₀.memory) (h : History k₀ past k) : Proper n k.envs k.memory := by
  induction h with
  | start => exact hp
  | demand _ ha hr ih => exact (Demand.does ih ha hr).proper ih

end Kernel.History

namespace Kernel

section boot

variable {config : Config} {cycles : CycleCounter} {monitor : Monitor} {P : Env.Table → Prop}
  (hP : ∀ t index space, t.Sound → t.freeHead = some index → P t → P (t.occupy index .self .idle space).2)
include hP

theorem createIdle_establishes (cpus : List Cpu) (hp : Proper n k.envs k.memory) (h : P k.envs) :
    (createIdle cpus k).Meets (fun _ k' => Proper n k'.envs k'.memory ∧ P k'.envs) (fun _ _ => True)
      (fun _ => True) := by
  induction cpus generalizing k with
  | nil => exact ⟨hp, h⟩
  | cons cpu cpus ih =>
    rw [createIdle]
    refine Action.meets_bind (Action.meets_mapError ((allocate_effect hp).mono (fun _ _ h => h) (fun _ _ _ => trivial)
      fun _ _ => trivial)) fun id k₁ h₁ => ?_
    obtain ⟨index, space, m, j, hfree, hm, -, rfl⟩ := h₁
    rw [record_bind]
    exact ih (k := { k with envs := _, memory := m, journal := _ }) (hp.occupied hfree hm)
      (hP _ _ _ hp.intact.table hfree h)

theorem boot_establishes (h : boot config cycles monitor = .ok k) (h₀ : P (.ofCapacity config.capacity)) :
    Proper config.frames k.envs k.memory ∧ P k.envs := by
  have hup : (bringUp config (blank config cycles monitor)).Meets
      (fun _ k' => Proper config.frames k'.envs k'.memory ∧ P k'.envs) (fun _ _ => True) (fun _ => True) := by
    rw [bringUp, record_bind]
    refine Action.meets_bind (createIdle_establishes hP _ ?_ h₀) fun _ _ h => h
    exact proper_start config.capacity config.frames
  exact hup.of_done (boot_eq h).2

end boot

theorem boot_proper {config : Config} {cycles : CycleCounter} {monitor : Monitor}
    (h : boot config cycles monitor = .ok k) : Proper config.frames k.envs k.memory :=
  (boot_establishes (P := fun _ => True) (fun _ _ _ _ _ h => h) h trivial).1

theorem Reachable.proper (h : k.Reachable) : ∃ n, Proper n k.envs k.memory := by
  induction h with
  | @boot config _ _ _ hb => exact ⟨config.frames, boot_proper hb⟩
  | demand r _ ha hr ih =>
    obtain ⟨n, hp⟩ := ih
    exact ⟨n, (r.does hp ha hr).proper hp⟩

def pairConfig : Config := { cpus := 1, capacity := 3, frames := 8, level := .error }

def pairBooted : Kernel := (boot pairConfig {} {}).toOption.getD (.blank pairConfig {} {})

def pair : Kernel := (Demand.step (.create .user)).next ((Demand.step (.create .user)).next pairBooted)

theorem reachable_pair : pair.Reachable := by
  have hboot : boot pairConfig {} {} = .ok pairBooted := by decide +kernel
  have h₁ := (Reachable.boot hboot).next (r := .step (.create .user)) trivial (by decide +kernel)
  exact h₁.next trivial (by decide +kernel)

def asking : Demand := .call .standard ⟨0⟩ ⟨0x402⟩ 13 #v[0x300000, 0, 0, 0, 0]

end Kernel

end Exokernel
