import Exokernel.Proofs.Kernel.Steady
import Exokernel.Proofs.System.Demands
import Exokernel.Proofs.Trap.Running

/-!
# How steps end

The loader moves no CPU. A CPU that enters the kernel goes back into the environment that it was served for, or it
starts a scheduling pass. Until then nobody is started, and what each CPU dispatched last stays noted, except that
a CPU forgets whoever is gone.
-/

set_option autoImplicit false

namespace Exokernel

open Env (Id Kind Status)
open Env.Table

def Step.cpu? : Step → Option Cpu
  | .start c _ => some c
  | .trap c _ => some c
  | _ => none

/-- The kernels in which `c` starts a pass, when a step takes it into `k`. -/
inductive Step.Awaits (c : Cpu) (k : Kernel) : Step → Kernel → Prop
  | started {live : Context} {online : OnlineMask} {journal : Journal} : c.index < k.cpuCount →
      Awaits c k (.start c live) { k with online, journal }
  | trapped {live : Context} {k₁ : Kernel} : Exokernel.Awaits c live k k₁ → Awaits c k (.trap c live) k₁

inductive Step.Moves (k : Kernel) : Step → Option (Cpu × Exit) → Kernel → Prop
  | worked {l : Step} {k' : Kernel} : l.cpu? = none → Upshot k (.step l) k'.envs k'.memory →
      k'.current = k.current → Moves k l none k'
  | stayed {c : Cpu} {live : Context} {e y : Env} {k' : Kernel} : k.runningOn c = some e → e.status = .running →
      (Kernel.handle c { e with context := live } (k.saved e.id live) : Outcome Kernel Empty Bool) = .done false k' →
      k'.envs.find? e.id = some y → y.status = .running → y.cpu = some c →
      Moves k (.trap c live) (some (c, .resume e.id)) k'
  | passed {c : Cpu} {l : Step} {d : Decision} {k₁ k' : Kernel} : l.Awaits c k k₁ →
      (Kernel.schedule c k₁ : Outcome Kernel Empty Decision) = .done d k' → Moves k l (some (c, d.exit)) k'

variable {n : Nat} {c d : Cpu} {id : Id} {live : Context} {exit : Exit} {k k' k₁ : Kernel} {l : Step} {e : Env}
  {t : Env.Table} {m : Memory}

namespace Kernel

theorem startCpu_moves (c : Cpu) (live : Context) (k : Kernel) :
    (startCpu c live k : Outcome Kernel Empty (Exit × Context)).Meets
      (fun r k' => (Step.start c live).Moves k (some (c, r.1)) k') (fun _ _ => False)
      (fun p => Blameless p ∨ ∃ k₁, (Step.start c live).Awaits c k k₁ ∧ Blames c k₁ p) :=
  (startCpu_effect c live k).mono (fun _ _ ⟨hc, _, _, _, hx, hd⟩ => hx ▸ .passed (.started hc) hd) (fun _ _ h => h)
    fun _ h => h.imp_right fun ⟨hc, hb⟩ => ⟨_, .started hc, hb⟩

theorem current_of_handle {again : Bool}
    (h : (handle c { e with context := live } (k.saved e.id live) : Outcome Kernel Empty Bool) = .done again k') :
    k'.current = k.current := by
  have hcur : k'.current = (k.saved e.id live).current := steady_handle.done h
  exact hcur

theorem trap_moves (c : Cpu) (live : Context) (hp : Proper n k.envs k.memory) :
    (trap c live k : Outcome Kernel Empty (Exit × Context)).Meets
      (fun r k' => (Step.trap c live).Moves k (some (c, r.1)) k') (fun _ _ => False)
      (fun p => Blameless p ∨ ∃ k₁, (Step.trap c live).Awaits c k k₁ ∧ Blames c k₁ p) := by
  refine (trap_quits c live hp).mono (fun r k' hq => ?_) (fun _ _ h => h) fun _ h =>
    h.imp_right fun ⟨k₁, ha, hb⟩ => ⟨k₁, .trapped ha, hb⟩
  generalize r.1 = exit at hq
  cases hq with
  | stayed hr hs hd hf hrun hcpu => exact .stayed hr hs hd hf hrun hcpu
  | passed ha hd => exact .passed (.trapped ha) hd

end Kernel

/-- A step that does not panic moves a CPU, or works for the loader. -/
theorem Step.moves (hp : Proper n k.envs k.memory) (h : l.run k = .ok k') : ∃ o, l.Moves k o k' := by
  cases l with
  | start c live =>
    exact Outcome.Meets.of_after (P := fun k' => ∃ o, Moves k (.start c live) o k')
      ((Kernel.startCpu_moves c live k).mono (fun _ _ h => ⟨_, h⟩) (fun _ _ h => h.elim) fun _ h => h) h
  | trap c live =>
    exact Outcome.Meets.of_after (P := fun k' => ∃ o, Moves k (.trap c live) o k')
      ((Kernel.trap_moves c live hp).mono (fun _ _ h => ⟨_, h⟩) (fun _ _ h => h.elim) fun _ h => h) h
  | create kind =>
    exact ⟨none, .worked rfl ((Kernel.createEnv_effect kind hp).of_after h) (Kernel.steady_allocate.after h)⟩
  | load id va flags =>
    exact ⟨none, .worked rfl ((Kernel.loadPage_effect id va flags hp).of_after h) (Kernel.steady_loadPage.after h)⟩
  | entry id ip sp =>
    exact ⟨none, .worked rfl ((Kernel.setEntry_effect id ip sp k).of_after h) (Kernel.steady_setEntry.after h)⟩

theorem Kernel.upshot_of_handle {again : Bool} (hp : Proper n k.envs k.memory) (hr : k.runningOn c = some e)
    (hs : e.status = .running)
    (hd : (handle c { e with context := live } (k.saved e.id live) : Outcome Kernel Empty Bool) = .done again k') :
    Upshot k (.step (.trap c live)) k'.envs k'.memory := .trapped (.served hr hs (served_of_handle hp hr hd))

theorem Passed.proper (hp : Proper n k.envs k.memory) (h : Passed c k exit k') : Proper n k'.envs k'.memory := by
  rw [h.memory]
  exact hp.touched h.touched

theorem Passed.size (h : Passed c k exit k') : k'.current.size = k.current.size := by
  cases h with
  | dispatched _ => exact Array.size_setIfInBounds ..
  | parked monitor j => rfl

theorem Passed.currentOf_self (h : Passed c k (.resume id) k') (hc : c.index < k.current.size) :
    k'.currentOf c = some id := by
  cases h with
  | dispatched _ => exact lastOn_set_self hc

theorem Passed.currentOf_of_ne (h : Passed c k exit k') (hd : d ≠ c) : k'.currentOf d = k.currentOf d := by
  cases h with
  | dispatched _ => exact lastOn_set_of_ne hd
  | parked monitor j => rfl

section awaits

theorem Step.Awaits.upshot (hp : Proper n k.envs k.memory) (h : l.Awaits c k k₁) :
    Upshot k (.step l) k₁.envs k₁.memory := by
  cases h with
  | started _ => exact .still _ (.refl _)
  | trapped ha => exact .trapped (ha.handled hp)

/-- Until a CPU starts a pass what each one dispatched last stays noted, unless it is gone. -/
theorem Awaits.current (hp : Proper n k.envs k.memory) (h : Awaits c live k k₁) : k₁.current = k.current ∨
    ∃ e, k.runningOn c = some e ∧ k₁.envs.find? e.id = none ∧ k₁.current = k.current.setIfInBounds c.index none := by
  cases h with
  | vacant => exact .inl rfl
  | @reclaimed e _ hr _ hd =>
    obtain ⟨hf, -⟩ := Kernel.runningOn_spec hr
    obtain ⟨k₂, hd₂, he, hcur, -⟩ := Kernel.reclaim_effect (ε := Empty) (c := c) (k := k.noted live) hp.intact hf
    cases hd.symm.trans hd₂
    refine .inr ⟨e, hr, ?_, hcur⟩
    rw [he]
    exact find?_released_self hf
  | served _ _ hd _ => exact .inl (Kernel.current_of_handle hd)
  | @lost e _ k₂ hr _ hd hgone =>
    have hcur := Kernel.current_of_handle hd
    refine .inr ⟨e, hr, hgone, ?_⟩
    rw [hcur]

theorem Step.Awaits.current (hp : Proper n k.envs k.memory) (h : l.Awaits c k k₁) : k₁.current = k.current ∨
    ∃ e, k.runningOn c = some e ∧ k₁.envs.find? e.id = none ∧ k₁.current = k.current.setIfInBounds c.index none := by
  cases h with
  | started _ => exact .inl rfl
  | trapped ha => exact ha.current hp

theorem Step.Awaits.size (hp : Proper n k.envs k.memory) (h : l.Awaits c k k₁) :
    k₁.current.size = k.current.size := by
  rcases h.current hp with hcur | ⟨_, -, -, hcur⟩
  · rw [hcur]
  · rw [hcur, Array.size_setIfInBounds]

theorem Step.Awaits.currentOf (hp : Proper n k.envs k.memory) (h : l.Awaits c k k₁) :
    k₁.currentOf c = k.currentOf c ∨
      k₁.currentOf c = none ∧ ∃ e, k.runningOn c = some e ∧ k₁.envs.find? e.id = none := by
  rcases h.current hp with hcur | ⟨e, hr, hgone, hcur⟩
  · rw [Kernel.currentOf, Kernel.currentOf, hcur]
    exact .inl rfl
  · have hlast : lastOn k.current c = some e.id := (Kernel.runningOn_spec hr).2.1
    have hnone : lastOn k₁.current c = none := by rw [hcur, lastOn_set_self (lastOn_lt hlast)]
    exact .inr ⟨hnone, e, hr, hgone⟩

theorem Step.Awaits.currentOf_of_ne (hp : Proper n k.envs k.memory) (h : l.Awaits c k k₁) (hd : d ≠ c) :
    k₁.currentOf d = k.currentOf d := by
  have hlast : lastOn k₁.current d = lastOn k.current d := by
    rcases h.current hp with hcur | ⟨_, -, -, hcur⟩
    · rw [hcur]
    · rw [hcur, lastOn_set_of_ne hd]
  exact hlast

end awaits

theorem Step.Moves.cpu? {o : Option (Cpu × Exit)} (h : l.Moves k o k') : l.cpu? = o.map Prod.fst := by
  cases h with
  | worked hl _ _ => exact hl
  | stayed _ _ _ _ _ _ => rfl
  | passed ha _ =>
    cases ha with
    | started _ => rfl
    | trapped _ => rfl

theorem Step.Moves.size {o : Option (Cpu × Exit)} (hp : Proper n k.envs k.memory) (h : l.Moves k o k') :
    k'.current.size = k.current.size := by
  cases h with
  | worked _ _ hcur => rw [hcur]
  | stayed _ _ hd _ _ _ => rw [Kernel.current_of_handle hd]
  | passed ha hd => exact (Kernel.passed_of_schedule hd).size.trans (ha.size hp)

theorem Step.Moves.proper {o : Option (Cpu × Exit)} (hp : Proper n k.envs k.memory) (h : l.Moves k o k') :
    Proper n k'.envs k'.memory := by
  cases h with
  | worked _ hu _ => exact hu.proper hp
  | stayed hr hs hd _ _ _ => exact (Kernel.upshot_of_handle hp hr hs hd).proper hp
  | passed ha hd => exact (Kernel.passed_of_schedule hd).proper ((ha.upshot hp).proper hp)

theorem Upshot.startsNobody (hp : Proper n k.envs k.memory) (h : Upshot k (.step l) t m) : StartsNobody k.envs t := by
  cases h with
  | still => exact .refl _
  | armed => exact .refl _
  | trapped hd => exact hd.startsNobody hp
  | created hfree _ => exact .occupy (.inl rfl) hp.intact.table hfree
  | loaded => exact .refl _
  | entered => exact .context

end Exokernel
