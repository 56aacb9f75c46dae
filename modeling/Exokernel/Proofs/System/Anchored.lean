import Exokernel.Proofs.System.Confinement
import Exokernel.Proofs.System.Sparing

/-!
# What lapses leave standing

Whatever the programs do, a CPU that went into an environment notes it as its last one until it enters the kernel
again, whoever runs does so on the CPU that went into it, and every CPU can fall back on its idle environment, which
raises no traps but those of the timer and has no parent to decide about it.
-/

set_option autoImplicit false

namespace Exokernel

open Env (Id Kind Status)
open Env.Table

structure Env.OnDuty (e : Env) : Prop where
  idle : e.kind = .idle
  orphan : e.parent = .self
  free : ¬Blocked e
  ready : e.status = .runnable ∨ e.status = .running

def Kernel.Staffed (k : Kernel) : Prop :=
  ∀ c : Cpu, c.index < k.current.size → ∃ id e, id.index = c.index ∧ k.envs.find? id = some e ∧ e.OnDuty

variable {n : Nat} {c d : Cpu} {id : Id} {live : Context} {exit : Exit} {o : Option (Cpu × Exit)} {k k' k₁ : Kernel}
  {l : Step} {e e' : Env} {t : Env.Table} {m : Memory}

namespace Env.OnDuty

theorem not_dying (h : e.OnDuty) : e.status ≠ .dying := by
  intro hd
  rcases h.ready with hs | hs
  · cases hd.symm.trans hs
  · cases hd.symm.trans hs

theorem of_stance (h : e.OnDuty) (hs : e'.stance = e.stance) : e'.OnDuty := by
  have he : e.stance.OnDuty := ⟨h.idle, h.orphan, h.free, h.ready⟩
  rw [← hs] at he
  exact ⟨he.idle, he.orphan, he.free, he.ready⟩

theorem spared (h : e.OnDuty) (hs : Spared e e') : e'.OnDuty := h.of_stance (hs.of_idle h.free).1

theorem not_overruled (h : e.OnDuty) (hp : Proper n k.envs k.memory) (he : k.envs.find? id = some e) :
    ¬l.Overrules k id := by
  rintro ⟨y, call, hy, hcalls, -⟩
  obtain rfl := find?_unique he hy
  rw [h.orphan] at hcalls
  generalize hj : Id.self = j at hcalls
  cases hcalls with
  | trapped hr _ _ =>
    have hf := (Kernel.runningOn_spec hr).1
    have hpos := (hp.intact.table.named _ _ (slot?_of_find? hf) (live_of_find? hf)).2.1
    exact Env.Id.ne_self hpos hj.symm

end Env.OnDuty

theorem Passed.find?_still (hs : k.envs.Sound) (h : Passed c k exit k') (he : k.envs.find? id = some e)
    (hr : e.status ≠ .runnable) (hrun : e.status ≠ .running) : k'.envs.find? id = some e := by
  have hid : exit ≠ .resume id := by
    rintro rfl
    obtain ⟨y, hy, hor, -⟩ := h.chosen hs
    obtain rfl := find?_unique he hy
    rcases hor with ⟨h, -⟩ | ⟨-, -, h | h⟩
    · exact hr h
    · exact hr h
    · exact hrun h
  rw [h.find?_other hs hid, he, Option.map_some, Kernel.demoted, if_neg hrun, ite_self]

theorem Passed.onDuty (hs : k.envs.Sound) (h : Passed c k exit k') (he : k.envs.find? id = some e) (hd : e.OnDuty) :
    ∃ e', k'.envs.find? id = some e' ∧ e'.OnDuty := by
  obtain ⟨status, runs, cpu, hf, hor⟩ := h.find? hs he
  refine ⟨_, hf, hd.idle, hd.orphan, hd.free, ?_⟩
  rcases hor with rfl | ⟨-, hor⟩
  · exact hd.ready
  · exact hor

def Step.Fair (k : Kernel) (l : Step) : Prop :=
  ∀ c live e, l = .trap c live → k.runningOn c = some e → e.kind = .idle → live.number = Trap.timer

theorem Step.Fair.timer (hfair : (Step.trap c live).Fair k) (he : k.envs.find? id = some e) (hk : e.kind = .idle)
    (y : Env) (hy : k.runningOn c = some y) (hid : y.id = id) : live.number = Trap.timer := by
  have hf := (Kernel.runningOn_spec hy).1
  rw [hid] at hf
  obtain rfl := find?_unique he hf
  exact hfair c live e rfl hy hk

theorem Step.Awaits.onDuty (hp : Proper n k.envs k.memory) (hfair : l.Fair k) (h : l.Awaits c k k₁)
    (he : k.envs.find? id = some e) (hd : e.OnDuty) : ∃ e', k₁.envs.find? id = some e' ∧ e'.OnDuty := by
  cases h with
  | started _ => exact ⟨e, he, hd⟩
  | trapped ha =>
    obtain ⟨e₁, he₁, hs⟩ := ha.spared hp he hd.not_dying (hfair.timer he hd.idle) (hd.not_overruled hp he)
    exact ⟨e₁, he₁, hd.spared hs⟩

/-- A fair step keeps everybody on duty who is. -/
theorem Step.Moves.onDuty (hp : Proper n k.envs k.memory) (hfair : l.Fair k) (h : l.Moves k o k')
    (he : k.envs.find? id = some e) (hd : e.OnDuty) : ∃ e', k'.envs.find? id = some e' ∧ e'.OnDuty := by
  have hno := hd.not_overruled (l := l) hp he
  cases h with
  | worked hl hu _ =>
    have hnone : ∀ c y, l.cpu? = some c → k.runningOn c = some y → y.id ≠ id := by
      intro c y hc
      rw [hl] at hc
      cases hc
    obtain ⟨e', he', hs⟩ := hu.spared hp he hnone hno
    exact ⟨e', he', hd.spared hs⟩
  | @stayed c live y _ _ hr hs hh _ _ _ =>
    have hne : ∀ y', k.runningOn c = some y' → y'.id ≠ id := by
      intro y' hy' hid
      cases hr.symm.trans hy'
      have hagain := (Kernel.handle_ticked (hfair.timer he hd.idle y hr hid) hh).1
      cases hagain
    obtain ⟨e', he', hs⟩ := (Handled.served hr hs (Kernel.served_of_handle hp hr hh)).spared hp he hne hno
    exact ⟨e', he', hd.spared hs⟩
  | @passed c _ _ k₁ _ ha hdone =>
    obtain ⟨e₁, he₁, hd₁⟩ := ha.onDuty hp hfair he hd
    exact (Kernel.passed_of_schedule hdone).onDuty ((ha.upshot hp).proper hp).intact.table he₁ hd₁

namespace System

def exitsAfter (s : System) : Option (Cpu × Exit) → Cpu → Option Exit
  | none => s.exits
  | some (c, exit) => Function.update s.exits c (some exit)

theorem exitsAfter_self (s : System) (c : Cpu) (exit : Exit) : s.exitsAfter (some (c, exit)) c = some exit :=
  Function.update_self ..

theorem exitsAfter_of_ne (s : System) (exit : Exit) (hd : d ≠ c) : s.exitsAfter (some (c, exit)) d = s.exits d :=
  Function.update_of_ne hd ..

theorem exitsAfter_of_cpu? (s : System) (hm : l.Moves k o k') (hc : l.cpu? ≠ some c) :
    s.exitsAfter o c = s.exits c := by
  obtain _ | ⟨d, exit⟩ := o
  · rfl
  · refine exitsAfter_of_ne s exit fun hcd => hc ?_
    rw [hm.cpu?, hcd]
    rfl

structure Anchored (n : Nat) (s : System) : Prop where
  proper : Proper n s.kernel.envs s.kernel.memory
  home : s.kernel.envs.AtHome
  staffed : s.kernel.Staffed
  entered : ∀ c, s.exits c ≠ none → c.index < s.kernel.current.size
  last : ∀ c id, s.exits c = some (.resume id) → s.kernel.currentOf c = some id
  owned : ∀ id e, s.kernel.envs.find? id = some e → e.status = .running →
    ∃ c, e.cpu = some c ∧ s.exits c = some (.resume id)

variable {s s' : System}

theorem step_moves (hp : Proper n s.kernel.envs s.kernel.memory) (h : s.step l = .ok s') :
    ∃ o, l.Moves s.kernel o s'.kernel ∧ s'.exits = s.exitsAfter o := by
  have hleft : ∀ {c} {x : Outcome Kernel Empty (Exit × Context)},
      x.Meets (fun r k' => l.Moves s.kernel (some (c, r.1)) k') (fun _ _ => False) (fun _ => True) →
      s.left c x = .ok s' → ∃ o, l.Moves s.kernel o s'.kernel ∧ s'.exits = s.exitsAfter o := by
    intro c x hx hl
    cases x with
    | done r k' =>
      cases hl
      exact ⟨_, hx, rfl⟩
    | refused cause _ => cases cause
    | halted p => cases hl
  have hworked : ∀ {x : Except Panic Kernel}, l.cpu? = none → x = l.run s.kernel →
      (x.map fun k => ({ s with kernel := k } : System)) = .ok s' →
      ∃ o, l.Moves s.kernel o s'.kernel ∧ s'.exits = s.exitsAfter o := by
    intro x hl hx hr
    cases hrun : l.run s.kernel with
    | error p =>
      rw [hx, hrun] at hr
      cases hr
    | ok k' =>
      rw [hx, hrun] at hr
      cases hr
      obtain ⟨o, hm⟩ := Step.moves hp hrun
      cases hm with
      | worked hl hu hcur => exact ⟨none, .worked hl hu hcur, rfl⟩
      | stayed => cases hl
      | passed ha _ =>
        cases ha with
        | started _ => cases hl
        | trapped _ => cases hl
  cases l with
  | start c live => exact hleft (Kernel.startCpu_moves c live s.kernel).halting h
  | trap c live => exact hleft (Kernel.trap_moves c live hp).halting h
  | create kind => exact hworked rfl rfl h
  | load id va flags => exact hworked rfl rfl h
  | entry id ip sp => exact hworked rfl rfl h

namespace Anchored

theorem fair (h : s.Anchored n) (hp : s.Permitted l) : l.Fair s.kernel := by
  rintro c live e rfl hr hk
  by_contra ht
  obtain ⟨id, hexit, hguest⟩ := hp.2.2 ht
  obtain ⟨hf, hl, -⟩ := Kernel.runningOn_spec hr
  rw [h.last c id hexit] at hl
  cases hl
  exact hguest e hf hk

theorem cpu_lt (h : s.Anchored n) (hp : s.Permitted l) (hc : l.cpu? = some c) : c.index < s.kernel.current.size := by
  cases l with
  | start d live =>
    cases hc
    exact hp
  | trap d live =>
    cases hc
    exact h.entered c hp.2.1
  | _ => cases hc

theorem entered_after (h : s.Anchored n) (hp : s.Permitted l) (hm : l.Moves s.kernel o k')
    (he : s.exitsAfter o c ≠ none) : c.index < s.kernel.current.size := by
  obtain _ | ⟨d, exit⟩ := o
  · exact h.entered c he
  · by_cases hc : c = d
    · exact h.cpu_lt hp (hc ▸ hm.cpu?)
    · rw [exitsAfter_of_ne s exit hc] at he
      exact h.entered c he

/-- A CPU notes where it goes, and the others forget nothing. -/
theorem last_after (h : s.Anchored n) (hp : s.Permitted l) (hm : l.Moves s.kernel o k')
    (he : s.exitsAfter o c = some (.resume id)) : k'.currentOf c = some id := by
  have hc := h.entered_after hp hm (c := c) (by rw [he]; exact Option.some_ne_none _)
  cases hm with
  | worked _ _ hcur =>
    rw [Kernel.currentOf, hcur]
    exact h.last c id he
  | @stayed d live y _ _ hr _ hh _ _ _ =>
    rw [Kernel.currentOf, Kernel.current_of_handle hh]
    by_cases hcd : c = d
    · subst hcd
      rw [exitsAfter_self] at he
      cases he
      exact (Kernel.runningOn_spec hr).2.1
    · rw [exitsAfter_of_ne s _ hcd] at he
      exact h.last c id he
  | @passed d _ dec k₁ _ ha hdone =>
    have hpass := Kernel.passed_of_schedule hdone
    by_cases hcd : c = d
    · subst hcd
      rw [exitsAfter_self, Option.some.injEq] at he
      rw [he] at hpass
      exact hpass.currentOf_self (by rw [ha.size h.proper]; exact hc)
    · rw [exitsAfter_of_ne s _ hcd] at he
      rw [hpass.currentOf_of_ne hcd, ha.currentOf_of_ne h.proper hcd]
      exact h.last c id he

/-- Whoever runs after a step runs on the CPU that went into it. -/
theorem owned_after (h : s.Anchored n) (hm : l.Moves s.kernel o k') (hf : k'.envs.find? id = some e)
    (hr : e.status = .running) : ∃ c, e.cpu = some c ∧ s.exitsAfter o c = some (.resume id) := by
  have hbefore : ∀ {t : Env.Table}, StartsNobody s.kernel.envs t → t.find? id = some e →
      ∃ c, e.cpu = some c ∧ s.exits c = some (.resume id) := by
    intro t ht hf
    obtain ⟨y, hy, hry, hcpu, -⟩ := ht id e hf hr
    obtain ⟨c, hc, hexit⟩ := h.owned id y hy hry
    exact ⟨c, hcpu.symm.trans hc, hexit⟩
  cases hm with
  | worked _ hu _ => exact hbefore (hu.startsNobody h.proper) hf
  | @stayed d live y _ _ hrun hs hh _ _ _ =>
    obtain ⟨c, hc, hexit⟩ := hbefore ((Kernel.upshot_of_handle h.proper hrun hs hh).startsNobody h.proper) hf
    refine ⟨c, hc, ?_⟩
    by_cases hcd : c = d
    · subst hcd
      have hlast := h.last c id hexit
      rw [(Kernel.runningOn_spec hrun).2.1] at hlast
      cases hlast
      exact exitsAfter_self ..
    · rw [exitsAfter_of_ne s _ hcd, hexit]
  | @passed d _ dec k₁ _ ha hdone =>
    have hpass := Kernel.passed_of_schedule hdone
    have hu := ha.upshot h.proper
    have hsound := (hu.proper h.proper).intact.table
    by_cases hid : dec.exit = .resume id
    · rw [hid] at hpass
      obtain ⟨y, -, -, -, hf'⟩ := hpass.chosen hsound
      cases hf.symm.trans hf'
      exact ⟨d, rfl, by rw [hid, exitsAfter_self]⟩
    · obtain ⟨hf₁, hlast⟩ := hpass.running_other hsound hid hf hr
      obtain ⟨c, hc, hexit⟩ := hbefore (hu.startsNobody h.proper) hf₁
      refine ⟨c, hc, ?_⟩
      rw [exitsAfter_of_ne s _, hexit]
      -- Were it the last environment of this CPU, the pass would have taken it from there.
      rintro rfl
      have hown := h.last c id hexit
      rcases ha.currentOf h.proper with hcur | ⟨-, y, hy, hgone⟩
      · exact hlast (hcur.trans hown)
      · rw [(Kernel.runningOn_spec hy).2.1] at hown
        cases hown
        rw [hf₁] at hgone
        cases hgone

theorem step (h : s.Anchored n) (hp : s.Permitted l) (hs : s.step l = .ok s') : s'.Anchored n := by
  obtain ⟨o, hm, hexits⟩ := step_moves h.proper hs
  refine ⟨hm.proper h.proper, hm.atHome h.proper h.home, fun c hc => ?_, fun c hc => ?_, fun c id he => ?_,
    fun id e hf hr => ?_⟩
  · rw [hm.size h.proper] at hc
    obtain ⟨id, e, hi, he, hd⟩ := h.staffed c hc
    obtain ⟨e', he', hd'⟩ := hm.onDuty h.proper (h.fair hp) he hd
    exact ⟨id, e', hi, he', hd'⟩
  · rw [hexits] at hc
    rw [hm.size h.proper]
    exact h.entered_after hp hm hc
  · rw [hexits] at he
    exact h.last_after hp hm he
  · rw [hexits]
    exact h.owned_after hm hf hr

end Anchored

theorem anchored_booted {config : Config} {cycles : CycleCounter} {monitor : Monitor}
    (hk : Kernel.boot config cycles monitor = .ok k) : (booted k).Anchored config.frames := by
  have ho := Kernel.boot_spec hk
  refine ⟨Kernel.boot_proper hk, Kernel.boot_atHome hk, fun c hc => ?_, fun c hc => absurd rfl hc, fun c id he => ?_,
    fun id e hf hr => ?_⟩
  · obtain ⟨id, e, hi, he, hidle⟩ := ho.scheduled.idle c hc
    have hfit := ho.scheduled.fit id e he
    obtain ⟨hparent, -, hready⟩ := hfit.idle hidle
    refine ⟨id, e, hi, he, hidle, hparent, fun hb => ?_, hready.imp (fun h => h) fun h => h.1⟩
    have hs := hfit.calm (by simp) hb
    rcases hready with h | ⟨h, -⟩
    · cases hs.symm.trans h
    · cases hs.symm.trans h
  · cases he
  · obtain ⟨c, -, hc⟩ := (ho.scheduled.fit id e hf).running hr
    cases hc

theorem Runs.anchored {s₀ : System} {trace : List (System × Step)} (h : Runs s₀ trace s) (h₀ : s₀.Anchored n) :
    s.Anchored n := by
  induction h with
  | start => exact h₀
  | step _ hp hs ih => exact ih.step hp hs

end System

end Exokernel
