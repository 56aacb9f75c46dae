import Exokernel.Kernel.Boot
import Exokernel.Proofs.Trap.Round

/-!
# Entry points keep a kernel in order

A booted kernel has one idle environment for each CPU and nobody in any seat. The first entry of a CPU and the
loader keep it in order.
-/

set_option autoImplicit false

namespace Exokernel

open Env (Id Kind Status)
open Env.Table

variable {ε : Type} {n : Nat} {b : Seats} {c : Cpu} {id : Id} {k k' : Kernel} {e : Env}

namespace Kernel

theorem mark_spec {m : OnlineMask} (hc : c.index < Cpu.limit) : ∃ first m', m.mark c = some (first, m') := by
  have hlt : c.index < 64 := by
    simp only [Cpu.limit] at hc
    omega
  rw [OnlineMask.mark, if_pos hlt]
  exact ⟨_, _, rfl⟩

theorem startCpu_done (live : Context) (h : Orderly n k b none) (hc : c.index < k.current.size) :
    ∃ m j, (startCpu c live : Action Kernel ε (Exit × Context)) k =
      reschedule c live { k with online := m, journal := j } := by
  have hin : ¬k.cpuCount ≤ c.index := Nat.not_le.mpr hc
  obtain ⟨first, m, hm⟩ := mark_spec (m := k.online) (Nat.lt_of_lt_of_le hc h.scheduled.cpus)
  rw [startCpu, Action.state_bind]
  simp only [if_neg hin, hm, Action.modify_bind]
  by_cases hfirst : (!first) = true
  · simp only [if_pos hfirst, record_bind]
    exact ⟨m, _, rfl⟩
  · simp only [if_neg hfirst, record_bind]
    exact ⟨m, _, rfl⟩

theorem startCpu_spec (live : Context) (h : Orderly n k b none) (hs : LastHere k b c) (hc : c.index < k.current.size) :
    ∃ exit ctx k', (startCpu c live : Action Kernel ε (Exit × Context)) k = .done (exit, ctx) k' ∧
      Orderly n k' (Function.update b c exit.seat) none ∧ k'.current.size = k.current.size := by
  obtain ⟨m, j, hd⟩ := startCpu_done (ε := ε) live h hc
  rw [hd]
  have h₁ : Orderly n { k with online := m, journal := j } b none := h.congr h.intact rfl rfl
  exact reschedule_spec live h₁ hs hc

def Unmoved (n : Nat) (b : Seats) (k k' : Kernel) : Prop := Orderly n k' b none ∧ k'.current = k.current

theorem createEnv_spec {kind : Kind} (h : Orderly n k b none) (hk : kind ≠ .idle) :
    (createEnv kind k).Meets (fun _ => Unmoved n b k) (fun _ => Unmoved n b k) fun _ => False := by
  refine (allocate_spec h.intact).mono (fun id k₁ h₁ => ?_) (fun _ k₁ h₁ => ?_) fun _ h => h
  · obtain ⟨index, space, hfree, -, he, hi, hc⟩ := h₁
    refine ⟨⟨hi, ?_, ?_⟩, hc⟩
    · rw [he, hc]
      exact h.scheduled.occupy h.intact.table hfree hk
    · rw [he]
      exact counted_occupy h.counted h.intact.table hfree
  · exact ⟨h.congr h₁.1 h₁.2.1 h₁.2.2, h₁.2.2⟩

theorem loadPage_spec {va : Nat} {flags : PageFlags} (h : Orderly n k b none) :
    (loadPage id va flags k).Meets (fun _ => Unmoved n b k) (fun _ => Unmoved n b k) fun _ => False := by
  rw [loadPage, Action.state_bind]
  cases k.spaceOf id with
  | error cause => exact ⟨h, rfl⟩
  | ok space =>
    apply Action.meets_onPart
    refine (Memory.balanced_allocPage h.intact.memory).mono (fun _ m hm => ?_) (fun _ m hm => ?_) fun p hp => ?_
    · exact ⟨h.congr (h.intact.kept hm.1 hm.2) rfl rfl, rfl⟩
    · exact ⟨h.congr (h.intact.kept hm.1 hm.2) rfl rfl, rfl⟩
    · exact h.intact.not_crowded hp

theorem setEntry_spec {ip sp : Word} (h : Orderly n k b none) :
    (setEntry id ip sp k).Meets (fun _ => Unmoved n b k) (fun _ => Unmoved n b k) fun _ => False := by
  rw [setEntry]
  cases hf : k.envs.find? id with
  | none =>
    rw [readEnv_bind_none hf]
    exact ⟨h, rfl⟩
  | some e =>
    rw [readEnv_bind hf]
    exact ⟨h.touch fun _ => rfl, rfl⟩

structure Rising (n slots i : Nat) (current : Array (Option Id)) (k : Kernel) : Prop where
  intact : Intact n k.envs k.memory
  free : k.envs.free = (List.range slots).drop i
  idles : ∀ j, j < i → ∃ e, k.envs.slot? j = some e ∧ e.isFree = false
  plain : ∀ id e, k.envs.find? id = some e → ∃ space, e = .fresh id .self .idle space
  current : k.current = current

theorem Rising.allocate {slots i : Nat} {current : Array (Option Id)} (h : Rising n slots i current k) :
    (allocate .self .idle k).Meets (fun _ => Rising n slots (i + 1) current) (fun _ _ => True) fun _ => False := by
  have hi := h.intact
  refine (allocate_spec hi).mono (fun id k₁ h₁ => ?_) (fun _ _ _ => trivial) fun _ h => h
  obtain ⟨index, space, hfree, rfl, he, hi', hc⟩ := h₁
  have hsplit : (List.range slots).drop i = index :: k₁.envs.free :=
    he ▸ h.free.symm.trans (free_occupy hi.table hfree ..)
  have hrest : k₁.envs.free = (List.range slots).drop (i + 1) := by
    have htail := congrArg List.tail hsplit
    rw [List.tail_drop] at htail
    exact htail.symm
  have hindex : index = i := by
    have hhead := congrArg List.head? hsplit
    rw [List.head?_drop] at hhead
    obtain ⟨hlt, hget⟩ := List.getElem?_eq_some_iff.mp hhead
    rw [List.getElem_range] at hget
    exact hget.symm
  subst hindex
  refine ⟨hi', hrest, fun j hj => ?_, fun id e hf => ?_, hc.trans h.current⟩
  · rw [he, slot?_occupy hi.table hfree]
    by_cases hj' : j = index
    · rw [if_pos hj']
      exact ⟨_, rfl, rfl⟩
    · rw [if_neg hj']
      exact h.idles j (by omega)
  · rw [he, find?_occupy hi.table hfree] at hf
    by_cases hid : id = (k.envs.occupy index .self .idle space).1
    · rw [if_pos hid] at hf
      exact ⟨space, by rw [← Option.some.inj hf, hid]⟩
    · rw [if_neg hid] at hf
      exact h.plain id e hf

theorem Rising.createIdle {slots i : Nat} {current : Array (Option Id)} (cpus : List Cpu)
    (h : Rising n slots i current k) :
    (createIdle cpus k).Meets (fun _ => Rising n slots (i + cpus.length) current) (fun _ _ => True) fun _ => False := by
  induction cpus generalizing i k with
  | nil => exact h
  | cons cpu cpus ih =>
    rw [Kernel.createIdle]
    refine Action.meets_bind (Action.meets_mapError h.allocate) fun id k₁ h₁ => ?_
    rw [record_bind]
    have h₂ : ∀ j, Rising n slots (i + 1) current { k₁ with journal := j } :=
      fun j => ⟨h₁.intact, h₁.free, h₁.idles, h₁.plain, h₁.current⟩
    have h₃ := ih (h₂ (k₁.journal.record (.idleCreated cpu id)))
    rw [List.length_cons, Nat.add_comm cpus.length 1, ← Nat.add_assoc]
    exact h₃

theorem fit_fresh {space : Handle} : Fit b none (.fresh id .self .idle space) := by
  refine ⟨?_, fun _ h => ?_, fun _ _ => rfl, fun _ => ⟨rfl, by simp, .inl rfl⟩⟩
  · intro h
    cases h
  · rcases h with h | h
    · cases h
    · cases h

theorem Rising.orderly {slots cpus : Nat} (h : Rising n slots cpus (Array.replicate cpus none) k)
    (hc : cpus ≤ Cpu.limit) : Orderly n k (fun _ => none) none where
  intact := h.intact
  scheduled := by
    have hnone : ∀ c, lastOn k.current c = none := by
      intro c
      rw [h.current, lastOn, Array.getElem?_replicate]
      split <;> rfl
    refine ⟨fun c id hb => (by cases hb), fun id e hf => ?_, fun c hlt => ?_, fun c id e hl => ?_, ?_⟩
    · obtain ⟨space, rfl⟩ := h.plain id e hf
      exact fit_fresh
    · rw [h.current, Array.size_replicate] at hlt
      obtain ⟨e, hs, hf⟩ := h.idles c.index hlt
      have hfind := h.intact.table.find?_of_slot? hs hf
      obtain ⟨space, he⟩ := h.plain e.id e hfind
      exact ⟨e.id, e, (h.intact.table.named _ e hs hf).1, hfind, by rw [he]; rfl⟩
    · rw [hnone] at hl
      cases hl
    · rw [h.current, Array.size_replicate]
      exact hc
  counted := by
    intro id e hf
    obtain ⟨space, rfl⟩ := h.plain id e hf
    exact Nat.zero_le _

section boot

variable {config : Config} {cycles : CycleCounter} {monitor : Monitor}

theorem of_validate (hv : config.validate = .ok ()) : config.cpus ≤ Cpu.limit ∧ config.cpus < config.capacity ∧
    config.capacity ≤ Env.slotLimit ∧ config.cpus ≤ config.frames := by
  unfold Config.validate at hv
  split at hv
  · cases hv
  · split at hv
    · cases hv
    · split at hv
      · cases hv
      · split at hv
        · cases hv
        · omega

theorem boot_eq (h : boot config cycles monitor = .ok k) : config.validate = .ok () ∧
    bringUp config (blank config cycles monitor) = .done () k := by
  unfold boot at h
  cases hv : config.validate with
  | error cause =>
    rw [hv] at h
    cases h
  | ok u =>
    rw [hv] at h
    simp only at h
    cases hb : bringUp config (blank config cycles monitor) with
    | done u k₁ =>
      rw [hb] at h
      cases h
      exact ⟨rfl, rfl⟩
    | refused cause k₁ =>
      rw [hb] at h
      cases h
    | halted p =>
      rw [hb] at h
      cases h

theorem bringUp_rising (hc : config.cpus ≤ Cpu.limit) : (bringUp config (blank config cycles monitor)).Meets
    (fun _ k => Rising config.frames (min config.capacity Env.slotLimit) config.cpus
      (Array.replicate config.cpus none) k) (fun _ _ => True) fun _ => False := by
  have hlength : (Cpu.firstOf config.cpus).length = config.cpus := by
    rw [Cpu.firstOf, List.length_map, List.length_range]
    omega
  -- Before the first idle environment nothing is live.
  have hstart : ∀ j, Rising config.frames (min config.capacity Env.slotLimit) 0 (Array.replicate config.cpus none)
      { blank config cycles monitor with journal := j } := by
    intro j
    refine ⟨intact_start _ _, free_ofCapacity _, fun i hi => absurd hi (Nat.not_lt_zero i), fun id e hf => ?_, rfl⟩
    cases (find?_ofCapacity _ id).symm.trans hf
  rw [bringUp, record_bind]
  refine Action.meets_bind ((hstart _).createIdle _) fun _ k₁ h₁ => ?_
  rw [Nat.zero_add, hlength] at h₁
  exact ⟨h₁.intact, h₁.free, h₁.idles, h₁.plain, h₁.current⟩

theorem boot_rising (h : boot config cycles monitor = .ok k) : Rising config.frames
    (min config.capacity Env.slotLimit) config.cpus (Array.replicate config.cpus none) k := by
  obtain ⟨hv, hd⟩ := boot_eq h
  exact (bringUp_rising (of_validate hv).1).of_done hd

theorem boot_spec (h : boot config cycles monitor = .ok k) : Orderly config.frames k (fun _ => none) none :=
  (boot_rising h).orderly (of_validate (boot_eq h).1).1

theorem boot_size (h : boot config cycles monitor = .ok k) : k.current.size = config.cpus := by
  rw [(boot_rising h).current, Array.size_replicate]

end boot

end Kernel

end Exokernel
