import Exokernel.Proofs.Kernel.Upkeep
import Exokernel.Proofs.Memory.Effects

/-!
# What the operations of the kernel do

Environments and spaces that fit together over a clear pool stay so under every change that an operation makes to
the table and to memory. Destruction, creation and status changes are given with the exact kernel that they leave;
whatever is refused leaves no trace but failures on demand that have happened and a reading of the cycle counter.
-/

set_option autoImplicit false

namespace Exokernel

open Env Env.Table Memory

variable {n : Nat} {t t' : Table} {m m' : Memory} {id : Id} {e : Env} {h : Handle} {va : Nat} {flags : PageFlags}

structure Proper (n : Nat) (t : Table) (m : Memory) : Prop where
  intact : Intact n t m
  clear : m.frames.Clear

theorem proper_start (slots frames : Nat) : Proper frames (.ofCapacity slots) (.ofFrames frames) :=
  ⟨intact_start slots frames, FramePool.clear_ofSize frames⟩

theorem Intact.released (hi : Intact n t m) (hf : t.find? id = some e) (he : e.space = some h)
    (hd : destroy h m = .done () m') : Intact n (t.released id e) m' := by
  have ht := touched_settled t id e.outbox
  obtain ⟨e', hf', he'⟩ := ht.find? hf
  obtain ⟨hm, -, hlive, hcount⟩ := (balanced_destroy hi.memory).of_done hd
  exact (hi.touched ht).vacate hf' ((title_eq.mp he').2.1.trans he) hm hlive hcount

namespace Proper

theorem touched (hp : Proper n t m) (ht : Touched t t') : Proper n t' m := ⟨hp.intact.touched ht, hp.clear⟩

theorem spent (hp : Proper n t m) (hs : Spent m m') : Proper n t m' :=
  ⟨hp.intact.kept (hs.settled hp.intact.memory) (kept_of_spaces hs.spaces), hs.clear hp.clear⟩

theorem stored (hp : Proper n t m) (hs : Stored m m' h) : Proper n t m' :=
  ⟨hp.intact.kept (hs.settled hp.intact.memory) (kept_of_spaces hs.spaces), hs.clear⟩

theorem released (hp : Proper n t m) (hf : t.find? id = some e) (he : e.space = some h)
    (hd : destroy h m = .done () m') : Proper n (t.released id e) m' :=
  ⟨hp.intact.released hf he hd, ((destroy_effect h hp.clear).of_done hd).2.2⟩

theorem occupied {index : Nat} {parent : Id} {kind : Kind} (hp : Proper n t m)
    (hfree : t.freeHead = some index) (hd : create m = .done h m') :
    Proper n (t.occupy index parent kind h).2 m' := by
  obtain ⟨hm, hnew, hlive, hcount⟩ := (balanced_create hp.intact.memory).of_done hd
  exact ⟨hp.intact.occupy hfree hm hnew hlive hcount,
    ((create_effect hp.intact.memory.pool hp.clear).of_done hd).2.2⟩

theorem inserted {frame : FrameId} (hp : Proper n t m) (hu : m.frames.used frame = true)
    (hd : insert h frame va flags m = .done () m') : Proper n t m' := by
  obtain ⟨hm, hk, -⟩ := (balanced_insert hp.intact.memory hu).of_done hd
  exact ⟨hp.intact.kept hm hk, ((insert_effect h frame va flags hp.intact.memory.pool hp.clear).of_done hd).clear⟩

theorem allocated (hp : Proper n t m) (hd : allocPage h va flags m = .done () m') : Proper n t m' := by
  obtain ⟨hm, hk⟩ := (balanced_allocPage hp.intact.memory).of_done hd
  obtain ⟨frame, -, hr⟩ := (allocPage_effect h va flags hp.intact.memory hp.clear).of_done hd
  exact ⟨hp.intact.kept hm hk, hr.clear⟩

theorem removed {r : Option Mapping} (hp : Proper n t m) (hd : remove h va m = .done r m') : Proper n t m' := by
  obtain ⟨hm, hk⟩ := (balanced_remove hp.intact.memory).of_done hd
  exact ⟨hp.intact.kept hm hk, ((remove_effect h va hp.intact.memory hp.clear).of_done hd).clear⟩

end Proper

namespace Kernel

variable {n : Nat} {k k' : Kernel} {cpu : Cpu} {id : Env.Id} {e : Env}

/-- The kernel after a refusal: failures on demand may have happened, and the cycle counter may have been read. -/
def Untouched (k k' : Kernel) : Prop :=
  ∃ m c, k' = { k with memory := m, cycles := c } ∧ k.memory.Spent m ∧ (c = k.cycles ∨ c = k.cycles.read.2)

theorem Untouched.refl (k : Kernel) : Untouched k k := ⟨k.memory, k.cycles, rfl, .refl _, .inl rfl⟩

theorem untouched_of_spent {m : Memory} (hm : k.memory.Spent m) : Untouched k { k with memory := m } :=
  ⟨m, k.cycles, rfl, hm, .inl rfl⟩

abbrev Elsewhere (cpu : Cpu) (e : Env) : Prop := e.status = .running ∧ e.cpu.isSome ∧ e.cpu ≠ some cpu

theorem destroy_elsewhere (hf : k.envs.find? id = some e) (he : Elsewhere cpu e) :
    ∃ j, destroy id cpu k = .done .deferred
      { k with envs := k.envs.update id fun e => { e with status := .dying }, journal := j } := by
  rw [destroy, readEnv_bind hf, if_pos he]
  exact ⟨_, rfl⟩

theorem destroy_frees (hf : k.envs.find? id = some e) (he : ¬Elsewhere cpu e) (hd : free id k = .done () k') :
    destroy id cpu k = .done .freed k' := by
  rw [destroy, readEnv_bind hf, if_neg he, Action.bind_done hd]
  rfl

theorem destroy_here (hi : Intact n k.envs k.memory) (hf : k.envs.find? id = some e) (he : ¬Elsewhere cpu e) :
    ∃ m j, destroy id cpu k = .done .freed
        { k with envs := k.envs.released id e, memory := m, journal := j } ∧
      ∃ h, e.space = some h ∧ Memory.destroy h k.memory = .done () m := by
  obtain ⟨m, j, hd, -, hm⟩ := free_done hi hf
  exact ⟨m, j, destroy_frees hf he hd, hm⟩

theorem allocate_effect {parent : Env.Id} {kind : Env.Kind} (hp : Proper n k.envs k.memory) :
    (allocate parent kind k).Meets
      (fun id k' => ∃ index space m j, k.envs.freeHead = some index ∧ Memory.create k.memory = .done space m ∧
        id = (k.envs.occupy index parent kind space).1 ∧
        k' = { k with envs := (k.envs.occupy index parent kind space).2, memory := m, journal := j })
      (fun _ k' => ∃ m, k' = { k with memory := m } ∧ k.memory.Spent m) (fun _ => False) := by
  rw [allocate, Action.state_bind]
  cases hfree : k.envs.freeHead with
  | none => exact ⟨k.memory, rfl, .refl _⟩
  | some index =>
    have hc := create_effect hp.intact.memory.pool hp.clear
    have hx : ((onMemory Memory.create).mapError (fun _ => EnvError.outOfMemory) k).Meets
        (fun space k' => ∃ m, Memory.create k.memory = .done space m ∧ k' = { k with memory := m })
        (fun _ k' => ∃ m, k' = { k with memory := m } ∧ k.memory.Spent m) (fun _ => False) := by
      apply Action.meets_mapError
      apply Action.meets_onPart
      cases hm : Memory.create k.memory with
      | done space m => exact ⟨m, rfl, rfl⟩
      | refused cause m => exact ⟨m, rfl, hc.of_refused hm⟩
      | halted p => exact hp.intact.not_crowded ((balanced_create hp.intact.memory).of_halted hm)
    refine Action.meets_bind hx fun space k₁ h₁ => ?_
    obtain ⟨m, hm, rfl⟩ := h₁
    exact ⟨index, space, m, _, rfl, hm, rfl, rfl⟩

end Kernel

end Exokernel
