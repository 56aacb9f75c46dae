import Exokernel.Proofs.Ipc.Upkeep
import Exokernel.Proofs.Kernel.Turn
import Exokernel.Trap.Route

/-!
# Serving the environment of a CPU

While the kernel works for an environment it stays on its CPU, or is taken off it: blocked, destroyed, or no longer
meant to run. What only reads the table, or edits spaces, contexts and devices, keeps the caller on its CPU.
-/

set_option autoImplicit false

namespace Exokernel

open Env (Id Kind Status)
open Env.Table

variable {n : Nat} {b : Seats} {current : Array (Option Id)} {c : Cpu} {caller target id : Id} {k : Kernel}
  {e : Env} {f : Env → Env}

structure OnCpu (n : Nat) (b : Seats) (current : Array (Option Id)) (caller : Id) (k : Kernel) : Prop where
  orderly : Orderly n k b none
  current : k.current = current
  running : ∃ e, k.envs.find? caller = some e ∧ e.status = .running ∧ e.kind ≠ .idle

structure OffCpu (n : Nat) (b : Seats) (current : Array (Option Id)) (c : Cpu) (k : Kernel) : Prop where
  orderly : Orderly n k (Function.update b c none) none
  current : k.current = current

def Ends (n : Nat) (b : Seats) (current : Array (Option Id)) (c : Cpu) (caller : Id) (again : Bool)
    (k : Kernel) : Prop :=
  OnCpu n b current caller k ∨ again = true ∧ OffCpu n b current c k

namespace OnCpu

theorem congr {k' : Kernel} (h : OnCpu n b current caller k) (hi : Intact n k'.envs k'.memory) (he : k'.envs = k.envs)
    (hc : k'.current = k.current) : OnCpu n b current caller k' := by
  refine ⟨h.orderly.congr hi he hc, hc.trans h.current, ?_⟩
  rw [he]
  exact h.running

theorem caller_spec (h : OnCpu n b current caller k) (hb : b c = some caller) (hf : k.envs.find? caller = some e) :
    e.status = .running ∧ e.kind ≠ .idle ∧ e.cpu = some c ∧ e.mailbox.receiving = false ∧ e.outbox = none := by
  obtain ⟨y, hy, hr, hk⟩ := h.running
  obtain rfl := find?_unique hf hy
  obtain ⟨z, hz, -, hc, -⟩ := h.orderly.scheduled.hosted c caller hb
  obtain rfl := find?_unique hf hz
  have hn : e.status ≠ .notRunnable := by rw [hr]; decide
  have hflags := (h.orderly.scheduled.fit caller e hf).free_of_flags (by simp) hn
  exact ⟨hr, hk, hc, hflags.1, hflags.2⟩

theorem eq_caller (h : OnCpu n b current caller k) (hb : b c = some caller) (hf : k.envs.find? id = some e)
    (hr : e.status = .running) (hc : e.cpu = some c) : id = caller := by
  obtain ⟨d, hd, hs⟩ := (h.orderly.scheduled.fit id e hf).running hr
  rw [hc] at hd
  obtain rfl := Option.some.inj hd
  rw [id_of_find? hf, hb] at hs
  exact (Option.some.inj hs).symm

theorem sameOthers (hb : b c = some caller) : SameOthers caller b (Function.update b c none) :=
  sameOthers_update (fun i hi => by rw [hb] at hi; exact (Option.some.inj hi).symm) fun i hi => by cases hi

theorem touch (h : OnCpu n b current caller k) (hc : ∀ e, (f e).core = e.core) :
    OnCpu n b current caller { k with envs := k.envs.update id f } := by
  refine ⟨h.orderly.touch hc, h.current, ?_⟩
  obtain ⟨e, hf, hr, hk⟩ := h.running
  have htitle : ∀ e, e.isFree = false → (f e).title = e.title := fun e _ => title_of_core (hc e)
  show ∃ e, (k.envs.update id f).find? caller = some e ∧ _
  rw [find?_update htitle]
  by_cases hj : caller = id
  · rw [if_pos hj, ← hj, hf]
    have hs := stance_of_core (hc e)
    exact ⟨f e, rfl, (status_of_stance hs).trans hr, fun hi => hk ((kind_of_stance hs).symm.trans hi)⟩
  · rw [if_neg hj]
    exact ⟨e, hf, hr, hk⟩

end OnCpu

theorem OffCpu.touch (h : OffCpu n b current c k) (hc : ∀ e, (f e).core = e.core) :
    OffCpu n b current c { k with envs := k.envs.update id f } := ⟨h.orderly.touch hc, h.current⟩

theorem Ends.touch {again : Bool} (h : Ends n b current c caller again k) (hc : ∀ e, (f e).core = e.core) :
    Ends n b current c caller again { k with envs := k.envs.update id f } := by
  rcases h with h | ⟨ha, h⟩
  · exact .inl (h.touch hc)
  · exact .inr ⟨ha, h.touch hc⟩

namespace Kernel

variable {ε α : Type}

abbrev Serves (n : Nat) (b : Seats) (current : Array (Option Env.Id)) (caller : Env.Id)
    (x : Action Kernel ε α) : Prop :=
  Action.Preserves (OnCpu n b current caller) x

theorem serves_record (v : Event) : Serves n b current caller (record v : Action Kernel ε Unit) :=
  fun _ h => h.congr h.orderly.intact rfl rfl

theorem serves_readEnv : Serves n b current caller (readEnv id) := fun k h => Action.preserves_ofExcept _ k h

theorem serves_updateEnv (hc : ∀ e, (f e).core = e.core) :
    Serves n b current caller (updateEnv id f : Action Kernel ε Unit) := fun _ h => h.touch hc

theorem onMemory_spec {x : Action Memory ε α} (h : OnCpu n b current caller k)
    (hx : (x k.memory).Meets (fun _ m => Memory.Settled n m ∧ Memory.Kept k.memory m)
      (fun _ m => Memory.Settled n m ∧ Memory.Kept k.memory m) (Memory.Crowded k.memory)) :
    (onMemory x k).Meets (fun _ => OnCpu n b current caller) (fun _ => OnCpu n b current caller) fun _ => False := by
  have hi := h.orderly.intact
  apply Action.meets_onPart
  refine hx.mono (fun _ m hm => ?_) (fun _ m hm => ?_) fun p hp => ?_
  · exact h.congr (hi.kept hm.1 hm.2) rfl rfl
  · exact h.congr (hi.kept hm.1 hm.2) rfl rfl
  · exact hi.not_crowded hp

theorem serves_onMemory {x : Action Memory ε α}
    (hx : ∀ m, Memory.Settled n m → (x m).Meets (fun _ m' => Memory.Settled n m' ∧ Memory.Kept m m')
      (fun _ m' => Memory.Settled n m' ∧ Memory.Kept m m') (Memory.Crowded m)) :
    Serves n b current caller (onMemory x) := fun k h => onMemory_spec h (hx k.memory h.orderly.intact.memory)

theorem serves_forM {β : Type} (l : List β) {g : β → Action Kernel ε Unit} (hg : ∀ a, Serves n b current caller (g a)) :
    Serves n b current caller (l.forM g) := by
  induction l with
  | nil => exact Action.preserves_pure ()
  | cons a l ih => exact Action.preserves_bind (hg a) fun _ => ih

end Kernel

end Exokernel
