import Exokernel.Proofs.Kernel.Serving

/-!
# Destruction on behalf of a CPU

An environment that runs elsewhere is only marked. Anybody else can be freed at once, with one exception: who was
marked already and still sits at its CPU has to be left to that CPU.
-/

set_option autoImplicit false

namespace Exokernel

open Env (Id Kind Status)
open Env.Table

variable {n : Nat} {b : Seats} {current : Array (Option Id)} {c : Cpu} {caller target id : Id} {k : Kernel}
  {e : Env} {t : Env.Table}

def Doomed (b : Seats) (e : Env) : Prop := e.status = .dying ∧ ∃ c, b c = some e.id

theorem find?_released_other {j : Id} {y : Env} (hf : t.find? id = some e) (hj : j ≠ id) (hy : t.find? j = some y)
    (ho : y.outbox = none) :
    ∃ y', (t.released id e).find? j = some y' ∧ y'.status = y.status ∧ y'.kind = y.kind ∧ y'.cpu = y.cpu := by
  obtain ⟨waiting, hleft | ⟨hp, -⟩⟩ := find?_released_of_ne hf hy hj
  · exact ⟨_, hleft, rfl, rfl, rfl⟩
  · simp [Env.isParkedOn, ho] at hp

namespace OnCpu

theorem freeSelf (h : OnCpu n b current caller k) (hb : b c = some caller) :
    ∃ k', Kernel.free caller k = .done () k' ∧ OffCpu n b current c k' ∧ k'.envs.find? caller = none := by
  obtain ⟨e, hf, -, hk⟩ := h.running
  obtain ⟨m, j, hd, ho⟩ := h.orderly.freed hf hk (OnCpu.sameOthers hb) (h.orderly.scheduled.unseated hb)
  exact ⟨_, hd, ⟨ho, h.current⟩, find?_released_self hf⟩

theorem freeOther (h : OnCpu n b current caller k) (hb : b c = some caller) (hf : k.envs.find? target = some e)
    (hk : e.kind ≠ .idle) (hne : caller ≠ target) (hseat : ∀ d, b d ≠ some target) :
    ∃ k', Kernel.free target k = .done () k' ∧ OnCpu n b current caller k' := by
  obtain ⟨y, hy, hr, hk'⟩ := h.running
  obtain ⟨-, -, -, -, hout⟩ := h.caller_spec hb hy
  obtain ⟨m, j, hd, ho⟩ := h.orderly.freed hf hk (.refl target b) hseat
  obtain ⟨y', hy', hs, hkind, -⟩ := find?_released_other hf hne hy hout
  exact ⟨_, hd, ho, h.current, y', hy', hs.trans hr, fun hi => hk' (hkind.symm.trans hi)⟩

theorem unseated_of_idle (h : OnCpu n b current caller k) (hf : k.envs.find? target = some e)
    (hr : e.status ≠ .running) (hz : ¬Doomed b e) (d : Cpu) : b d ≠ some target := by
  by_cases hd : e.status = .dying
  · intro hs
    exact hz ⟨hd, d, by rw [id_of_find? hf]; exact hs⟩
  · exact h.orderly.scheduled.seatless hf hr hd d

theorem mark (h : OnCpu n b current caller k) (hf : k.envs.find? target = some e) (hk : e.kind ≠ .idle)
    (hr : e.status = .running) (hne : caller ≠ target) :
    OnCpu n b current caller { k with envs := k.envs.update target fun e => { e with status := .dying } } := by
  have hn : e.status ≠ .notRunnable := by rw [hr]; decide
  have hflags := (h.orderly.scheduled.fit target e hf).free_of_flags (by simp) hn
  refine ⟨h.orderly.update hf Env.title_dying rfl (fun _ => rfl) (fun _ => rfl) (.refl target b) ?_ ?_, h.current, ?_⟩
  · refine ⟨?_, fun _ hflag => ?_, fun _ _ => hflags.2, fun hi => absurd hi hk⟩
    · intro h'
      cases h'
    · rcases hflag with hflag | hflag
      · rw [show e.mailbox.receiving = true from hflag] at hflags
        cases hflags.1
      · rw [show ({ e with status := .dying } : Env).outbox = none from hflags.2] at hflag
        cases hflag
  · intro d hd
    obtain ⟨y, hy, -, hc, hl⟩ := h.orderly.scheduled.hosted d target hd
    obtain rfl := find?_unique hf hy
    exact ⟨.inr rfl, hc, hl⟩
  · show ∃ e, (k.envs.update target _).find? caller = some e ∧ _
    rw [find?_update Env.title_dying, if_neg hne]
    exact h.running

end OnCpu

namespace Kernel

/-- Destroying an environment that is not doomed, nor idle. -/
theorem destroy_spec (h : OnCpu n b current caller k) (hb : b c = some caller) (hf : k.envs.find? target = some e)
    (hk : e.kind ≠ .idle) (hz : ¬Doomed b e) :
    (destroy target c k).Meets (fun r => Ends n b current c caller (r = .freed ∧ target = caller))
      (fun _ _ => False) fun _ => False := by
  rw [destroy, readEnv_bind hf]
  by_cases hr : e.status = .running ∧ e.cpu.isSome = true ∧ e.cpu ≠ some c
  · have hne : caller ≠ target := by
      rintro rfl
      exact hr.2.2 (h.caller_spec hb hf).2.2.1
    rw [if_pos hr, updateEnv_bind]
    have h₁ := h.mark hf hk hr.1 hne
    exact .inl (h₁.congr h₁.orderly.intact rfl rfl)
  · rw [if_neg hr]
    by_cases hne : caller = target
    · subst hne
      obtain ⟨k', hd, ho, -⟩ := h.freeSelf hb
      rw [Action.bind_done hd]
      exact .inr ⟨by simp, ho⟩
    · have hnot : e.status ≠ .running := by
        intro hrun
        obtain ⟨d, hd, -⟩ := (h.orderly.scheduled.fit target e hf).running hrun
        refine hr ⟨hrun, by rw [hd]; rfl, fun hc => ?_⟩
        exact hne (h.eq_caller hb hf hrun hc).symm
      obtain ⟨k', hd, ho⟩ := h.freeOther hb hf hk hne (h.unseated_of_idle hf hnot hz)
      rw [Action.bind_done hd]
      exact .inl ho

theorem destroy_dying (hi : Intact n k.envs k.memory) (hf : k.envs.find? target = some e) (hd : e.status = .dying) :
    ∃ m j, destroy target c k = .done .freed
      { k with envs := k.envs.released target e, memory := m, journal := j } := by
  have hr : ¬(e.status = .running ∧ e.cpu.isSome = true ∧ e.cpu ≠ some c) := by
    intro hr
    rw [hd] at hr
    cases hr.1
  obtain ⟨m, j, hd, -⟩ := free_done hi hf
  refine ⟨m, j, ?_⟩
  rw [destroy, readEnv_bind hf, if_neg hr, Action.bind_done hd]
  rfl

theorem allocate_serves {parent : Env.Id} {kind : Kind} (h : OnCpu n b current caller k) (hk : kind ≠ .idle) :
    (allocate parent kind k).Meets (fun id k' => OnCpu n b current caller k' ∧ id ≠ caller ∧
        ∃ space, k'.envs.find? id = some (.fresh id parent kind space))
      (fun _ => OnCpu n b current caller) fun _ => False := by
  have hi := h.orderly.intact
  refine (allocate_spec hi).mono ?_ ?_ fun _ h => h
  · intro id k' hk'
    obtain ⟨index, space, hfree, rfl, he, hi', hc⟩ := hk'
    have hfresh := find?_occupy_fresh hi.table hfree parent kind space
    have hne : (k.envs.occupy index parent kind space).1 ≠ caller := by
      intro heq
      obtain ⟨y, hy, -⟩ := h.running
      rw [heq, hy] at hfresh
      cases hfresh
    have hfind := find?_occupy hi.table hfree parent kind space
    refine ⟨⟨⟨hi', ?_, ?_⟩, hc.trans h.current, ?_⟩, hne, space, ?_⟩
    · rw [he, hc]
      exact h.orderly.scheduled.occupy hi.table hfree hk
    · rw [he]
      exact counted_occupy h.orderly.counted hi.table hfree
    · rw [he, hfind, if_neg (Ne.symm hne)]
      exact h.running
    · rw [he, hfind, if_pos rfl]
  · intro _ k' hk'
    exact h.congr hk'.1 hk'.2.1 hk'.2.2

end Kernel

end Exokernel
