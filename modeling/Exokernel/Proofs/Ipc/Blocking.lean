import Exokernel.Proofs.Kernel.Serving

/-!
# Blocking and waking

A sender that parks and a receiver that blocks leave their CPU, and whoever is woken was blocked and sits nowhere.
While a receiver scans for senders it runs and receives at once, so it is exempt until the scan ends one way or the
other.
-/

set_option autoImplicit false

namespace Exokernel

open Env (Id Kind Status Message Parcel)
open Env.Table Kernel

variable {n : Nat} {b : Seats} {current : Array (Option Id)} {c : Cpu} {caller sender target id : Id}
  {k k' : Kernel} {e : Env} {f : Env → Env} {x : Option Id} {msg : Message}

namespace Orderly

theorem delivered {value : Word} {perm : PageFlags} (h : Orderly n k b x) (hi : Intact n k'.envs k'.memory)
    (he : k'.envs = k.envs.update target (delivered sender value perm)) (hc : k'.current = k.current) :
    Orderly n k' b x := by
  refine ⟨hi, ?_, ?_⟩
  · rw [he, hc]
    refine h.scheduled.alter (fun _ _ => rfl) (fun _ => rfl) (fun _ => ⟨rfl, rfl⟩) ?_
    intro e _ hfit
    refine ⟨hfit.running, fun hx hf => ?_, fun _ hr => ?_, hfit.idle⟩
    · rcases hf with hf | hf
      · cases hf
      · exact hfit.calm hx (.inr hf)
    · cases hr
  · rw [he]
    exact h.counted.touch (fun _ _ => rfl) (fun _ => rfl) fun _ => rfl

/-- A blocked environment that no longer takes part in a message operation may run again. -/
theorem wake (g : Env → Context) (h : Orderly n k b x) (hf : k.envs.find? id = some e) (hs : e.status = .notRunnable)
    (hr : e.mailbox.receiving = false) (ho : e.outbox = none) :
    Orderly n { k with envs := k.envs.update id fun e => { e with context := g e, status := .runnable } } b x := by
  have hfit := h.scheduled.fit id e hf
  refine h.update hf Env.title_woken rfl (fun _ => rfl) (fun _ => rfl)
    (.refl id b) ?_ ?_
  · refine ⟨?_, fun _ hf => ?_, fun _ _ => ho, fun hk => ⟨(hfit.idle hk).1, (hfit.idle hk).2.1, .inl rfl⟩⟩
    · intro h'
      cases h'
    · rcases hf with hf | hf
      · rw [show e.mailbox.receiving = true from hf] at hr
        cases hr
      · rw [show ({ e with context := g e, status := .runnable } : Env).outbox = none from ho] at hf
        cases hf
  · intro d hd
    refine absurd hd (h.scheduled.seatless hf ?_ ?_ d)
    · rw [hs]; decide
    · rw [hs]; decide

end Orderly

namespace Kernel

def blocking (dstva : Word) (e : Env) : Env :=
  { e with
    mailbox := { e.mailbox with receiving := true, dstva }
    status := .notRunnable
    cpu := none
    context := e.context.setAnswer 0 }

theorem title_blocking {dstva : Word} (e : Env) (he : e.isFree = false) : (blocking dstva e).title = e.title :=
  Env.title_of_live rfl rfl rfl (by simp [blocking]) he

theorem fit_blocking {dstva : Word} (hk : e.kind ≠ .idle) (ho : x ≠ some e.id → e.outbox = none) :
    Fit b x (blocking dstva e) := by
  refine ⟨?_, fun _ _ => rfl, fun hx _ => ho hx, fun hi => absurd hi hk⟩
  intro hr
  cases hr

theorem blockInReceive_apply {dstva : Word} (hf : k.envs.find? caller = some e) :
    blockInReceive caller dstva k = .done () { k with envs := k.envs.update caller (blocking dstva) } := by
  rw [blockInReceive, readEnv_mapError_bind _ hf]
  rfl

end Kernel

theorem Orderly.blocked {dstva : Word} (h : Orderly n k b (some caller)) (hb : b c = some caller)
    (hf : k.envs.find? caller = some e) (hk : e.kind ≠ .idle) :
    Orderly n { k with envs := k.envs.update caller (blocking dstva) } (Function.update b c none) (some caller) := by
  have hid := id_of_find? hf
  refine h.update hf title_blocking rfl (fun _ => rfl) (fun _ => rfl)
    (sameOthers_update (fun i hi => by rw [hb] at hi; exact (Option.some.inj hi).symm) fun i hi => by cases hi)
    (fit_blocking hk fun hx => absurd (congrArg some hid.symm) hx) ?_
  intro d hd
  exact absurd hd (h.scheduled.unseated hb d)

namespace OnCpu

theorem leave (h : OnCpu n b current caller k) (hb : b c = some caller) (hf : k.envs.find? caller = some e)
    (htitle : ∀ e, e.isFree = false → (f e).title = e.title) (hkind : (f e).kind = e.kind)
    (hw : ∀ e, (f e).waiting = e.waiting) (ho : ∀ e, (f e).outbox = e.outbox)
    (hfit : Fit (Function.update b c none) none (f e)) :
    OffCpu n b current c { k with envs := k.envs.update caller f } :=
  ⟨h.orderly.update hf htitle hkind hw ho (OnCpu.sameOthers hb) hfit
    fun d hd => absurd hd (h.orderly.scheduled.unseated hb d), h.current⟩

/-- The caller parks with a message for `target`. -/
theorem park (msg : Message) (h : OnCpu n b current caller k) (hb : b c = some caller)
    (hf : k.envs.find? caller = some e)
    (hne : caller ≠ target) : OffCpu n b current c
      { k with
        envs := (k.envs.update target fun e => { e with waiting := e.waiting + 1 }).update caller fun e =>
          { e with outbox := some { msg with target }, status := .notRunnable, cpu := none } } := by
  obtain ⟨hrun, hk, -, hr, ho⟩ := h.caller_spec hb hf
  have htouch : Touched k.envs (k.envs.update target fun e => { e with waiting := e.waiting + 1 }) :=
    touched_update fun _ _ => rfl
  have hs₁ : Scheduled (k.envs.update target fun e => { e with waiting := e.waiting + 1 }) k.current b none :=
    h.orderly.scheduled.touch (fun _ _ => rfl) fun _ => rfl
  have hf₁ : (k.envs.update target fun e => { e with waiting := e.waiting + 1 }).find? caller = some e := by
    rw [find?_update, if_neg hne, hf]
    exact fun _ _ => rfl
  refine ⟨⟨h.orderly.intact.touched (htouch.trans (touched_update Env.title_parked)), ?_, ?_⟩, h.current⟩
  · refine hs₁.update hf₁ Env.title_parked rfl (OnCpu.sameOthers hb) ?_
      fun d hd => absurd hd (h.orderly.scheduled.unseated hb d)
    refine ⟨?_, fun _ _ => rfl, fun _ h' => ?_, fun h' => absurd h' hk⟩
    · intro h'
      cases h'
    · rw [show e.mailbox.receiving = true from h'] at hr
      cases hr
  · apply h.orderly.counted.owe hne hf ho Env.title_parked (fun _ => rfl)
    simp [Env.isParkedOn, Env.isFree]

end OnCpu

structure Scanning (n : Nat) (b : Seats) (current : Array (Option Id)) (caller : Id) (k : Kernel) : Prop where
  orderly : Orderly n k b (some caller)
  current : k.current = current
  running : ∃ e, k.envs.find? caller = some e ∧ e.status = .running ∧ e.kind ≠ .idle ∧ e.outbox = none

namespace Scanning

theorem of_onCpu (h : OnCpu n b current caller k) (hb : b c = some caller) : Scanning n b current caller k := by
  obtain ⟨e, hf, hr, hk⟩ := h.running
  obtain ⟨-, -, -, -, ho⟩ := h.caller_spec hb hf
  exact ⟨⟨h.orderly.intact, h.orderly.scheduled.exempt hf hk, h.orderly.counted⟩, h.current, e, hf, hr, hk, ho⟩

theorem redeem (h : Scanning n b current caller k)
    (hn : ∀ e, k.envs.find? caller = some e → e.mailbox.receiving = false) : OnCpu n b current caller k := by
  obtain ⟨e, hf, hr, hk, ho⟩ := h.running
  refine ⟨⟨h.orderly.intact, h.orderly.scheduled.redeem ?_, h.orderly.counted⟩, h.current, e, hf, hr, hk⟩
  intro y hy
  have hfit := h.orderly.scheduled.fit caller y hy
  have hy' := hn y hy
  obtain rfl := find?_unique hf hy
  refine ⟨hfit.running, fun _ hflag => ?_, fun _ _ => ho, fun hi => absurd hi hk⟩
  rcases hflag with hflag | hflag
  · rw [hflag] at hy'
    cases hy'
  · rw [ho] at hflag
    cases hflag

theorem edit (h : Scanning n b current caller k) (hf : ∀ e, (f e).title = e.title ∧ (f e).kind = e.kind ∧
      (f e).parent = e.parent ∧ (f e).status = e.status ∧ (f e).cpu = e.cpu ∧ (f e).waiting = e.waiting ∧
      (f e).outbox = e.outbox) : Scanning n b current caller { k with envs := k.envs.update caller f } := by
  obtain ⟨e, he, hr, hk, ho⟩ := h.running
  have htitle : ∀ e, e.isFree = false → (f e).title = e.title := fun e _ => (hf e).1
  refine ⟨⟨h.orderly.intact.touched (touched_update htitle), ?_, ?_⟩, h.current, ?_⟩
  · refine h.orderly.scheduled.alter htitle (fun e => (hf e).2.1) (fun e => ⟨(hf e).2.2.2.1, (hf e).2.2.2.2.1⟩) ?_
    intro y hy hfit
    obtain ⟨ht, hkind, -, hstatus, hcpu, -, -⟩ := hf y
    have hid : (f y).id = y.id := (Env.title_eq.mp ht).1
    have hx : some caller = some (f y).id := by rw [hid, id_of_find? hy]
    obtain rfl := find?_unique he hy
    refine ⟨?_, fun hn => absurd hx hn, fun hn => absurd hx hn, fun hi => absurd (hkind.symm.trans hi) hk⟩
    rw [hstatus, hcpu, hid]
    exact hfit.running
  · exact h.orderly.counted.touch htitle (fun e => (hf e).2.2.2.2.2.1) fun e => (hf e).2.2.2.2.2.2
  · show ∃ e, (k.envs.update caller f).find? caller = some e ∧ _
    rw [find?_update htitle, if_pos rfl, he]
    obtain ⟨-, hkind, -, hstatus, -, -, hout⟩ := hf e
    exact ⟨f e, rfl, hstatus.trans hr, fun hi => hk (hkind.symm.trans hi), hout.trans ho⟩

theorem block {dstva : Word} (h : Scanning n b current caller k) (hb : b c = some caller) :
    (blockInReceive caller dstva k).Meets (fun _ => OffCpu n b current c) (fun _ _ => False) fun _ => False := by
  obtain ⟨e, hf, hr, hk, ho⟩ := h.running
  have h₁ : Orderly n { k with envs := k.envs.update caller (blocking dstva) } (Function.update b c none)
      (some caller) :=
    h.orderly.blocked hb hf hk
  rw [blockInReceive_apply hf]
  refine ⟨⟨h₁.intact, h₁.scheduled.redeem ?_, h₁.counted⟩, h.current⟩
  intro y hy
  change (k.envs.update caller (blocking dstva)).find? caller = some y at hy
  rw [find?_update title_blocking, if_pos rfl, hf] at hy
  obtain rfl := Option.some.inj hy
  exact fit_blocking hk fun _ => ho

end Scanning

end Exokernel
