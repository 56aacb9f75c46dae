import Exokernel.Proofs.Trap.Effect
import Exokernel.Proofs.Trap.Meddling

/-!
# Who runs, and who dies, after a trap is served

Only the scheduler makes environments run. Whatever else happens, whoever runs afterwards ran before, on the same
CPU. Environments turn dying in one way only: a program on one CPU destroys what runs on another.
-/

set_option autoImplicit false

namespace Exokernel

open Env (Id Kind Status)
open Env.Table

def Env.Status.Engaged (s : Status) : Prop := s = .running ∨ s = .dying

def NobodyTurns (s : Status) (t t' : Env.Table) : Prop :=
  ∀ id e', t'.find? id = some e' → e'.status = s →
    ∃ e, t.find? id = some e ∧ e.status = s ∧ e.cpu = e'.cpu ∧ e.kind = e'.kind

abbrev StartsNobody : Env.Table → Env.Table → Prop := NobodyTurns .running

variable {n : Nat} {k : Kernel} {c cpu : Cpu} {caller id sender : Id} {call : Call} {live : Context} {s : Status}
  {t t' t'' : Env.Table} {m m' : Memory} {e e' : Env} {f : Env → Env}

theorem Env.Status.Engaged.ne_runnable (h : s.Engaged) : Status.runnable ≠ s := by
  rintro rfl
  exact h.elim (fun h => nomatch h) fun h => nomatch h

theorem Env.Status.Engaged.ne_notRunnable (h : s.Engaged) : Status.notRunnable ≠ s := by
  rintro rfl
  exact h.elim (fun h => nomatch h) fun h => nomatch h

namespace NobodyTurns

theorem refl (t : Env.Table) : NobodyTurns s t t := fun _ e h hr => ⟨e, h, hr, rfl, rfl⟩

theorem trans (h : NobodyTurns s t t') (h' : NobodyTurns s t' t'') : NobodyTurns s t t'' := by
  intro id e'' he'' hs''
  obtain ⟨e', he', hs', hcpu', hkind'⟩ := h' id e'' he'' hs''
  obtain ⟨e, he, hs, hcpu, hkind⟩ := h id e' he' hs'
  exact ⟨e, he, hs, hcpu.trans hcpu', hkind.trans hkind'⟩

theorem update (hf : ∀ e, e.isFree = false → (f e).title = e.title)
    (hs : ∀ e, (f e).status = s → e.status = s ∧ e.cpu = (f e).cpu ∧ e.kind = (f e).kind) :
    NobodyTurns s t (t.update id f) := by
  intro j e' hj he'
  rw [find?_update hf] at hj
  split at hj
  · next hid =>
    obtain ⟨e, he, rfl⟩ := Option.map_eq_some_iff.mp hj
    obtain ⟨hes, hcpu, hkind⟩ := hs e he'
    exact ⟨e, hid ▸ he, hes, hcpu, hkind⟩
  · exact ⟨e', hj, he', rfl, rfl⟩

theorem of_same (hf : ∀ e, e.isFree = false → (f e).title = e.title)
    (hs : ∀ e, (f e).status = e.status ∧ (f e).cpu = e.cpu ∧ (f e).kind = e.kind) :
    NobodyTurns s t (t.update id f) :=
  update hf fun e he => ⟨(hs e).1 ▸ he, (hs e).2.1.symm, (hs e).2.2.symm⟩

theorem of_other (hf : ∀ e, e.isFree = false → (f e).title = e.title) (hs : ∀ e, (f e).status ≠ s) :
    NobodyTurns s t (t.update id f) := update hf fun e he => absurd he (hs e)

theorem context {g : Env → Context} : NobodyTurns s t (t.update id fun e => { e with context := g e }) :=
  of_same Env.title_context fun _ => ⟨rfl, rfl, rfl⟩

theorem released (hs : s.Engaged) (hf : t.find? id = some e) : NobodyTurns s t (t.released id e) := by
  intro j e' he' hs'
  obtain ⟨y, hy, hj⟩ := released_inv hf he'
  obtain ⟨waiting, hleft | ⟨-, hwoken⟩⟩ := find?_released_of_ne hf hy hj
  · obtain rfl := find?_unique he' hleft
    exact ⟨y, hy, hs', rfl, rfl⟩
  · obtain rfl := find?_unique he' hwoken
    exact absurd hs' hs.ne_runnable

theorem occupy {index : Nat} {parent : Id} {kind : Kind} {space : Handle} (hs : s.Engaged)
    (ht : t.Sound) (hfree : t.freeHead = some index) : NobodyTurns s t (t.occupy index parent kind space).2 := by
  intro j e' hj he'
  rw [find?_occupy ht hfree] at hj
  split at hj
  · cases hj
    exact absurd he' hs.ne_runnable
  · exact ⟨e', hj, he', rfl, rfl⟩

theorem relieved : NobodyTurns s t (t.relieved caller sender) :=
  (of_same Env.title_cleared fun _ => ⟨rfl, rfl, rfl⟩).trans (of_same Env.title_settled fun _ => ⟨rfl, rfl, rfl⟩)

theorem woken {answer : Word} (hs : s.Engaged) : NobodyTurns s t (t.woken sender answer) :=
  of_other Env.title_woken fun _ => hs.ne_runnable

theorem delivered {value : Word} {perm : PageFlags} :
    NobodyTurns s t (t.update id (Kernel.delivered sender value perm)) :=
  of_same Kernel.title_delivered fun _ => ⟨rfl, rfl, rfl⟩

theorem scanning {dstva : Word} : NobodyTurns s t (t.update caller (Env.scanning dstva)) :=
  of_same (fun _ _ => rfl) fun _ => ⟨rfl, rfl, rfl⟩

theorem blocking {dstva : Word} (hs : s.Engaged) : NobodyTurns s t (t.update caller (Kernel.blocking dstva)) :=
  of_other Kernel.title_blocking fun _ => hs.ne_notRunnable

end NobodyTurns

theorem Kernel.Fetches.turns (h : Kernel.Fetches caller t m t' m') (hs : s.Engaged) : NobodyTurns s t t' := by
  induction h with
  | none => exact .refl t
  | failed cause _ _ _ _ _ ih => exact ih.trans (.trans .relieved (.woken hs))

theorem Kernel.Fetched.turns (h : Kernel.Fetched caller t m sender t' m') (hs : s.Engaged) : NobodyTurns s t t' := by
  cases h with
  | mk hf => exact (hf.turns hs).trans (.trans .relieved (.trans .delivered (.woken hs)))

/-- No program can ask for a running status, and a dying one marks only what runs elsewhere. -/
theorem Effect.turns (hp : Proper n t m) (h : Effect cpu caller t m call t' m') (hs : s.Engaged)
    (hr : ∀ id, call ≠ .setStatus id .running) : NobodyTurns s t t' ∨
      s = .dying ∧ ∃ e, t.find? e.id = some e ∧ Kernel.Elsewhere cpu e ∧
        t' = t.update e.id fun e => { e with status := .dying } := by
  cases h with
  | quiet => exact .inl (.refl t)
  | marked hd he =>
    rcases hs with rfl | rfl
    · exact .inl (.of_other Env.title_dying fun _ h => by cases h)
    · exact .inr ⟨rfl, _, hd.spec.1, he, rfl⟩
  | freed hd => exact .inl (.released hs hd.spec.1)
  | forked _ hfree _ =>
    exact .inl ((NobodyTurns.occupy hs hp.intact.table hfree).trans
      (.of_other Env.title_suspended fun _ => hs.ne_notRunnable))
  | reset _ hlive _ =>
    refine .inl (.of_other (fun _ hf => Env.title_of_live rfl rfl rfl (fun h => hlive (.inl h)) hf) fun _ h => ?_)
    rcases hs with rfl | rfl
    · exact hr _ (congrArg (Call.setStatus _) h)
    · exact hlive (.inr h)
  | allocated => exact .inl (.refl t)
  | mapped => exact .inl (.refl t)
  | unmapped => exact .inl (.refl t)
  | entered => exact .inl (.of_same (fun _ _ => rfl) fun _ => ⟨rfl, rfl, rfl⟩)
  | sent => exact .inl (NobodyTurns.delivered.trans (.of_other Env.title_runnable fun _ => hs.ne_runnable))
  | parked =>
    exact .inl ((NobodyTurns.of_same Env.title_owed fun _ => ⟨rfl, rfl, rfl⟩).trans
      (.of_other Env.title_parked fun _ => hs.ne_notRunnable))
  | blocked => exact .inl (.blocking hs)
  | starved hf => exact .inl (NobodyTurns.scanning.trans ((hf.turns hs).trans (.blocking hs)))
  | fetched hf => exact .inl (NobodyTurns.scanning.trans (hf.turns hs))

theorem Served.turns (hp : Proper n t m) (hf : t.find? e.id = some e) (h : Served c e t m t' m') (hs : s.Engaged) :
    NobodyTurns s t t' ∨ s = .dying ∧ ∃ (y : Env) (g : Env → Context), t.find? y.id = some y ∧ Kernel.Elsewhere c y ∧
      t' = (t.update y.id fun y => { y with status := .dying }).update e.id fun y => { y with context := g y } := by
  cases h with
  | ticked => exact .inl (.refl t)
  | answered => exact .inl .context
  | upcalled => exact .inl .context
  | killed => exact .inl (.released hs hf)
  | called g hcall he =>
    have hr := decode_ne (Kernel.handle_call (ε := Empty) (c := c) (e := e) hcall).2.1
    rcases he.turns hp hs hr with ht | ⟨hdying, y, hf, hy, rfl⟩
    · exact .inl (ht.trans .context)
    · exact .inr ⟨hdying, y, g, hf, hy, rfl⟩

theorem Handled.startsNobody (hp : Proper n k.envs k.memory) (h : Handled c live k t' m') :
    StartsNobody k.envs t' := by
  cases h with
  | vacant => exact .refl _
  | reclaimed hr => exact .released (.inl rfl) (Kernel.runningOn_spec hr).1
  | @served e _ _ hr _ hs =>
    have hsaved : StartsNobody k.envs (k.saved e.id live).envs := .context
    have hp' : Proper n (k.saved e.id live).envs k.memory := hp.touched touched_context
    rcases hs.turns hp' (Kernel.find?_saved (Kernel.runningOn_spec hr).1) (.inl rfl) with ht | ⟨hdying, -⟩
    · exact hsaved.trans ht
    · cases hdying

/-- Whoever ran and is dying after a trap ran on another CPU, and is only marked. -/
theorem Handled.marked (hp : Proper n k.envs k.memory) (h : Handled c live k t' m') (he : k.envs.find? id = some e)
    (hr : e.status = .running) (he' : t'.find? id = some e') (hd : e'.status = .dying) :
    e.cpu ≠ some c ∧ e' = { e with status := .dying } := by
  have hdying : ∀ {t}, NobodyTurns .dying k.envs t → ∀ y, t.find? id = some y → y.status ≠ .dying := by
    intro t ht y hy hyd
    obtain ⟨x, hx, hxd, -⟩ := ht id y hy hyd
    obtain rfl := find?_unique he hx
    cases hr.symm.trans hxd
  cases h with
  | vacant => exact absurd hd (hdying (.refl _) e' he')
  | reclaimed hrun => exact absurd hd (hdying (.released (.inr rfl) (Kernel.runningOn_spec hrun).1) e' he')
  | @served d _ _ hrun _ hs =>
    obtain ⟨hfd, -, -, hcpu⟩ := Kernel.runningOn_spec hrun
    have hf : (k.saved d.id live).envs.find? d.id = some { d with context := live } := Kernel.find?_saved hfd
    have hp' : Proper n (k.saved d.id live).envs k.memory := hp.touched touched_context
    have hsaved : NobodyTurns .dying k.envs (k.saved d.id live).envs := .context
    rcases hs.turns hp' hf (.inr rfl) with ht | ⟨-, y, g, hy, helse, rfl⟩
    · exact absurd hd (hdying (hsaved.trans ht) e' he')
    · by_cases hid : id = y.id
      · subst hid
        have hne : y.id ≠ d.id := by
          intro hid
          rw [hid] at hy
          obtain rfl := find?_unique hf hy
          exact helse.2.2 hcpu
        obtain rfl := find?_unique he ((Kernel.find?_saved_of_ne hne).symm.trans hy)
        rw [find?_update_of_ne Env.title_context hne, find?_update_self Env.title_dying hy] at he'
        cases he'
        exact ⟨helse.2.2, rfl⟩
      · obtain ⟨x, hx, hxd, -⟩ := NobodyTurns.context id e' he' hd
        rw [find?_update_of_ne Env.title_dying hid] at hx
        exact absurd hxd (hdying hsaved x hx)

end Exokernel
