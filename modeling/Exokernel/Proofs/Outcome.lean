import Exokernel.Action

/-!
# How actions end

`o.Meets Q R H` bounds an outcome from above: done with a value and a state in `Q`, refused with a cause and
a state in `R`, or halted for a cause in `H`. With an empty `H` it says that the machine does not halt. The
rules below take an action apart along the way it was put together.
-/

set_option autoImplicit false

namespace Exokernel

variable {σ τ ε ε' α β : Type}

namespace Outcome

def Meets (o : Outcome σ ε α) (Q : α → σ → Prop) (R : ε → σ → Prop) (H : Panic → Prop) : Prop :=
  match o with
  | .done a s => Q a s
  | .refused e s => R e s
  | .halted p => H p

variable {o : Outcome σ ε α} {Q Q' : α → σ → Prop} {R R' : ε → σ → Prop} {H H' : Panic → Prop}

@[simp] theorem meets_done (a : α) (s : σ) : (done a s : Outcome σ ε α).Meets Q R H ↔ Q a s := Iff.rfl

@[simp] theorem meets_refused (e : ε) (s : σ) : (refused e s : Outcome σ ε α).Meets Q R H ↔ R e s := Iff.rfl

@[simp] theorem meets_halted (p : Panic) : (halted p : Outcome σ ε α).Meets Q R H ↔ H p := Iff.rfl

theorem Meets.mono (h : o.Meets Q R H) (hQ : ∀ a s, Q a s → Q' a s) (hR : ∀ e s, R e s → R' e s)
    (hH : ∀ p, H p → H' p) : o.Meets Q' R' H' := by
  cases o with
  | done a s => exact hQ a s h
  | refused e s => exact hR e s h
  | halted p => exact hH p h

theorem Meets.unrefused (h : o.Meets Q (fun _ _ => False) H) : o.Meets Q R H :=
  h.mono (fun _ _ h => h) (fun _ _ h => h.elim) fun _ h => h

theorem Meets.halting (h : o.Meets Q R H) : o.Meets Q R fun _ => True :=
  h.mono (fun _ _ h => h) (fun _ _ h => h) fun _ _ => trivial

theorem Meets.of_done {a : α} {s : σ} (h : o.Meets Q R H) (ho : o = .done a s) : Q a s := by
  rw [ho] at h
  exact h

theorem Meets.of_refused {e : ε} {s : σ} (h : o.Meets Q R H) (ho : o = .refused e s) : R e s := by
  rw [ho] at h
  exact h

theorem Meets.of_halted {p : Panic} (h : o.Meets Q R H) (ho : o = .halted p) : H p := by
  rw [ho] at h
  exact h

theorem Meets.and (h : o.Meets Q R H) (h' : o.Meets Q' R' H') :
    o.Meets (fun a s => Q a s ∧ Q' a s) (fun e s => R e s ∧ R' e s) fun p => H p ∧ H' p := by
  cases o with
  | done a s => exact ⟨h, h'⟩
  | refused e s => exact ⟨h, h'⟩
  | halted p => exact ⟨h, h'⟩

theorem Meets.done (h : o.Meets Q (fun _ _ => False) fun _ => False) : ∃ a s, o = .done a s ∧ Q a s := by
  cases o with
  | done a s => exact ⟨a, s, rfl, h⟩
  | refused e s => exact h.elim
  | halted p => exact h.elim

theorem Meets.refused (h : o.Meets (fun _ _ => False) R fun _ => False) : ∃ e s, o = .refused e s ∧ R e s := by
  cases o with
  | done a s => exact h.elim
  | refused e s => exact ⟨e, s, rfl, h⟩
  | halted p => exact h.elim

def after : Outcome σ ε α → Except Panic σ
  | done _ s => .ok s
  | refused _ s => .ok s
  | halted p => .error p

def refusal? : Outcome σ ε α → Option (ε × σ)
  | .refused e s => some (e, s)
  | _ => none

def result? : Outcome σ ε α → Option (α × σ)
  | .done a s => some (a, s)
  | _ => none

theorem result?_eq_some {a : α} {s : σ} (h : o.result? = some (a, s)) : o = .done a s := by
  cases o with
  | done a s =>
    cases h
    rfl
  | refused e s => cases h
  | halted p => cases h

theorem refusal?_eq_some {e : ε} {s : σ} (h : o.refusal? = some (e, s)) : o = .refused e s := by
  cases o with
  | done a s => cases h
  | refused e s =>
    cases h
    rfl
  | halted p => cases h

theorem meets_self (o : Outcome σ ε α) :
    o.Meets (fun a s => o = .done a s) (fun e s => o = .refused e s) fun p => o = .halted p := by
  cases o with
  | done a s => exact rfl
  | refused e s => exact rfl
  | halted p => exact rfl

theorem Meets.after {P : σ → Prop} (h : o.Meets (fun _ => P) (fun _ => P) H) :
    (∃ s, o.after = .ok s ∧ P s) ∨ ∃ p, o.after = .error p ∧ H p := by
  cases o with
  | done a s => exact .inl ⟨s, rfl, h⟩
  | refused e s => exact .inl ⟨s, rfl, h⟩
  | halted p => exact .inr ⟨p, rfl, h⟩

theorem Meets.of_error {p : Panic} (h : o.Meets Q R H) (ho : o.after = .error p) : H p := by
  cases o with
  | done a s => cases ho
  | refused e s => cases ho
  | halted q =>
    cases ho
    exact h

end Outcome

namespace Action

variable {x : Action σ ε α} {s : σ} {H : Panic → Prop}

section steps

variable {f : α → Action σ ε β} {a : α} {e : ε} {s' : σ} {p : Panic}

theorem bind_done (h : x s = .done a s') : (x >>= f) s = f a s' := by rw [bind_apply, h]

theorem bind_refused (h : x s = .refused e s') : (x >>= f) s = .refused e s' := by rw [bind_apply, h]

theorem mapError_bind_done {y : Action σ ε' α} {g : ε' → ε} (h : y s = .done a s') :
    (y.mapError g >>= f) s = f a s' := bind_done (by rw [mapError, h])

@[simp] theorem state_bind (f : σ → Action σ ε β) : (state >>= f) s = f s s := rfl

@[simp] theorem modify_bind (g : σ → σ) (f : Unit → Action σ ε β) : (modify g >>= f) s = f () (g s) := rfl

@[simp] theorem advance_bind (g : σ → α × σ) : (advance g >>= f) s = f (g s).1 (g s).2 := rfl

@[simp] theorem refuse_bind : ((refuse e : Action σ ε α) >>= f) s = .refused e s := rfl

@[simp] theorem halt_bind : ((halt p : Action σ ε α) >>= f) s = .halted p := rfl

@[simp] theorem ofExcept_ok_bind : (ofExcept (.ok a) >>= f) s = f a s := rfl

@[simp] theorem ofExcept_error_bind : ((ofExcept (.error e) : Action σ ε α) >>= f) s = .refused e s := rfl

@[simp] theorem lift_ok_bind : ((liftM (Except.ok a : Except ε α) : Action σ ε α) >>= f) s = f a s := rfl

@[simp] theorem lift_error_bind :
    ((liftM (Except.error e : Except ε α) : Action σ ε α) >>= f) s = .refused e s := rfl

theorem bind_inv {b : β} {t : σ} (h : (x >>= f) s = .done b t) : ∃ a s', x s = .done a s' ∧ f a s' = .done b t := by
  cases hx : x s with
  | done a s' => exact ⟨a, s', rfl, (bind_done hx).symm.trans h⟩
  | refused e s' =>
    rw [bind_refused hx] at h
    cases h
  | halted p =>
    rw [bind_apply, hx] at h
    cases h

theorem lift_bind_inv {r : Except ε α} {b : β} {t : σ} (h : ((liftM r : Action σ ε α) >>= f) s = .done b t) :
    ∃ a, r = .ok a ∧ f a s = .done b t := by
  cases r with
  | ok a => exact ⟨a, rfl, h⟩
  | error e => cases h

@[simp] theorem mapError_ofExcept_ok {g : ε → ε'} :
    (ofExcept (.ok a) : Action σ ε α).mapError g = ofExcept (.ok a) := rfl

@[simp] theorem mapError_ofExcept_error {g : ε → ε'} : (ofExcept (.error e) : Action σ ε α).mapError g =
    ofExcept (.error (g e)) := by
  funext s
  rfl

end steps

theorem meets_bind {f : α → Action σ ε β} {P : α → σ → Prop} {Q : β → σ → Prop} {R : ε → σ → Prop}
    (hx : (x s).Meets P R H) (hf : ∀ a s', P a s' → (f a s').Meets Q R H) :
    ((x >>= f) s).Meets Q R H := by
  rw [bind_apply]
  cases h : x s with
  | done a s' => rw [h] at hx; exact hf a s' hx
  | refused e s' => rw [h] at hx; exact hx
  | halted p => rw [h] at hx; exact hx

theorem meets_attempt {Q : Except ε α → σ → Prop} {R : ε' → σ → Prop}
    (hx : (x s).Meets (fun a => Q (.ok a)) (fun e => Q (.error e)) H) :
    ((x.attempt : Action σ ε' (Except ε α)) s).Meets Q R H := by
  unfold attempt
  cases h : x s with
  | done a s' => rw [h] at hx; exact hx
  | refused e s' => rw [h] at hx; exact hx
  | halted p => rw [h] at hx; exact hx

theorem meets_attempt_bind {f : Except ε α → Action σ ε' β} {P : α → σ → Prop} {E : ε → σ → Prop} {Q : β → σ → Prop}
    {R : ε' → σ → Prop} (hx : (x s).Meets P E H) (hok : ∀ a s', P a s' → (f (.ok a) s').Meets Q R H)
    (herr : ∀ e s', E e s' → (f (.error e) s').Meets Q R H) : ((x.attempt >>= f) s).Meets Q R H := by
  rw [bind_apply, attempt]
  cases h : x s with
  | done a s' => rw [h] at hx; exact hok a s' hx
  | refused e s' => rw [h] at hx; exact herr e s' hx
  | halted p => rw [h] at hx; exact hx

theorem meets_mapError {f : ε → ε'} {Q : α → σ → Prop} {R : ε' → σ → Prop}
    (hx : (x s).Meets Q (fun e => R (f e)) H) : ((x.mapError f) s).Meets Q R H := by
  unfold mapError
  cases h : x s with
  | done a s' => rw [h] at hx; exact hx
  | refused e s' => rw [h] at hx; exact hx
  | halted p => rw [h] at hx; exact hx

theorem meets_onPart {get : σ → τ} {set : σ → τ → σ} {y : Action τ ε α} {Q : α → σ → Prop}
    {R : ε → σ → Prop} (hy : (y (get s)).Meets (fun a t => Q a (set s t)) (fun e t => R e (set s t)) H) :
    ((onPart get set y) s).Meets Q R H := by
  unfold onPart
  cases h : y (get s) with
  | done a t => rw [h] at hy; exact hy
  | refused e t => rw [h] at hy; exact hy
  | halted p => rw [h] at hy; exact hy

def Preserves (P : σ → Prop) (x : Action σ ε α) : Prop :=
  ∀ s, P s → (x s).Meets (fun _ => P) (fun _ => P) fun _ => False

section preserves

variable {P : σ → Prop}

theorem preserves_pure (a : α) : Preserves P (pure a : Action σ ε α) := fun _ h => h

theorem preserves_refuse (e : ε) : Preserves P (refuse e : Action σ ε α) := fun _ h => h

theorem preserves_ofExcept (r : Except ε α) : Preserves P (ofExcept r : Action σ ε α) := by
  intro s h
  cases r with
  | ok a => exact h
  | error e => exact h

theorem preserves_bind {f : α → Action σ ε β} (hx : Preserves P x) (hf : ∀ a, Preserves P (f a)) :
    Preserves P (x >>= f) := fun s h => meets_bind (hx s h) fun a s' h' => hf a s' h'

theorem preserves_state_bind {f : σ → Action σ ε β} (hf : ∀ s, P s → Preserves P (f s)) :
    Preserves P (state >>= f) := fun s h => hf s h s h

theorem preserves_mapError {f : ε → ε'} (hx : Preserves P x) : Preserves P (x.mapError f) :=
  fun s h => meets_mapError (hx s h)

theorem preserves_ite {c : Prop} [Decidable c] {y : Action σ ε α} (hx : c → Preserves P x) (hy : ¬c → Preserves P y) :
    Preserves P (if c then x else y) := by
  split
  · next h => exact hx h
  · next h => exact hy h

end preserves

def Keeps (f : σ → τ) (x : Action σ ε α) : Prop :=
  ∀ s, (x s).Meets (fun _ s' => f s' = f s) (fun _ s' => f s' = f s) fun _ => True

section keeps

variable {f : σ → τ} {y : Action σ ε α} {a : α} {s' : σ}

theorem Keeps.done (hx : Keeps f x) (h : x s = .done a s') : f s' = f s := (hx s).of_done h

theorem Keeps.after (hx : Keeps f x) (h : (x s).after = .ok s') : f s' = f s := by
  rcases (hx s).after with ⟨s₁, h₁, hk⟩ | ⟨p, h₁, -⟩
  · rw [h] at h₁
    exact Except.ok.inj h₁ ▸ hk
  · rw [h] at h₁
    cases h₁

theorem keeps_pure (a : α) : Keeps f (pure a : Action σ ε α) := fun _ => rfl

theorem keeps_refuse (e : ε) : Keeps f (refuse e : Action σ ε α) := fun _ => rfl

theorem keeps_halt (p : Panic) : Keeps f (halt p : Action σ ε α) := fun _ => trivial

theorem keeps_modify {g : σ → σ} (hg : ∀ s, f (g s) = f s) : Keeps f (modify g : Action σ ε Unit) := fun s => hg s

theorem keeps_advance {g : σ → α × σ} (hg : ∀ s, f (g s).2 = f s) : Keeps f (advance g : Action σ ε α) :=
  fun s => hg s

theorem keeps_ofExcept (r : Except ε α) : Keeps f (ofExcept r : Action σ ε α) := by
  intro s
  cases r with
  | ok a => exact rfl
  | error e => exact rfl

theorem keeps_bind {g : α → Action σ ε β} (hx : Keeps f x) (hg : ∀ a, Keeps f (g a)) : Keeps f (x >>= g) := by
  refine fun s => meets_bind (hx s) fun a s₁ h₁ => ?_
  exact (hg a s₁).mono (fun _ _ h => h.trans h₁) (fun _ _ h => h.trans h₁) fun _ h => h

theorem keeps_state_bind {g : σ → Action σ ε β} (hg : ∀ s, Keeps f (g s)) : Keeps f (state >>= g) :=
  fun s => hg s s

theorem keeps_attempt (hx : Keeps f x) : Keeps f (x.attempt : Action σ ε' (Except ε α)) :=
  fun s => meets_attempt (hx s)

theorem keeps_mapError {g : ε → ε'} (hx : Keeps f x) : Keeps f (x.mapError g) := fun s => meets_mapError (hx s)

theorem keeps_ite {c : Prop} [Decidable c] (hx : Keeps f x) (hy : Keeps f y) : Keeps f (if c then x else y) := by
  split
  · exact hx
  · exact hy

theorem keeps_guard {c : Prop} [Decidable c] {e : ε} {g : Unit → Action σ ε β} (hg : Keeps f (g ())) :
    Keeps f (if c then (refuse e : Action σ ε Unit) >>= g else g ()) :=
  keeps_ite (keeps_refuse e) hg

theorem keeps_forM {l : List α} {g : α → Action σ ε Unit} (hg : ∀ a, Keeps f (g a)) : Keeps f (l.forM g) := by
  induction l with
  | nil => exact keeps_pure ()
  | cons a l ih => exact keeps_bind (hg a) fun _ => ih

end keeps

end Action

end Exokernel
