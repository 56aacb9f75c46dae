import Exokernel.Kernel.Scheduler
import Exokernel.Proofs.Env.Occupancy
import Mathlib.Logic.Function.Basic

/-!
# Who runs where

Seats say which environment each CPU executes in user mode. A scheduled table agrees with them: an environment in
a seat is marked as running there, or as dying, and nobody is marked as running outside its seat. Environments
that are blocked in a message operation are not runnable. One environment may be exempt from that last rule.

The rules look at environments one by one, through their ids, so a change of one environment is settled by what
it does to that one.
-/

set_option autoImplicit false

namespace Exokernel

open Env (Id Kind Status)
open Env.Table

abbrev Seats := Cpu → Option Id

def lastOn (current : Array (Option Id)) (c : Cpu) : Option Id := (current[c.index]?).join

def Env.stance (e : Env) : Env where
  id := e.id
  parent := e.parent
  kind := e.kind
  status := e.status
  cpu := e.cpu
  mailbox := { receiving := e.mailbox.receiving }
  outbox := e.outbox

structure Fit (b : Seats) (x : Option Id) (e : Env) : Prop where
  running : e.status = .running → ∃ c, e.cpu = some c ∧ b c = some e.id
  calm : x ≠ some e.id → e.mailbox.receiving = true ∨ e.outbox.isSome = true → e.status = .notRunnable
  single : x ≠ some e.id → e.mailbox.receiving = true → e.outbox = none
  idle : e.kind = .idle → e.parent = .self ∧ x ≠ some e.id ∧
    (e.status = .runnable ∨ e.status = .running ∧ ∃ c, e.cpu = some c ∧ c.index = e.id.index)

def Seated (current : Array (Option Id)) (c : Cpu) (id : Id) (e : Env) : Prop :=
  (e.status = .running ∨ e.status = .dying) ∧ e.cpu = some c ∧ lastOn current c = some id

structure Scheduled (t : Env.Table) (current : Array (Option Id)) (b : Seats) (x : Option Id) : Prop where
  hosted : ∀ c id, b c = some id → ∃ e, t.find? id = some e ∧ Seated current c id e
  fit : ∀ id e, t.find? id = some e → Fit b x e
  idle : ∀ c : Cpu, c.index < current.size → ∃ id e, id.index = c.index ∧ t.find? id = some e ∧ e.kind = .idle
  home : ∀ c id e, lastOn current c = some id → t.find? id = some e → e.kind = .idle → c.index = id.index
  cpus : current.size ≤ Cpu.limit

def SameOthers (id : Id) (b b' : Seats) : Prop := ∀ c j, j ≠ id → (b' c = some j ↔ b c = some j)

variable {t t' : Env.Table} {current : Array (Option Id)} {b b' : Seats} {x : Option Id} {id : Id} {e e' : Env}
  {c d : Cpu} {f g : Env → Env} {o : Option Id}

theorem Cpu.index_inj (h : c.index = d.index) : c = d := by
  cases c
  cases d
  exact congrArg Cpu.mk (UInt16.toNat_inj.mp h)

theorem lastOn_lt (h : lastOn current c = some id) : c.index < current.size := by
  by_contra hn
  rw [lastOn, Array.getElem?_eq_none (Nat.le_of_not_lt hn)] at h
  cases h

theorem lastOn_set_self (hc : c.index < current.size) : lastOn (current.setIfInBounds c.index o) c = o := by
  rw [lastOn, Array.getElem?_setIfInBounds_self_of_lt hc]
  rfl

theorem lastOn_set_of_ne (h : d ≠ c) : lastOn (current.setIfInBounds c.index o) d = lastOn current d := by
  have hi : c.index ≠ d.index := fun hi => h (Cpu.index_inj hi).symm
  rw [lastOn, Array.getElem?_setIfInBounds_ne hi, lastOn]

/-- When the seat of `c` was emptied, whoever has a seat has the one it had. -/
theorem seat_of_vacated {c d : Cpu} (h : Function.update b c none d = some id) : d ≠ c ∧ b d = some id := by
  by_cases hdc : d = c
  · rw [hdc, Function.update_self] at h
    cases h
  · rw [Function.update_of_ne hdc] at h
    exact ⟨hdc, h⟩

theorem SameOthers.refl (id : Id) (b : Seats) : SameOthers id b b := fun _ _ _ => Iff.rfl

theorem sameOthers_update (h : ∀ i, b c = some i → i = id) (ho : ∀ i, o = some i → i = id) :
    SameOthers id b (Function.update b c o) := by
  intro c' j hj
  by_cases hc : c' = c
  · subst hc
    rw [Function.update_self]
    constructor
    · intro h'
      exact absurd (ho j h') hj
    · intro h'
      exact absurd (h j h') hj
  · rw [Function.update_of_ne hc]

theorem fit_stance : Fit b x e.stance ↔ Fit b x e := by
  constructor
  · intro h
    exact ⟨h.running, h.calm, h.single, h.idle⟩
  · intro h
    exact ⟨h.running, h.calm, h.single, h.idle⟩

theorem Fit.congr (hf : Fit b x e) (h : e'.stance = e.stance) : Fit b x e' :=
  fit_stance.mp (h ▸ fit_stance.mpr hf)

theorem kind_of_stance (h : e'.stance = e.stance) : e'.kind = e.kind := by
  show e'.stance.kind = e.kind
  rw [h]
  rfl

theorem status_of_stance (h : e'.stance = e.stance) : e'.status = e.status := by
  show e'.stance.status = e.status
  rw [h]
  rfl

theorem cpu_of_stance (h : e'.stance = e.stance) : e'.cpu = e.cpu := by
  show e'.stance.cpu = e.cpu
  rw [h]
  rfl

theorem Fit.seats (h : Fit b x e) (hb : ∀ c, b c = some e.id → b' c = some e.id) : Fit b' x e := by
  refine ⟨fun hr => ?_, h.calm, h.single, h.idle⟩
  obtain ⟨c, hc, hs⟩ := h.running hr
  exact ⟨c, hc, hb c hs⟩

namespace Scheduled

theorem seat_unique (h : Scheduled t current b x) (hc : b c = some id) (hd : b d = some id) : d = c := by
  obtain ⟨e, hf, -, he, -⟩ := h.hosted c id hc
  obtain ⟨e', hf', -, he', -⟩ := h.hosted d id hd
  obtain rfl := find?_unique hf hf'
  rw [he] at he'
  exact (Option.some.inj he').symm

theorem lastOn_of_seat (h : Scheduled t current b x) (hc : b c = some id) : lastOn current c = some id := by
  obtain ⟨e, -, -, -, hl⟩ := h.hosted c id hc
  exact hl

theorem seatless (h : Scheduled t current b x) (hf : t.find? id = some e) (hr : e.status ≠ .running)
    (hd : e.status ≠ .dying) (c : Cpu) : b c ≠ some id := by
  intro hc
  obtain ⟨e', hf', hs, -⟩ := h.hosted c id hc
  obtain rfl := find?_unique hf hf'
  rcases hs with hs | hs
  · exact hr hs
  · exact hd hs

theorem unseated (h : Scheduled t current b x) (hc : b c = some id) (d : Cpu) :
    Function.update b c none d ≠ some id := fun hd => by
  obtain ⟨hdc, hb⟩ := seat_of_vacated hd
  exact hdc (h.seat_unique hc hb)

/-- A change of one environment, which may take or leave a seat. -/
theorem change (id : Id) (h : Scheduled t current b x) (hother : ∀ j, j ≠ id → t'.find? j = t.find? j)
    (hb : SameOthers id b b') (hfit : ∀ e', t'.find? id = some e' → Fit b' x e')
    (hseat : ∀ c, b' c = some id → ∃ e', t'.find? id = some e' ∧ Seated current c id e')
    (hkeep : ∀ e, t.find? id = some e → e.kind = .idle → ∃ e', t'.find? id = some e' ∧ e'.kind = .idle)
    (hnew : ∀ e', t'.find? id = some e' → e'.kind = .idle → ∃ e, t.find? id = some e ∧ e.kind = .idle) :
    Scheduled t' current b' x where
  hosted c j hc := by
    by_cases hj : j = id
    · subst hj
      exact hseat c hc
    · rw [hother j hj]
      exact h.hosted c j ((hb c j hj).mp hc)
  fit j y hy := by
    by_cases hj : j = id
    · subst hj
      exact hfit y hy
    · rw [hother j hj] at hy
      obtain rfl := id_of_find? hy
      exact (h.fit _ y hy).seats fun c hc => (hb c _ hj).mpr hc
  idle c hc := by
    obtain ⟨j, y, hi, hy, hk⟩ := h.idle c hc
    by_cases hj : j = id
    · subst hj
      obtain ⟨y', hy', hk'⟩ := hkeep y hy hk
      exact ⟨j, y', hi, hy', hk'⟩
    · exact ⟨j, y, hi, (hother j hj).trans hy, hk⟩
  home c j y hl hy hk := by
    by_cases hj : j = id
    · subst hj
      obtain ⟨y', hy', hk'⟩ := hnew y hy hk
      exact h.home c j y' hl hy' hk'
    · exact h.home c j y hl ((hother j hj).symm.trans hy) hk
  cpus := h.cpus

theorem update (h : Scheduled t current b x) (hf : t.find? id = some e)
    (htitle : ∀ e, e.isFree = false → (f e).title = e.title) (hkind : (f e).kind = e.kind)
    (hb : SameOthers id b b') (hfit : Fit b' x (f e)) (hseat : ∀ c, b' c = some id → Seated current c id (f e)) :
    Scheduled (t.update id f) current b' x := by
  have hfind : ∀ j, (t.update id f).find? j = if j = id then (t.find? id).map f else t.find? j := find?_update htitle
  have hself : (t.update id f).find? id = some (f e) := by rw [hfind, if_pos rfl, hf]; rfl
  apply h.change id
  · intro j hj
    rw [hfind, if_neg hj]
  · exact hb
  · intro e' he'
    obtain rfl := find?_unique hself he'
    exact hfit
  · intro c hc
    exact ⟨f e, hself, hseat c hc⟩
  · intro y hy hk
    obtain rfl := find?_unique hf hy
    exact ⟨f e, hself, hkind.trans hk⟩
  · intro y hy hk
    obtain rfl := find?_unique hself hy
    exact ⟨e, hf, hkind.symm.trans hk⟩

theorem map (h : Scheduled t current b x) (hmap : ∀ j, t'.find? j = (t.find? j).map g)
    (hg : ∀ e, Fit b x e → (g e).kind = e.kind ∧ Fit b x (g e))
    (hseat : ∀ c id e, Fit b x e → Seated current c id e → Seated current c id (g e)) : Scheduled t' current b x where
  hosted c j hc := by
    obtain ⟨e, hf, hs⟩ := h.hosted c j hc
    exact ⟨g e, by rw [hmap, hf]; rfl, hseat c j e (h.fit j e hf) hs⟩
  fit j y hy := by
    rw [hmap] at hy
    obtain ⟨e, hf, rfl⟩ := Option.map_eq_some_iff.mp hy
    exact (hg e (h.fit j e hf)).2
  idle c hc := by
    obtain ⟨j, y, hi, hy, hk⟩ := h.idle c hc
    exact ⟨j, g y, hi, by rw [hmap, hy]; rfl, (hg y (h.fit j y hy)).1.trans hk⟩
  home c j y hl hy hk := by
    rw [hmap] at hy
    obtain ⟨e, hf, rfl⟩ := Option.map_eq_some_iff.mp hy
    exact h.home c j e hl hf ((hg e (h.fit j e hf)).1.symm.trans hk)
  cpus := h.cpus

theorem alter (h : Scheduled t current b x) (htitle : ∀ e, e.isFree = false → (f e).title = e.title)
    (hkind : ∀ e, (f e).kind = e.kind) (hs : ∀ e, (f e).status = e.status ∧ (f e).cpu = e.cpu)
    (hfit : ∀ e, t.find? id = some e → Fit b x e → Fit b x (f e)) : Scheduled (t.update id f) current b x := by
  cases hf : t.find? id with
  | none =>
    rw [update_of_none hf]
    exact h
  | some e =>
    apply h.update hf htitle (hkind e) (.refl id b) (hfit e hf (h.fit id e hf))
    intro c hc
    obtain ⟨e', hf', hs'⟩ := h.hosted c id hc
    obtain rfl := find?_unique hf hf'
    rw [Seated, (hs e).1, (hs e).2]
    exact hs'

theorem touch (h : Scheduled t current b x) (htitle : ∀ e, e.isFree = false → (f e).title = e.title)
    (hs : ∀ e, (f e).stance = e.stance) : Scheduled (t.update id f) current b x :=
  h.alter htitle (fun e => kind_of_stance (hs e)) (fun e => ⟨status_of_stance (hs e), cpu_of_stance (hs e)⟩)
    fun e _ hfit => hfit.congr (hs e)

theorem clearOutbox (h : Scheduled t current b x) :
    Scheduled (t.update id fun e => { e with outbox := none }) current b x := by
  refine h.alter (fun _ _ => rfl) (fun _ => rfl) (fun _ => ⟨rfl, rfl⟩) ?_
  intro e _ hfit
  refine ⟨hfit.running, fun hx hr => ?_, fun _ _ => rfl, hfit.idle⟩
  rcases hr with hr | hr
  · exact hfit.calm hx (.inl hr)
  · cases hr

theorem unparkAll (h : Scheduled t current b none) : Scheduled (t.unparkAll id) current b none := by
  have hblocked : ∀ e, Fit b none e → e.isParkedOn id = true →
      e.status = .notRunnable ∧ e.mailbox.receiving = false := by
    intro e hfit hp
    have ho : e.outbox.isSome = true := by
      simp only [Env.isParkedOn, Bool.and_eq_true] at hp
      cases he : e.outbox with
      | none => simp [he] at hp
      | some p => rfl
    have hs := hfit.calm (by simp) (.inr ho)
    refine ⟨hs, ?_⟩
    cases hr : e.mailbox.receiving with
    | false => rfl
    | true =>
      rw [hfit.single (by simp) hr] at ho
      cases ho
  apply h.map find?_unparkAll
  · intro e hfit
    by_cases hp : e.isParkedOn id = true
    · obtain ⟨hs, hr⟩ := hblocked e hfit hp
      simp only [Env.unparkFrom, if_pos hp]
      refine ⟨rfl, ?_, ?_, ?_, ?_⟩
      · intro h'
        cases h'
      · intro _ h'
        simp [Env.unpark, hr] at h'
      · intro _ _
        rfl
      · intro hk
        exact ⟨(hfit.idle hk).1, by simp, .inl rfl⟩
    · simp only [Env.unparkFrom, if_neg hp]
      exact ⟨trivial, hfit⟩
  · intro c j e hfit hs
    by_cases hp : e.isParkedOn id = true
    · rcases hs.1 with h' | h'
      · rw [(hblocked e hfit hp).1] at h'
        cases h'
      · rw [(hblocked e hfit hp).1] at h'
        cases h'
    · simp only [Env.unparkFrom, if_neg hp]
      exact hs

theorem vacate (h : Scheduled t current b x) (hf : t.find? id = some e) (hk : e.kind ≠ .idle)
    (hb : SameOthers id b b') (hseat : ∀ c, b' c ≠ some id) : Scheduled (t.vacate id.index) current b' x := by
  have hgone : (t.vacate id.index).find? id = none := by rw [find?_vacate hf, if_pos rfl]
  apply h.change id
  · intro j hj
    rw [find?_vacate hf, if_neg hj]
  · exact hb
  · intro e' he'
    rw [hgone] at he'
    cases he'
  · intro c hc
    exact absurd hc (hseat c)
  · intro y hy hk'
    obtain rfl := find?_unique hf hy
    exact absurd hk' hk
  · intro y hy
    rw [hgone] at hy
    cases hy

theorem occupy {index : Nat} {parent : Id} {kind : Kind} {space : Handle}
    (h : Scheduled t current b x) (ht : t.Sound) (hfree : t.freeHead = some index) (hk : kind ≠ .idle) :
    Scheduled (t.occupy index parent kind space).2 current b x := by
  have hbefore := find?_occupy_fresh ht hfree parent kind space
  have hfind := find?_occupy ht hfree parent kind space
  apply h.change (t.occupy index parent kind space).1
  · intro j hj
    rw [hfind, if_neg hj]
  · exact .refl _ b
  · intro e' he'
    rw [hfind, if_pos rfl] at he'
    obtain rfl := Option.some.inj he'
    refine ⟨?_, ?_, ?_, ?_⟩
    · intro h'
      cases h'
    · intro _ h'
      simp [Env.fresh] at h'
    · intro _ _
      rfl
    · intro h'
      exact absurd h' hk
  · intro c hc
    obtain ⟨e, he, -⟩ := h.hosted c _ hc
    rw [hbefore] at he
    cases he
  · intro y hy
    rw [hbefore] at hy
    cases hy
  · intro y hy hk'
    rw [hfind, if_pos rfl] at hy
    obtain rfl := Option.some.inj hy
    exact absurd hk' hk

/-- A CPU whose seat is empty, or taken by `o` already, may note `o` as its last environment. -/
theorem setLast (h : Scheduled t current b x) (hc : ∀ j, b c = some j → o = some j)
    (hhome : ∀ j e, o = some j → t.find? j = some e → e.kind = .idle → c.index = j.index) :
    Scheduled t (current.setIfInBounds c.index o) b x where
  hosted d j hd := by
    obtain ⟨e, hf, hs, hcpu, hl⟩ := h.hosted d j hd
    refine ⟨e, hf, hs, hcpu, ?_⟩
    by_cases hdc : d = c
    · subst hdc
      rw [lastOn_set_self (lastOn_lt hl)]
      exact hc j hd
    · rw [lastOn_set_of_ne hdc]
      exact hl
  fit := h.fit
  idle d hd := by
    rw [Array.size_setIfInBounds] at hd
    exact h.idle d hd
  home d j e hl hf hk := by
    by_cases hdc : d = c
    · subst hdc
      have hlt := lastOn_lt hl
      rw [Array.size_setIfInBounds] at hlt
      rw [lastOn_set_self hlt] at hl
      exact hhome j e hl hf hk
    · rw [lastOn_set_of_ne hdc] at hl
      exact h.home d j e hl hf hk
  cpus := by
    rw [Array.size_setIfInBounds]
    exact h.cpus

theorem exempt (h : Scheduled t current b none) (hf : t.find? id = some e) (hk : e.kind ≠ .idle) :
    Scheduled t current b (some id) := by
  refine ⟨h.hosted, ?_, h.idle, h.home, h.cpus⟩
  intro j y hy
  have hfit := h.fit j y hy
  refine ⟨hfit.running, fun _ => hfit.calm (by simp), fun _ => hfit.single (by simp), fun hk' => ?_⟩
  refine ⟨(hfit.idle hk').1, ?_, (hfit.idle hk').2.2⟩
  intro hx
  rw [id_of_find? hy] at hx
  obtain rfl := Option.some.inj hx
  obtain rfl := find?_unique hf hy
  exact hk hk'

theorem redeem (h : Scheduled t current b (some id)) (hfit : ∀ e, t.find? id = some e → Fit b none e) :
    Scheduled t current b none := by
  refine ⟨h.hosted, ?_, h.idle, h.home, h.cpus⟩
  intro j y hy
  by_cases hj : j = id
  · subst hj
    exact hfit y hy
  · have hold := h.fit j y hy
    have hx : some id ≠ some y.id := by
      rw [id_of_find? hy]
      intro h'
      exact hj (Option.some.inj h').symm
    refine ⟨hold.running, fun _ => hold.calm hx, fun _ => hold.single hx, fun hk => ?_⟩
    exact ⟨(hold.idle hk).1, by simp, (hold.idle hk).2.2⟩

end Scheduled

end Exokernel
