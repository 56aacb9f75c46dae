import Exokernel.Proofs.Syscall.Bystander
import Exokernel.Proofs.System.Moves

/-!
# Whom a step spares

Whoever does not run on the CPU of a step stays as the scheduler knows it, unless it is woken in a message operation
that it is blocked in, or its parent destroys it or sets its status. A timer trap spares everybody.
-/

set_option autoImplicit false

namespace Exokernel

open Env (Id Kind Status)
open Env.Table

inductive Spared (e e' : Env) : Prop
  | kept : e'.stance = e.stance → e'.space = e.space → Spared e e'
  | woken : Blocked e → e'.status = .runnable ∨ e'.status = .running →
      e'.mailbox.receiving ≠ e.mailbox.receiving ∨ e'.outbox ≠ e.outbox → Spared e e'

def Call.Overrules (id : Id) : Call → Prop
  | .destroy j => j = id
  | .setStatus j _ => j = id
  | _ => False

def Step.Overrules (k : Kernel) (id : Id) (l : Step) : Prop :=
  ∃ e call, k.envs.find? id = some e ∧ (Demand.step l).Calls k e.parent call ∧ call.Overrules id

variable {n : Nat} {c cpu : Cpu} {caller id : Id} {call : Call} {live : Context} {exit : Exit} {k k' k₁ : Kernel}
  {l : Step} {e e' : Env} {t t' : Env.Table} {m m' : Memory} {act : Option (Id × Call)} {o : Option Env}

theorem Spared.refl (e : Env) : Spared e e := .kept rfl rfl

theorem Spared.of_idle (h : Spared e e') (hb : ¬Blocked e) : e'.stance = e.stance ∧ e'.space = e.space := by
  cases h with
  | kept hs hspace => exact ⟨hs, hspace⟩
  | woken hblocked => exact absurd hblocked hb

theorem Bystander.spared (h : Bystander act t t' e e') : Spared e e' := by
  cases h with
  | left => exact .kept rfl rfl
  | delivered perm _ _ _ hr => exact .woken (.inl hr) (.inl rfl) (.inl (by rw [hr]; exact Bool.false_ne_true))
  | woken answer ho =>
    exact .woken (.inr (by rw [ho]; rfl)) (.inl rfl) (.inr (by rw [ho]; exact Option.some_ne_none _ ∘ Eq.symm))

theorem released_spared {j : Id} {d : Env} (hd : t.find? j = some d) (he : t.find? id = some e) (hne : id ≠ j) :
    ∃ e', (t.released j d).find? id = some e' ∧ Spared e e' := by
  obtain ⟨e', he', hb⟩ : ∃ e', (t.released j d).find? id = some e' ∧ Bystander none t (t.released j d) e e' :=
    bystander_released hd he hne
  exact ⟨e', he', hb.spared⟩

theorem lookup_name (h : t.lookup id (some caller) true = .ok e) (hne : e.id ≠ caller) : id = e.id := by
  obtain ⟨hj, -⟩ := lookup_resolved h
  split at hj
  · exact absurd hj.symm hne
  · exact hj

/-- What a parent may do to a child besides deciding about it is to give it an upcall. -/
theorem Ruled.spared (h : Ruled cpu caller call t e o) (hne : e.id ≠ caller) :
    call.Overrules e.id ∨ ∃ e', o = some e' ∧ Spared e e' := by
  have hdestroys : Destroys t caller e call → call.Overrules e.id := by
    intro hd
    cases call with
    | puts va count => exact absurd (id_of_find? hd) hne
    | destroy j => exact lookup_name hd hne
    | setStatus j status => exact lookup_name hd.2 hne
    | _ => exact hd.elim
  cases h with
  | gone hd => exact .inl (hdestroys hd)
  | marked hd _ => exact .inl (hdestroys hd)
  | reset hcall hl _ _ =>
    subst hcall
    exact .inl (lookup_name hl hne)
  | entered _ _ => exact .inr ⟨_, rfl, .kept rfl rfl⟩

section handled

theorem Served.spared {y : Env} (hp : Proper n t m) (hy : t.find? y.id = some y) (h : Served c y t m t' m')
    (he : t.find? id = some e) (hne : id ≠ y.id)
    (hno : ∀ call, y.context.call? = some call → e.parent = y.id → ¬call.Overrules id) :
    ∃ e', t'.find? id = some e' ∧ Spared e e' := by
  cases h with
  | ticked => exact ⟨e, he, .refl e⟩
  | answered => exact ⟨e, (find?_update_of_ne Env.title_context hne).trans he, .refl e⟩
  | upcalled => exact ⟨e, (find?_update_of_ne Env.title_context hne).trans he, .refl e⟩
  | killed => exact released_spared hy he hne
  | called g hcall heff =>
    rw [find?_update_of_ne Env.title_context hne]
    rcases heff.bystander hp hy he hne with ⟨e', he', hb⟩ | ⟨hparent, hruled⟩
    · exact ⟨e', he', hb.spared⟩
    · have hid := id_of_find? he
      exact (hruled.spared (by rw [hid]; exact hne)).resolve_left (by rw [hid]; exact hno _ hcall hparent)

theorem Handled.spared (hp : Proper n k.envs k.memory) (h : Handled c live k t' m') (he : k.envs.find? id = some e)
    (hne : ∀ y, k.runningOn c = some y → y.id ≠ id) (hno : ¬(Step.trap c live).Overrules k id) :
    ∃ e', t'.find? id = some e' ∧ Spared e e' := by
  cases h with
  | vacant => exact ⟨e, he, .refl e⟩
  | @reclaimed y _ _ hr _ _ _ => exact released_spared (Kernel.runningOn_spec hr).1 he (hne y hr).symm
  | @served y _ _ hr hs hserved =>
    have hp' : Proper n (k.saved y.id live).envs k.memory := hp.touched touched_context
    refine hserved.spared hp' (Kernel.find?_saved (Kernel.runningOn_spec hr).1)
      ((Kernel.find?_saved_of_ne (hne y hr).symm).trans he) (hne y hr).symm fun call hcall hparent hover => ?_
    have hcalls : (Demand.step (.trap c live)).Calls k y.id call := .trapped hr hs hcall
    exact hno ⟨e, call, he, hparent ▸ hcalls, hover⟩

theorem Upshot.spared (hp : Proper n k.envs k.memory) (h : Upshot k (.step l) t' m') (he : k.envs.find? id = some e)
    (hne : ∀ c y, l.cpu? = some c → k.runningOn c = some y → y.id ≠ id) (hno : ¬l.Overrules k id) :
    ∃ e', t'.find? id = some e' ∧ Spared e e' := by
  cases h with
  | still => exact ⟨e, he, .refl e⟩
  | armed => exact ⟨e, he, .refl e⟩
  | trapped hd => exact hd.spared hp he (fun y => hne _ y rfl) hno
  | @created kind index space _ hfree _ =>
    refine ⟨e, ?_, .refl e⟩
    rw [find?_occupy hp.intact.table hfree, if_neg, he]
    rintro rfl
    rw [find?_occupy_fresh hp.intact.table hfree] at he
    cases he
  | loaded => exact ⟨e, he, .refl e⟩
  | @entered j _ _ =>
    by_cases hj : id = j
    · subst hj
      exact ⟨_, find?_update_self Env.title_context he, .kept rfl rfl⟩
    · exact ⟨e, (find?_update_of_ne Env.title_context hj).trans he, .refl e⟩

end handled

theorem Kernel.handle_ticked {again : Bool} (ht : live.number = Trap.timer)
    (hd : (handle c { e with context := live } k : Outcome Kernel Empty Bool) = .done again k') :
    again = true ∧ k' = k := by
  rw [handle_timer ht] at hd
  cases hd
  exact ⟨rfl, rfl⟩

/-- Until the pass a trap spares also whom it interrupts, if it is of the timer. -/
theorem Awaits.spared (hp : Proper n k.envs k.memory) (h : Awaits c live k k₁) (he : k.envs.find? id = some e)
    (hd : e.status ≠ .dying) (hself : ∀ y, k.runningOn c = some y → y.id = id → live.number = Trap.timer)
    (hno : ¬(Step.trap c live).Overrules k id) : ∃ e', k₁.envs.find? id = some e' ∧ Spared e e' := by
  by_cases hrun : ∃ y, k.runningOn c = some y ∧ y.id = id
  · obtain ⟨y, hy, rfl⟩ := hrun
    have ht := hself y hy rfl
    obtain rfl := find?_unique he (Kernel.runningOn_spec hy).1
    have hsaved : (k.saved e.id live).envs.find? e.id = some { e with context := live } := Kernel.find?_saved he
    cases h with
    | vacant hnone _ =>
      rw [hy] at hnone
      cases hnone
    | reclaimed hr hs _ =>
      cases hy.symm.trans hr
      exact absurd hs hd
    | served hr hs hh _ =>
      cases hy.symm.trans hr
      obtain ⟨-, rfl⟩ := Kernel.handle_ticked ht hh
      exact ⟨_, hsaved, .kept rfl rfl⟩
    | lost hr hs hh hgone =>
      cases hy.symm.trans hr
      obtain ⟨-, rfl⟩ := Kernel.handle_ticked ht hh
      rw [hsaved] at hgone
      cases hgone
  · exact (h.handled hp).spared hp he (fun y hy hid => hrun ⟨y, hy, hid⟩) hno

end Exokernel
