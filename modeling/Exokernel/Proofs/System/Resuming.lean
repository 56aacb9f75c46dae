import Exokernel.Proofs.System.Preemption

/-!
# What a CPU resumes

A CPU leaves the kernel into an environment that runs there and whose saved registers it takes over, or into the
monitor when nobody is left to run. Whom it leaves for is settled by the pass or, without one, by whom it served; an
environment that was destroyed or suspended while it was served is never the one.
-/

set_option autoImplicit false

namespace Exokernel

open Env (Id Kind Status Parcel)
open Env.Table

variable {n : Nat} {act : Option (Id × Call)} {c cpu : Cpu} {caller id j : Id} {call : Call} {live loaded : Context}
  {exit : Exit} {k k' k₁ : Kernel} {l : Step} {c₁ d e e' y : Env} {t t' : Env.Table} {m m' : Memory} {f : Env → Env}

section monitor

/-- A CPU is parked only when nobody but idle environments could use it. -/
theorem Kernel.unused_of_monitor (h : (schedule c k : Outcome Kernel Empty Decision) = .done .monitor k') :
    k.envs.toList.any Env.isUseful = false := by
  cases hp : k.pick c with
  | some id =>
    rw [schedule_of_pick hp] at h
    cases h
  | none =>
    rw [schedule, Action.state_bind] at h
    simp only [hp] at h
    cases hu : k.envs.toList.any Env.isUseful with
    | false => rfl
    | true =>
      simp only [hu, if_true] at h
      cases hi : k.idleOf c with
      | none =>
        simp only [hi] at h
        cases h
      | some id =>
        simp only [hi] at h
        rw [Action.bind_done (dispatch_apply c id k)] at h
        cases h

theorem demoted_useful (h : (Kernel.demoted e).isUseful = true) : e.isUseful = true := by
  unfold Kernel.demoted at h
  split at h
  · next hr =>
    simp only [Env.isUseful, Bool.and_eq_true] at h ⊢
    exact ⟨h.1, by rw [hr]; decide⟩
  · exact h

theorem Passed.useful_of_parked (ht : k.envs.Sound) (h : Passed c k .monitor k') (he : e ∈ k'.envs.toList)
    (hu : e.isUseful = true) : k.envs.toList.any Env.isUseful = true := by
  obtain ⟨i, hs, hl⟩ := Env.Table.mem_toList.mp he
  have hf := (h.touched.sound ht).find?_of_slot? hs hl
  rw [h.find?_other ht Exit.noConfusion] at hf
  obtain ⟨y, hy, hye⟩ := Option.map_eq_some_iff.mp hf
  refine List.any_eq_true.mpr ⟨y, Env.Table.mem_toList.mpr ⟨_, slot?_of_find? hy, live_of_find? hy⟩, ?_⟩
  rw [← hye] at hu
  split at hu
  · exact demoted_useful hu
  · exact hu

end monitor

section moves

/-- The environment that a CPU goes into runs there. -/
theorem Step.Moves.resumed (hp : Proper n k.envs k.memory) (hc : c.index < k.cpuCount)
    (h : l.Moves k (some (c, .resume id)) k') : ∃ e, k'.envs.find? id = some e ∧ e.status = .running ∧
      e.cpu = some c ∧ k'.currentOf c = some id := by
  generalize ho : some (c, Exit.resume id) = o at h
  cases h with
  | worked _ _ _ => cases ho
  | stayed hr _ hd hy hs hcpu =>
    cases ho
    refine ⟨_, hy, hs, hcpu, ?_⟩
    rw [Kernel.currentOf, Kernel.current_of_handle hd]
    exact (Kernel.runningOn_spec hr).2.1
  | @passed _ _ d k₁ _ ha hd =>
    obtain ⟨rfl, hexit⟩ := Prod.mk.inj (Option.some.inj ho)
    have hpass := Kernel.passed_of_schedule hd
    rw [← hexit] at hpass
    obtain ⟨e, -, -, -, he⟩ := hpass.chosen ((ha.upshot hp).proper hp).intact.table
    have hc₁ : c.index < k₁.current.size := (ha.size hp).symm ▸ hc
    exact ⟨_, he, rfl, rfl, hpass.currentOf_self hc₁⟩

/-- When a CPU is parked nobody but idle environments could run. -/
theorem Step.Moves.parked (hp : Proper n k.envs k.memory) (h : l.Moves k (some (c, .monitor)) k') :
    ∀ e ∈ k'.envs.toList, e.isUseful = false := by
  generalize ho : some (c, Exit.monitor) = o at h
  cases h with
  | worked _ _ _ => cases ho
  | stayed _ _ _ _ _ _ => cases ho
  | @passed _ _ d k₁ _ ha hd =>
    obtain ⟨rfl, hexit⟩ := Prod.mk.inj (Option.some.inj ho)
    cases d with
    | run id => cases hexit
    | monitor =>
      have hpass : Passed c k₁ .monitor k' := Kernel.passed_of_schedule hd
      intro e he
      by_contra hu
      have huseful := hpass.useful_of_parked ((ha.upshot hp).proper hp).intact.table he (by simpa using hu)
      rw [Kernel.unused_of_monitor hd] at huseful
      cases huseful

end moves

section suspended

theorem blocked_of_update (he : (t.update id f).find? j = some e) (h : Blocked e)
    (hf : ∀ e, e.isFree = false → (f e).title = e.title) (hb : ∀ e, Blocked (f e) → Blocked e) :
    ∃ y, t.find? j = some y ∧ Blocked y := by
  rw [find?_update hf] at he
  split at he
  · next hj =>
    obtain ⟨y, hy, rfl⟩ := Option.map_eq_some_iff.mp he
    exact ⟨y, hj ▸ hy, hb y h⟩
  · exact ⟨e, he, h⟩

theorem Bystander.blocked (h : Bystander act t t' e e') (hb : Blocked e') : Blocked e := by
  cases h with
  | left => exact hb
  | delivered => exact hb.elim (fun h => by cases h) fun h => .inr h
  | woken _ ho => exact .inr (by rw [ho]; rfl)

theorem blocked_of_released (hd : t.find? id = some d) (he : (t.released id d).find? j = some e) (h : Blocked e) :
    ∃ y, t.find? j = some y ∧ Blocked y := by
  obtain ⟨y, hy, hb⟩ : ∃ y, t.find? j = some y ∧ Bystander none t (t.released id d) y e := bystander_of_released hd he
  exact ⟨y, hy, hb.blocked h⟩

theorem blocked_of_occupy {index : Nat} {parent : Id} {kind : Kind} {space : Handle}
    (ht : t.Sound) (hfree : t.freeHead = some index)
    (he : (t.occupy index parent kind space).2.find? j = some e) (h : Blocked e) :
    ∃ y, t.find? j = some y ∧ Blocked y := by
  rw [find?_occupy ht hfree] at he
  split at he
  · cases he
    exact absurd h (not_blocked.mpr ⟨rfl, rfl⟩)
  · exact ⟨e, he, h⟩

/-- A call that blocks its caller suspends it. -/
theorem Effect.suspends (hp : Proper n t m) (h : Effect cpu caller t m call t' m') (hc : t.find? caller = some c₁)
    (hn : ¬Blocked c₁) (he : t'.find? caller = some e) (hb : Blocked e) : e.status = .notRunnable := by
  have hno : ¬∃ y, t.find? caller = some y ∧ Blocked y := by
    rintro ⟨y, hy, hyb⟩
    obtain rfl := find?_unique hc hy
    exact hn hyb
  cases h with
  | quiet => exact absurd ⟨e, he, hb⟩ hno
  | marked => exact absurd (blocked_of_update he hb Env.title_dying fun _ h => h) hno
  | freed hd => exact absurd (blocked_of_released hd.spec.1 he hb) hno
  | forked _ hfree _ =>
    obtain ⟨y, hy, hyb⟩ := blocked_of_update he hb Env.title_suspended fun _ h => h
    exact absurd (blocked_of_occupy hp.intact.table hfree hy hyb) hno
  | reset _ hs _ =>
    exact absurd (blocked_of_update he hb (fun _ hf => Env.title_of_live rfl rfl rfl (fun h => hs (.inl h)) hf)
      fun _ h => h) hno
  | allocated => exact absurd ⟨e, he, hb⟩ hno
  | mapped => exact absurd ⟨e, he, hb⟩ hno
  | unmapped => exact absurd ⟨e, he, hb⟩ hno
  | entered => exact absurd (blocked_of_update he hb (fun _ _ => rfl) fun _ h => h) hno
  | sent =>
    obtain ⟨y, hy, hyb⟩ := blocked_of_update he hb Env.title_runnable fun _ h => h
    exact absurd (blocked_of_update hy hyb Kernel.title_delivered fun _ h => h.elim (fun h => by cases h) .inr) hno
  | parked =>
    rw [find?_update Env.title_parked, if_pos rfl] at he
    obtain ⟨y, -, rfl⟩ := Option.map_eq_some_iff.mp he
    rfl
  | blocked =>
    rw [find?_update Kernel.title_blocking, if_pos rfl] at he
    obtain ⟨y, -, rfl⟩ := Option.map_eq_some_iff.mp he
    rfl
  | starved =>
    rw [find?_update Kernel.title_blocking, if_pos rfl] at he
    obtain ⟨y, -, rfl⟩ := Option.map_eq_some_iff.mp he
    rfl
  | fetched hf => exact absurd hb (hf.caller_idle hc (not_blocked.mp hn).2 he)

/-- Who is blocked while it is served is suspended. -/
theorem Served.suspends (hp : Proper n t m) (hf : t.find? e.id = some e) (h : Served c e t m t' m') (hn : ¬Blocked e)
    (hy : t'.find? e.id = some y) (hb : Blocked y) : y.status = .notRunnable := by
  have hno : ¬∃ x, t.find? e.id = some x ∧ Blocked x := by
    rintro ⟨x, hx, hxb⟩
    obtain rfl := find?_unique hf hx
    exact hn hxb
  cases h with
  | ticked => exact absurd ⟨y, hy, hb⟩ hno
  | answered => exact absurd (blocked_of_update hy hb Env.title_context fun _ h => h) hno
  | upcalled => exact absurd (blocked_of_update hy hb Env.title_context fun _ h => h) hno
  | killed =>
    rw [find?_released_self hf] at hy
    cases hy
  | called g _ he =>
    rw [find?_update Env.title_context, if_pos rfl] at hy
    obtain ⟨x, hx, rfl⟩ := Option.map_eq_some_iff.mp hy
    have hs := he.suspends hp hf hn hx hb
    exact hs

/-- A trap of `e` on `c` dismisses it: it was marked before, or serving it destroyed it, suspended it or blocked it in a
message operation. -/
inductive Kernel.Dismisses (k : Kernel) (c : Cpu) (live : Context) (e : Env) : Prop
  | marked : e.status = .dying → Dismisses k c live e
  | destroyed {again : Bool} {k₁ : Kernel} : e.status = .running →
      (handle c { e with context := live } (k.saved e.id live) : Outcome Kernel Empty Bool) = .done again k₁ →
      k₁.envs.find? e.id = none → Dismisses k c live e
  | suspended {again : Bool} {k₁ : Kernel} {y : Env} : e.status = .running →
      (handle c { e with context := live } (k.saved e.id live) : Outcome Kernel Empty Bool) = .done again k₁ →
      k₁.envs.find? e.id = some y → (y.status = .notRunnable ∨ ¬Blocked e ∧ Blocked y) → Dismisses k c live e

namespace Kernel.Dismisses

/-- What is left of it after it was served cannot run. -/
theorem status {again : Bool} (h : k.Dismisses c live e) (hp : Proper n k.envs k.memory) (hr : k.runningOn c = some e)
    (hs : e.status = .running)
    (hd : (handle c { e with context := live } (k.saved e.id live) : Outcome Kernel Empty Bool) = .done again k₁)
    (hy : k₁.envs.find? e.id = some y) : y.status = .notRunnable := by
  have hp' : Proper n (k.saved e.id live).envs (k.saved e.id live).memory := hp.touched touched_context
  cases h with
  | marked hdying => cases hs.symm.trans hdying
  | destroyed _ hd' hgone =>
    cases hd.symm.trans hd'
    cases hgone.symm.trans hy
  | suspended _ hd' hy' hwhy =>
    cases hd.symm.trans hd'
    obtain rfl := find?_unique hy hy'
    rcases hwhy with hstatus | ⟨hn, hb⟩
    · exact hstatus
    · exact (served_of_handle hp hr hd).suspends hp' (find?_saved (runningOn_spec hr).1) hn hy hb

/-- Nobody is dismissed by a trap and then handed the CPU by the pass. -/
theorem not_chosen (h : k.Dismisses c live e) (hp : Proper n k.envs k.memory) (hr : k.runningOn c = some e)
    (ha : Awaits c live k k₁) (hpass : Passed c k₁ exit k') : exit ≠ .resume e.id := by
  rintro rfl
  obtain ⟨y, hy, hchosen, -⟩ := hpass.chosen ((ha.handled hp).proper hp).intact.table
  cases ha with
  | vacant hnone _ => cases hr.symm.trans hnone
  | reclaimed hr' _ hd =>
    cases hr.symm.trans hr'
    have hf := (runningOn_spec hr).1
    obtain ⟨k₂, hd₂, he, -⟩ := reclaim_effect (ε := Empty) (c := c) (k := k.noted live) hp.intact hf
    cases hd.symm.trans hd₂
    have hgone : (k.envs.released e.id e).find? e.id = none := find?_released_self hf
    cases (he ▸ hy).symm.trans hgone
  | served hr' hs hd _ =>
    cases hr.symm.trans hr'
    have hstatus := h.status hp hr hs hd hy
    rw [hstatus] at hchosen
    simp at hchosen
  | lost hr' _ _ hgone =>
    cases hr.symm.trans hr'
    cases hgone.symm.trans hy

theorem not_resumed (h : k.Dismisses c live e) (hp : Proper n k.envs k.memory) (hr : k.runningOn c = some e)
    (hm : (Step.trap c live).Moves k (some (c, exit)) k') : exit ≠ .resume e.id := by
  generalize ho : some (c, exit) = o at hm
  cases hm with
  | worked _ _ _ => cases ho
  | stayed hr' hs hd hy hrun _ =>
    cases hr.symm.trans hr'
    cases hrun.symm.trans (h.status hp hr hs hd hy)
  | passed ha hd =>
    cases ho
    cases ha with
    | trapped ha => exact h.not_chosen hp hr ha (passed_of_schedule hd)

end Kernel.Dismisses

end suspended

/-- A CPU that leaves the kernel, from a trap or on its first entry, goes into a live environment that runs there, is
noted as its last one and has its registers loaded; or into the monitor with the registers that it had, and then
nobody but idle environments could run. It never goes back into an environment that the trap dismissed. -/
theorem exit_contract (hk : k.Reachable) (hc : c.index < k.cpuCount)
    (h : (Kernel.trap c live k : Outcome Kernel Empty (Exit × Context)) = .done (exit, loaded) k' ∨
      (Kernel.startCpu c live k : Outcome Kernel Empty (Exit × Context)) = .done (exit, loaded) k') :
    (∀ id, exit = .resume id → ∃ e, k'.envs.find? id = some e ∧ e.status = .running ∧ e.cpu = some c ∧
      k'.currentOf c = some id ∧ loaded = e.context) ∧
    (exit = .monitor → loaded = live ∧
      ∀ e ∈ k'.envs.toList, e.kind ≠ .idle → e.status ≠ .runnable ∧ e.status ≠ .running) ∧
    ((Kernel.trap c live k : Outcome Kernel Empty (Exit × Context)) = .done (exit, loaded) k' →
      ∀ e, k.runningOn c = some e → k.Dismisses c live e → exit ≠ .resume e.id) := by
  obtain ⟨n, hp⟩ := hk.proper
  obtain ⟨l, hm⟩ : ∃ l : Step, l.Moves k (some (c, exit)) k' := by
    rcases h with h | h
    · exact ⟨_, (Kernel.trap_moves c live hp).of_done h⟩
    · exact ⟨_, (Kernel.startCpu_moves c live k).of_done h⟩
  have hlands : Kernel.Lands live (exit, loaded) k' := by
    rcases h with h | h
    · exact (Kernel.trap_lands c live k).of_done h
    · exact (Kernel.startCpu_lands c live k).of_done h
  refine ⟨?_, ?_, fun htrap e hr hd => hd.not_resumed hp hr ((Kernel.trap_moves c live hp).of_done htrap)⟩
  · rintro id rfl
    obtain ⟨e, he, hs, hcpu, hlast⟩ := hm.resumed hp hc
    cases hlands with
    | resumed hf =>
      obtain rfl := find?_unique he hf
      exact ⟨_, he, hs, hcpu, hlast, rfl⟩
  · rintro rfl
    cases hlands
    refine ⟨rfl, fun e he hkind => ?_⟩
    have huseful := hm.parked hp e he
    simp only [Env.isUseful, Bool.and_eq_false_iff, bne_eq_false_iff_eq, Bool.or_eq_false_iff, beq_eq_false_iff_ne]
      at huseful
    exact huseful.resolve_left hkind

/-- The first program sends to the second one and waits; the CPU goes into the second one, with its registers. -/
theorem exit_contract_parked : ∃ k k' : Kernel, ∃ live loaded e y, k.Reachable ∧ k.runningOn ⟨0⟩ = some e ∧
    k.Dismisses ⟨0⟩ live e ∧
    (Kernel.trap ⟨0⟩ live k : Outcome Kernel Empty (Exit × Context)) = .done (.resume ⟨0x402⟩, loaded) k' ∧
    e.id ≠ ⟨0x402⟩ ∧ k'.envs.find? ⟨0x402⟩ = some y ∧ y.status = .running ∧ loaded = y.context := by
  let k := Kernel.underway
  let live : Context := .making (.sendQueued ⟨0x402⟩ ⟨9, UInt64.ofNat utop, .empty⟩)
  let e := (k.runningOn ⟨0⟩).get (by decide +kernel)
  have hk : k.Reachable := Kernel.reachable_pair.next trivial (by decide +kernel)
  have hr : k.runningOn ⟨0⟩ = some e := (Option.some_get _).symm
  have hd : k.Dismisses ⟨0⟩ live e := by
    let o : Outcome Kernel Empty Bool := Kernel.handle ⟨0⟩ { e with context := live } (k.saved e.id live)
    let r := o.result?.get (by decide +kernel)
    let y := (r.2.envs.find? e.id).get (by decide +kernel)
    have hhandle : o = .done r.1 r.2 := Outcome.result?_eq_some (Option.some_get _).symm
    exact .suspended (by decide +kernel) hhandle (y := y) (Option.some_get _).symm (.inl (by decide +kernel))
  let o : Outcome Kernel Empty (Exit × Context) := Kernel.trap ⟨0⟩ live k
  let r := o.result?.get (by decide +kernel)
  have hexit : r.1.1 = .resume ⟨0x402⟩ := by decide +kernel
  have ho : o = .done (.resume ⟨0x402⟩, r.1.2) r.2 := by
    rw [← hexit]
    exact Outcome.result?_eq_some (Option.some_get _).symm
  obtain ⟨hresume, -, hdismissed⟩ := exit_contract hk (by decide +kernel) (.inl ho)
  obtain ⟨y, hy, hs, -, -, hloaded⟩ := hresume _ rfl
  exact ⟨k, r.2, live, r.1.2, e, y, hk, hr, hd, ho, fun h => hdismissed ho e hr hd (congrArg Exit.resume h.symm), hy,
    hs, hloaded⟩

end Exokernel
