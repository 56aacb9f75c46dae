import Exokernel.Kernel.State
import Exokernel.Proofs.Env.Occupancy
import Exokernel.Proofs.Memory.UserAccess

/-!
# Environments and their spaces

What the elementary actions do to the kernel state, alone and in front of others, and the invariant that creation and
destruction of environments keep. A table and a memory fit together when each live environment owns a live space of its
own and no other space is live. Creation and destruction change both sides at once; everything else leaves the
ownership alone.
-/

set_option autoImplicit false

/-! ## Elementary actions -/

namespace Exokernel.Kernel

variable {ε ε' α β : Type} {k : Kernel} {id : Env.Id} {e : Env}

section bind

variable (f : Unit → Action Kernel ε α)

@[simp] theorem record_apply (v : Event) :
    (record v : Action Kernel ε Unit) k = .done () { k with journal := k.journal.record v } := rfl

@[simp] theorem record_bind (v : Event) :
    (record v >>= f) k = f () { k with journal := k.journal.record v } := rfl

@[simp] theorem noteProgress_bind : (noteProgress >>= f) k = f () { k with progress := k.progress + 1 } := rfl

@[simp] theorem setEnvs_apply (g : Env.Table → Env.Table) :
    (setEnvs g : Action Kernel ε Unit) k = .done () { k with envs := g k.envs } := rfl

@[simp] theorem setEnvs_bind (g : Env.Table → Env.Table) :
    (setEnvs g >>= f) k = f () { k with envs := g k.envs } := rfl

@[simp] theorem updateEnv_apply (g : Env → Env) :
    (updateEnv id g : Action Kernel ε Unit) k = .done () { k with envs := k.envs.update id g } := rfl

@[simp] theorem updateEnv_bind (g : Env → Env) :
    (updateEnv id g >>= f) k = f () { k with envs := k.envs.update id g } := rfl

end bind

theorem readEnv_of_find? (h : k.envs.find? id = some e) : readEnv id k = .done e k := by
  simp [readEnv, Env.Table.get, h]

theorem readEnv_of_none (h : k.envs.find? id = none) : readEnv id k = .refused .badEnvironment k := by
  simp [readEnv, Env.Table.get, h]

theorem readEnv_bind (h : k.envs.find? id = some e) (f : Env → Action Kernel EnvError α) :
    (readEnv id >>= f) k = f e k := Action.bind_done (readEnv_of_find? h)

theorem readEnv_bind_none (h : k.envs.find? id = none) (f : Env → Action Kernel EnvError α) :
    (readEnv id >>= f) k = .refused .badEnvironment k := Action.bind_refused (readEnv_of_none h)

theorem readEnv_mapError_bind (g : EnvError → ε) (h : k.envs.find? id = some e) (f : Env → Action Kernel ε α) :
    ((readEnv id).mapError g >>= f) k = f e k :=
  Action.bind_done (by rw [Action.mapError, readEnv_of_find? h])

theorem readEnv_mapError_bind_none (g : EnvError → ε) (h : k.envs.find? id = none)
    (f : Env → Action Kernel ε α) : ((readEnv id).mapError g >>= f) k = .refused (g .badEnvironment) k :=
  Action.bind_refused (by rw [Action.mapError, readEnv_of_none h])

theorem forM_record (l : List α) (v : α → Event) (k : Kernel) :
    (l.forM fun x => (record (v x) : Action Kernel ε Unit)) k =
      .done () { k with journal := l.foldl (fun j x => j.record (v x)) k.journal } := by
  induction l generalizing k with
  | nil => rfl
  | cons x l ih => exact ih { k with journal := k.journal.record (v x) }

theorem onMemory_done {x : Action Memory ε α} {a : α} {m : Memory} (h : x k.memory = .done a m) :
    onMemory x k = .done a { k with memory := m } := by
  simp [onMemory, Action.onPart, h]

theorem onMemory_refused {x : Action Memory ε α} {cause : ε} {m : Memory} (h : x k.memory = .refused cause m) :
    onMemory x k = .refused cause { k with memory := m } := by
  simp [onMemory, Action.onPart, h]

end Exokernel.Kernel

/-! ## The invariant -/

namespace Exokernel

open Env Env.Table Memory

variable {n : Nat} {t t' : Table} {m m' : Memory} {id parent : Id} {kind : Kind} {e : Env} {h : Handle}
  {index : Nat}

structure Intact (n : Nat) (t : Table) (m : Memory) : Prop where
  table : t.Sound
  memory : Settled n m
  owns : ∀ i e, t.slot? i = some e → e.isFree = false → ∃ h, e.space = some h ∧ m.isLive h = true
  distinct : ∀ i j e e', t.slot? i = some e → t.slot? j = some e' → e.isFree = false → e'.isFree = false →
    e.space = e'.space → i = j
  count : m.liveCount = t.live

namespace Intact

theorem touched (hi : Intact n t m) (ht : Touched t t') : Intact n t' m where
  table := ht.sound hi.table
  memory := hi.memory
  owns i e' hs' hf := by
    obtain ⟨e, hs, he⟩ := ht.slot?_inv hs'
    obtain ⟨-, hspace, hfree, -⟩ := title_eq.mp he
    rw [hspace]
    exact hi.owns i e hs (hfree.symm.trans hf)
  distinct i j e' x' hs' hx' hf hg he' := by
    obtain ⟨e, hs, he⟩ := ht.slot?_inv hs'
    obtain ⟨x, hx, hxe⟩ := ht.slot?_inv hx'
    obtain ⟨-, hspace, hfree, -⟩ := title_eq.mp he
    obtain ⟨-, hspace', hfree', -⟩ := title_eq.mp hxe
    rw [hspace, hspace'] at he'
    exact hi.distinct i j e x hs hx (hfree.symm.trans hf) (hfree'.symm.trans hg) he'
  count := hi.count.trans ht.live.symm

theorem kept (hi : Intact n t m) (hm : Settled n m') (hk : Kept m m') : Intact n t m' where
  table := hi.table
  memory := hm
  owns i e hs hf := by
    obtain ⟨h, he, hl⟩ := hi.owns i e hs hf
    exact ⟨h, he, (hk.live h).trans hl⟩
  distinct := hi.distinct
  count := hk.count.trans hi.count

theorem live_le (hi : Intact n t m) : t.live ≤ slotLimit := by
  rw [hi.table.count]
  exact (tally_le_size t.slots fun i e _ => by split <;> omega).trans hi.table.capacity

theorem not_crowded (hi : Intact n t m) {p : Panic} : ¬Crowded m p := by
  rintro ⟨-, hl⟩
  have hle := hi.live_le
  rw [hi.count] at hl
  exact absurd hl (Nat.not_lt.mpr hle)

theorem occupy (hi : Intact n t m) (hfree : t.freeHead = some index) (hm : Settled n m')
    (hnew : m.isLive h = false) (hl : ∀ i, m'.isLive i = (m.isLive i || i == h))
    (hc : m'.liveCount = m.liveCount + 1) : Intact n (t.occupy index parent kind h).2 m' := by
  have hslot := slot?_occupy hi.table hfree parent kind h
  -- No environment owned the handle before.
  have hother : ∀ i e, t.slot? i = some e → e.isFree = false → e.space ≠ some h := by
    intro i e hs hf he
    obtain ⟨h', he', hl'⟩ := hi.owns i e hs hf
    rw [he] at he'
    obtain rfl := Option.some.inj he'
    rw [hnew] at hl'
    cases hl'
  refine ⟨hi.table.occupy hfree, hm, fun i e hs hf => ?_, fun i j e e' hs hs' hf hf' he => ?_, ?_⟩
  · rw [hslot] at hs
    split at hs
    · obtain rfl := Option.some.inj hs
      exact ⟨h, rfl, by simp [hl]⟩
    · obtain ⟨h', he', hl'⟩ := hi.owns i e hs hf
      exact ⟨h', he', by simp [hl, hl']⟩
  · rw [hslot] at hs hs'
    split at hs
    · obtain rfl := Option.some.inj hs
      split at hs'
      · next hi hj => exact hi.trans hj.symm
      · exact absurd he.symm (hother j e' hs' hf')
    · split at hs'
      · obtain rfl := Option.some.inj hs'
        exact absurd he (hother i e hs hf)
      · exact hi.distinct i j e e' hs hs' hf hf' he
  · rw [hc, hi.count]
    rfl

theorem vacate (hi : Intact n t m) (hf : t.find? id = some e) (he : e.space = some h) (hm : Settled n m')
    (hl : ∀ i, m'.isLive i = (m.isLive i && i != h)) (hc : m'.liveCount + 1 = m.liveCount) :
    Intact n (t.vacate id.index) m' := by
  have hslot := slot?_vacate hf
  have hs₀ := slot?_of_find? hf
  refine ⟨hi.table.vacate hf, hm, fun i x hs hx => ?_, fun i j x x' hs hs' hx hx' hxx => ?_, ?_⟩
  · rw [hslot] at hs
    split at hs
    · obtain rfl := Option.some.inj hs
      cases hx
    · next hne =>
      obtain ⟨h', hx', hl'⟩ := hi.owns i x hs hx
      refine ⟨h', hx', ?_⟩
      have hh : h' ≠ h := fun e' => hne (hi.distinct i _ x e hs hs₀ hx (live_of_find? hf) (by rw [hx', he, e']))
      simp [hl, hl', hh]
  · rw [hslot] at hs hs'
    split at hs
    · obtain rfl := Option.some.inj hs
      cases hx
    · split at hs'
      · obtain rfl := Option.some.inj hs'
        cases hx'
      · exact hi.distinct i j x x' hs hs' hx hx' hxx
  · have hcount := hi.count
    show m'.liveCount = t.live - 1
    omega

theorem space_of_find? (hi : Intact n t m) (hf : t.find? id = some e) : ∃ h, e.space = some h ∧ m.isLive h = true :=
  hi.owns _ e (slot?_of_find? hf) (live_of_find? hf)

theorem owner_unique {id' : Id} {e' : Env} (hi : Intact n t m) (hf : t.find? id = some e) (hf' : t.find? id' = some e')
    (hs : e.space = some h) (hs' : e'.space = some h) : e = e' := by
  have hslot := hi.distinct _ _ e e' (slot?_of_find? hf) (slot?_of_find? hf') (live_of_find? hf) (live_of_find? hf')
    (hs.trans hs'.symm)
  have hf₁ := slot?_of_find? hf
  rw [hslot, slot?_of_find? hf'] at hf₁
  exact (Option.some.inj hf₁).symm

end Intact

theorem intact_start (slots frames : Nat) : Intact frames (.ofCapacity slots) (.ofFrames frames) where
  table := sound_ofCapacity slots
  memory := settled_ofFrames frames
  owns i e hs hf := by
    rw [vacant_of_slot? hs] at hf
    cases hf
  distinct i j e e' hs _ hf := by
    rw [vacant_of_slot? hs] at hf
    cases hf
  count := rfl

end Exokernel
