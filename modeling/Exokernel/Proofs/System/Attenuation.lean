import Exokernel.Proofs.Memory.Attenuation
import Exokernel.Proofs.Syscall.Sharing
import Exokernel.Proofs.System.Keeping

/-!
# Write access is never amplified

An environment that comes to write to a frame in use is given the page by one that could write to it before: the
source of a mapping, or the sender of the message that it got with the page. A frame that nobody can write to
therefore stays so, with the same bytes, until it is freed.
-/

set_option autoImplicit false

namespace Exokernel

open Env (Id Kind Status)
open Env.Table

section tenure

variable {n index : Nat} {cpu : Cpu} {caller id parent : Id} {kind : Kind} {call : Call} {e : Env}
  {space : Handle} {t t' t'' : Env.Table} {m m' : Memory}

def Tenure (t : Env.Table) (m : Memory) (t' : Env.Table) : Prop :=
  ∀ id e' h, t'.find? id = some e' → e'.space = some h →
    (∃ e, t.find? id = some e ∧ e.space = some h) ∨ m.isLive h = false

theorem Env.Table.Touched.tenure (ht : Touched t t') : Tenure t m t' := by
  intro id e' h hf hs
  obtain ⟨e, he, htitle⟩ := ht.find?_inv hf
  exact .inl ⟨e, he, (Env.title_eq.mp htitle).2.1.symm.trans hs⟩

theorem Tenure.touched (h : Tenure t m t') (ht : Touched t' t'') : Tenure t m t'' := by
  intro id e' s hf hs
  obtain ⟨e, he, htitle⟩ := ht.find?_inv hf
  exact h id e s he ((Env.title_eq.mp htitle).2.1.symm.trans hs)

theorem Tenure.of_touched (ht : Touched t t') (h : Tenure t' m t'') : Tenure t m t'' := by
  intro id e' s hf hs
  rcases h id e' s hf hs with ⟨e, he, hes⟩ | hnew
  · exact ht.tenure id e s he hes
  · exact .inr hnew

theorem tenure_released (hf : t.find? id = some e) : Tenure t m (t.released id e) := by
  have ht := touched_settled t id e.outbox
  intro j e' h hj hs
  rw [find?_released hf] at hj
  split at hj
  · cases hj
  · exact ht.tenure j e' h hj hs

theorem tenure_occupy (hp : Proper n t m) (hfree : t.freeHead = some index) (hd : Memory.create m = .done space m') :
    Tenure t m (t.occupy index parent kind space).2 := by
  obtain ⟨-, hnew, -⟩ := (Memory.balanced_create hp.intact.memory).of_done hd
  intro j e' h hj hs
  rw [find?_occupy hp.intact.table hfree] at hj
  split at hj
  · cases hj
    cases hs
    exact .inr hnew
  · exact .inl ⟨e', hj, hs⟩

theorem Effect.tenure (hp : Proper n t m) (h : Effect cpu caller t m call t' m') : Tenure t m t' := by
  rcases h.population with ht | ⟨e, hf, rfl⟩ | ⟨index, space, parent, m₁, hfree, hm, rfl⟩
  · exact ht.tenure
  · exact tenure_released hf
  · exact (tenure_occupy hp hfree hm).touched (touched_update Env.title_suspended)

theorem Served.tenure {c : Cpu} (hp : Proper n t m) (hf : t.find? e.id = some e) (h : Served c e t m t' m') :
    Tenure t m t' := by
  cases h with
  | ticked => exact (Touched.refl t).tenure
  | answered g => exact touched_context.tenure
  | upcalled g => exact touched_context.tenure
  | killed => exact tenure_released hf
  | called g _ he => exact (he.tenure hp).touched touched_context

theorem Handled.tenure {c : Cpu} {live : Context} {k : Kernel} (hp : Proper n k.envs k.memory)
    (h : Handled c live k t' m') : Tenure k.envs k.memory t' := by
  cases h with
  | vacant => exact (Touched.refl k.envs).tenure
  | reclaimed hr => exact tenure_released (Kernel.runningOn_spec hr).1
  | @served e _ _ hr _ hs =>
    have hsaved : Touched k.envs (k.saved e.id live).envs := touched_context
    have hf : (k.saved e.id live).envs.find? e.id = some { e with context := live } :=
      Kernel.find?_saved (Kernel.runningOn_spec hr).1
    exact .of_touched hsaved (hs.tenure (e := { e with context := live }) (hp.touched hsaved) hf)

theorem Upshot.tenure {k : Kernel} {r : Demand} (hp : Proper n k.envs k.memory) (h : Upshot k r t' m') :
    Tenure k.envs k.memory t' := by
  have hself : Tenure k.envs k.memory k.envs := (Touched.refl k.envs).tenure
  cases h with
  | still => exact hself
  | armed => exact hself
  | trapped hd => exact hd.tenure hp
  | created hfree hm => exact tenure_occupy hp hfree hm
  | loaded => exact hself
  | entered => exact touched_context.tenure
  | freed hf => exact tenure_released hf
  | reset hs => exact (touched_status hs).tenure
  | stored => exact hself
  | called _ he => exact he.tenure hp

end tenure

/-- The demand takes the page at `va` of `source` and puts it at `dstva` of `dest`. -/
def Demand.Takes (r : Demand) (k : Kernel) (t' : Env.Table) (source : Id) (va : Nat) (dest : Id) (dstva : Nat) : Prop :=
  ∃ caller call, r.Calls k caller call ∧ Shares k.envs t' caller call source va dest dstva

def Demand.Exposes (r : Demand) (k : Kernel) (t' : Env.Table) (i : Handle) (va : Nat) (j : Handle) (dstva : Nat) :
    Prop :=
  ∃ source e dest d, r.Takes k t' source va dest dstva ∧ k.envs.find? source = some e ∧ e.space = some i ∧
    k.envs.find? dest = some d ∧ d.space = some j

def Kernel.CanWrite (k : Kernel) (id : Id) (va : Nat) (f : FrameId) : Prop :=
  ∃ e h, k.envs.find? id = some e ∧ e.space = some h ∧ k.memory.Writable h va f

instance {k : Kernel} {id : Id} {va : Nat} {f : FrameId} : Decidable (k.CanWrite id va f) :=
  decidable_of_iff (((k.envs.find? id).bind Env.space).any (fun h => decide (k.memory.Writable h va f)) = true) (by
    simp only [Option.any_eq_true, Option.bind_eq_some_iff, decide_eq_true_eq]
    constructor
    · rintro ⟨h, ⟨e, hf, hs⟩, hw⟩
      exact ⟨e, h, hf, hs, hw⟩
    · rintro ⟨e, h, hf, hs, hw⟩
      exact ⟨h, ⟨e, hf, hs⟩, hw⟩)

section deeds

variable {n : Nat} {cpu c : Cpu} {caller source dest : Id} {call : Call} {live : Context} {va dstva : Nat} {f : FrameId}
  {t t' t'' : Env.Table} {m m' : Memory} {k k' : Kernel} {r : Demand} {e : Env}

/-- A call shares pages as it says, and no others. -/
theorem Remade.attenuates (h : Remade t m caller call t' m') : Memory.Attenuates
    (fun i w j v => ∃ source e dest d, Shares t t' caller call source w dest v ∧ t.find? source = some e ∧
      e.space = some i ∧ t.find? dest = some d ∧ d.space = some j) m m' := by
  cases h with
  | kept hs hm => exact hs.attenuates fun i w _ he => (hm i w).symm.trans he
  | unmade _ _ hs hm =>
    refine hs.attenuates fun i w _ he => ?_
    rw [hm] at he
    split at he
    · cases he
    · exact he
  | remapped hd _ hds horigin hr =>
    refine hr.attenuates fun entry hentry hu hw => ?_
    cases horigin with
    | none => cases hentry
    | blank flags hunused =>
      cases hentry
      cases hunused.symm.trans hu
    | shared hshare hf hs hold hflags =>
      cases hentry
      exact ⟨_, _, ⟨_, _, _, _, hshare, hf, hs, hd, hds⟩, _, hold, rfl, hflags hw⟩
  | delivered hcall hl hrecv hheard hf hs hold hflags hds hr =>
    refine hr.attenuates fun entry hentry _ hw => ?_
    cases hentry
    exact ⟨_, _, ⟨_, _, _, _, .message hcall hl hrecv hheard, hf, hs, lookup_found hl, hds⟩, _, hold, rfl, hflags hw⟩

theorem Shares.after (h : Shares t t' caller call source va dest dstva) (ht : Touched t' t'') (he : t'.Eased none t'') :
    Shares t t'' caller call source va dest dstva := by
  cases h with
  | mapping hs hd => exact .mapping hs hd
  | message hcall hl hr hheard => exact .message hcall hl hr (hheard.eased ht he)
  | parked hp htarget hheard => exact .parked hp htarget (hheard.eased ht he)

/-- Saving the registers of the caller does not change what it shares. -/
theorem Shares.of_saved (h : Shares (k.saved caller live).envs t' caller call source va dest dstva) :
    Shares k.envs t' caller call source va dest dstva := by
  have hcore : ∀ e : Env, ({ e with context := live } : Env).core = e.core := fun _ => rfl
  have hlookup : ∀ {id : Id} {y : Env}, (k.saved caller live).envs.lookup id (some caller) true = .ok y →
      ∃ x, k.envs.lookup id (some caller) true = .ok x ∧ x.id = y.id := fun hl =>
    exists_ok_core (lookup_touch hcore _) (fun e e' hc he => (show e'.core.id = e.core.id by rw [hc]).trans he)
      ⟨_, hl, rfl⟩
  have heased : k.envs.Eased none (k.saved caller live).envs := eased_context
  cases h with
  | mapping hs hd =>
    obtain ⟨x, hx, hxid⟩ := hlookup hs
    obtain ⟨y, hy, hyid⟩ := hlookup hd
    rw [← hxid, ← hyid]
    exact .mapping hx hy
  | message hcall hl hr hheard =>
    obtain ⟨hid, hf⟩ := lookup_unchecked.mp hl
    obtain ⟨x, hx, -, hbox⟩ := heased _ _ hf
    have hxid := id_of_find? hx
    rw [hbox (by simp)] at hr ⊢
    rw [← hxid] at hid hx hheard ⊢
    exact .message hcall (lookup_unchecked.mpr ⟨hid, hx⟩) hr hheard
  | parked hp htarget hheard => exact .parked (hp.of_eased heased) htarget hheard

theorem Demand.Exposes.after {i j : Handle} (h : r.Exposes k t' i va j dstva) (ht : Touched t' t'')
    (he : t'.Eased none t'') : r.Exposes k t'' i va j dstva := by
  obtain ⟨source, s, dest, d, ⟨caller, call, hcall, hshare⟩, howns⟩ := h
  exact ⟨source, s, dest, d, ⟨caller, call, hcall, hshare.after ht he⟩, howns⟩

theorem Handled.attenuates (hp : Proper n k.envs k.memory) (h : Handled c live k t' m') :
    Memory.Attenuates ((Demand.step (.trap c live)).Exposes k t') k.memory m' := by
  cases h with
  | vacant => exact (Memory.Spent.refl _).attenuates
  | reclaimed _ _ _ hd => exact Memory.attenuates_destroy hp.clear hd
  | @served e _ _ hr hrun hs =>
    have hsaved : Touched k.envs (k.saved e.id live).envs := touched_context
    have hp' := hp.touched hsaved
    have hf : (k.saved e.id live).envs.find? e.id = some { e with context := live } :=
      Kernel.find?_saved (Kernel.runningOn_spec hr).1
    cases hs with
    | ticked => exact (Memory.Spent.refl _).attenuates
    | answered g hm => exact hm.attenuates
    | upcalled g _ hm => exact hm.attenuates
    | killed _ hm hd => exact hm.attenuates_destroy hd
    | called g hcall he =>
      refine (he.remade hp' hf).attenuates.mono ?_
      rintro i w j v ⟨source, s, dest, d, hshare, hs, hspace, hd, hdspace⟩
      obtain ⟨x, hx, hxtitle⟩ := hsaved.find?_inv hs
      obtain ⟨y, hy, hytitle⟩ := hsaved.find?_inv hd
      exact ⟨source, x, dest, y, ⟨e.id, _, .trapped hr hrun hcall,
        (hshare.after touched_context eased_context).of_saved⟩, hx, (Env.title_eq.mp hxtitle).2.1.symm.trans hspace,
        hy, (Env.title_eq.mp hytitle).2.1.symm.trans hdspace⟩

/-- A demand shares pages as it says, and no others. -/
theorem Upshot.attenuates (hp : Proper n k.envs k.memory) (ha : r.Allowed k) (h : Upshot k r t' m') :
    Memory.Attenuates (r.Exposes k t') k.memory m' := by
  cases h with
  | still _ hm => exact hm.attenuates
  | armed => exact Memory.attenuates_armed _ _
  | trapped hd => exact hd.attenuates hp
  | created _ hm => exact Memory.attenuates_create hp.intact.memory hp.clear hm
  | loaded hm => exact Memory.attenuates_allocPage hp.intact.memory hp.clear hm
  | entered => exact (Memory.Spent.refl _).attenuates
  | freed _ _ hm => exact Memory.attenuates_destroy hp.clear hm
  | reset => exact (Memory.Spent.refl _).attenuates
  | stored hm => exact hm.attenuates
  | called hd he =>
    obtain ⟨e, hc⟩ := ha
    refine (he.remade hp hc).attenuates.mono ?_
    rintro i w j v ⟨source, s, dest, d, hshare, howns⟩
    exact ⟨source, s, dest, d, ⟨_, _, .asked hd, hshare⟩, howns⟩

theorem Demand.attenuates (hp : Proper n k.envs k.memory) (ha : r.Allowed k) (hr : r.run k = .ok k') :
    Memory.Attenuates (r.Exposes k k'.envs) k.memory k'.memory ∧ Tenure k.envs k.memory k'.envs := by
  obtain ⟨k₁, hd, hl⟩ := r.does hp ha hr
  rw [hl.memory]
  refine ⟨(hd.attenuates hp ha).mono fun _ _ _ _ h => ?_, (hd.tenure hp).touched hl.touched⟩
  exact h.after hl.touched (hl.eased (hd.proper hp).intact.table)

namespace Kernel

/-- Whoever comes to write to a frame in use is given its page by one who could write to it before. -/
theorem CanWrite.taken {id : Env.Id} (hp : Proper n k.envs k.memory) (ha : r.Allowed k) (hr : r.run k = .ok k')
    (hu : k.memory.frames.used f = true) (hw : k'.CanWrite id va f) (hnot : ¬k.CanWrite id va f) :
    ∃ source srcva, r.Takes k k'.envs source srcva id (pageBase va) ∧ k.CanWrite source srcva f := by
  obtain ⟨hatt, hten⟩ := r.attenuates hp ha hr
  obtain ⟨e', h, hf', hs', hw'⟩ := hw
  rcases hatt.writable h va f hu hw' with hold | ⟨i, w, ⟨source, e, dest, d, htake, hf, hs, hd, hds⟩, hi⟩
  · rcases hten id e' h hf' hs' with ⟨e, hf, hs⟩ | hnew
    · exact absurd ⟨e, h, hf, hs, hold⟩ hnot
    · obtain ⟨entry, hentry, -⟩ := hold
      cases (Memory.mapping?_of_not_live hnew).symm.trans hentry
  · -- The space that the page went to was owned by `id` before, so `id` is where the page was to go.
    obtain rfl : dest = id := by
      rcases hten id e' h hf' hs' with ⟨x, hx, hxs⟩ | hnew
      · rw [← id_of_find? hd, ← id_of_find? hx, hp.intact.owner_unique hd hx hds hxs]
      · obtain ⟨i', hi', hlive⟩ := hp.intact.space_of_find? hd
        cases hds.symm.trans hi'
        cases hnew.symm.trans hlive
    exact ⟨source, w, htake, e, i, hf, hs, hi⟩

theorem unwritable_step (hp : Proper n k.envs k.memory) (ha : r.Allowed k) (hr : r.run k = .ok k')
    (hu : k.memory.frames.used f = true) (hu' : k'.memory.frames.used f = true)
    (hnone : ∀ h va, ¬k.memory.Writable h va f) :
    (∀ h va, ¬k'.memory.Writable h va f) ∧ k'.memory.frames.page f = k.memory.frames.page f := by
  obtain ⟨hatt, -⟩ := r.attenuates hp ha hr
  constructor
  · intro h va hw
    rcases hatt.writable h va f hu hw with hold | ⟨i, w, -, hold⟩
    · exact hnone h va hold
    · exact hnone i w hold
  · rcases hatt.page f hu hu' with hsame | ⟨h, va, hold⟩
    · exact hsame
    · exact absurd hold (hnone h va)

inductive Holding (f : FrameId) (k : Kernel) : Kernel → Prop
  | start : k.memory.frames.used f = true → Holding f k k
  | demand {k₁ k₂ : Kernel} (r : Demand) : Holding f k k₁ → r.Allowed k₁ → r.run k₁ = .ok k₂ →
      k₂.memory.frames.used f = true → Holding f k k₂

theorem Holding.used (h : Holding f k k') : k'.memory.frames.used f = true := by
  cases h with
  | start hu => exact hu
  | demand _ _ _ _ hu => exact hu

theorem Holding.reachable (hk : k.Reachable) (h : Holding f k k') : k'.Reachable := by
  induction h with
  | start => exact hk
  | demand r _ ha hr _ ih => exact .demand r ih ha hr

/-- In every single step, whoever comes to write to a frame in use is given its page by one who could write to it: the
source of the mapping, or the sender whose message it finds afterwards. In every run, a frame that nobody can write
to stays so, and keeps its bytes, for as long as it is in use. -/
theorem write_access_attenuates (f : FrameId) (hk : k.Reachable) :
    (∀ (r : Demand) k' id va, r.Allowed k → r.run k = .ok k' → k.memory.frames.used f = true → k'.CanWrite id va f →
        ¬k.CanWrite id va f →
        ∃ source srcva, r.Takes k k'.envs source srcva id (pageBase va) ∧ k.CanWrite source srcva f) ∧
      ∀ k', Holding f k k' → (∀ h va, ¬k.memory.Writable h va f) →
        (∀ h va, ¬k'.memory.Writable h va f) ∧ k'.memory.frames.page f = k.memory.frames.page f := by
  constructor
  · intro r k' id va ha hr hu hw hnot
    obtain ⟨n, hp⟩ := hk.proper
    exact hw.taken hp ha hr hu hnot
  · intro k' h hnone
    induction h with
    | start => exact ⟨hnone, rfl⟩
    | demand r hold ha hr hu ih =>
      obtain ⟨n, hp⟩ := (hold.reachable hk).proper
      obtain ⟨hstill, hpage⟩ := unwritable_step hp ha hr hold.used hu ih.1
      exact ⟨hstill, hpage.trans ih.2⟩

def sharingReady : Kernel :=
  [Demand.step (.load ⟨0x401⟩ 0x200000 (PageFlags.present ||| PageFlags.user)),
    .step (.load ⟨0x401⟩ 0x201000 (PageFlags.present ||| PageFlags.writable ||| PageFlags.user)),
    asking].foldl (fun k r => r.next k) pair

theorem reachable_sharingReady : sharingReady.Reachable := by
  have h₁ := reachable_pair.next (r := .step (.load ⟨0x401⟩ 0x200000 (PageFlags.present ||| PageFlags.user))) trivial
    (by decide +kernel)
  have h₂ := h₁.next (r := .step (.load ⟨0x401⟩ 0x201000
    (PageFlags.present ||| PageFlags.writable ||| PageFlags.user))) trivial (by decide +kernel)
  exact h₂.next (Option.isSome_iff_exists.mp (by decide +kernel)) (by decide +kernel)

def sharingDemand : Demand := .call .standard ⟨0⟩ ⟨0x401⟩ 12 #v[0x402, 7, 0x201000, 7, 0]

theorem write_access_attenuates_delivery :
    ((sharingDemand.next sharingReady).CanWrite ⟨0x402⟩ 0x300000 ⟨5⟩ ∧ ¬sharingReady.CanWrite ⟨0x402⟩ 0x300000 ⟨5⟩ ∧
      ∃ source srcva, sharingDemand.Takes sharingReady (sharingDemand.next sharingReady).envs source srcva ⟨0x402⟩
        (pageBase 0x300000) ∧ sharingReady.CanWrite source srcva ⟨5⟩) ∧
    sharingReady.memory.frames.used ⟨3⟩ = true ∧ (∀ h va, ¬sharingReady.memory.Writable h va ⟨3⟩) ∧
      (∀ h va, ¬(sharingDemand.next sharingReady).memory.Writable h va ⟨3⟩) ∧
      (sharingDemand.next sharingReady).memory.frames.page ⟨3⟩ = sharingReady.memory.frames.page ⟨3⟩ := by
  have ha : sharingDemand.Allowed sharingReady := Option.isSome_iff_exists.mp
    (show (sharingReady.envs.find? ⟨0x401⟩).isSome = true by decide +kernel)
  have hr := Demand.run_next (k := sharingReady) (r := sharingDemand) (by decide +kernel)
  have hgain : (sharingDemand.next sharingReady).CanWrite ⟨0x402⟩ 0x300000 ⟨5⟩ := by decide +kernel
  have hnot : ¬sharingReady.CanWrite ⟨0x402⟩ 0x300000 ⟨5⟩ := by decide +kernel
  have htaken := (write_access_attenuates ⟨5⟩ reachable_sharingReady).1 sharingDemand _ ⟨0x402⟩ 0x300000 ha hr
    (by decide +kernel) hgain hnot
  have hmaps : sharingReady.memory.mapsWritable ⟨3⟩ = false := by decide +kernel
  have hnone : ∀ h va, ¬sharingReady.memory.Writable h va ⟨3⟩ := fun h va hw =>
    Bool.false_ne_true (hmaps.symm.trans (Memory.mapsWritable_of_writable hw))
  have hold : Holding ⟨3⟩ sharingReady (sharingDemand.next sharingReady) :=
    (Holding.start (by decide +kernel)).demand sharingDemand ha hr (by decide +kernel)
  have hkept := (write_access_attenuates ⟨3⟩ reachable_sharingReady).2 _ hold hnone
  exact ⟨⟨hgain, hnot, htaken⟩, by decide +kernel, hnone, hkept⟩

end Kernel

end deeds

end Exokernel
