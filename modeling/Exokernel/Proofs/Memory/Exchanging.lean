import Exokernel.Proofs.Memory.Installing

/-!
# What a new mapping costs

A page that is mapped takes a reference to its frame, and a mapping that it replaces gives its own back. A span that had
no page-table page takes a frame for one. Whatever the page was before, the operation leaves memory changed.
-/

set_option autoImplicit false

namespace Exokernel

/-- Places that hold nothing do not count, nor does how many there are. -/
theorem tally_eq_of_join {α : Type} {g : Option α → Nat} (hg : g none = 0) {a b : Array (Option α)}
    (h : ∀ i : Nat, (a[i]?).join = (b[i]?).join) : tally g a = tally g b := by
  have hlist : ∀ l l' : List (Option α), (∀ i : Nat, (l[i]?).join = (l'[i]?).join) →
      (l.map g).sum = (l'.map g).sum := by
    intro l
    induction l with
    | nil =>
      intro l' h
      induction l' with
      | nil => rfl
      | cons x l' ih =>
        obtain rfl : none = x := h 0
        rw [List.map_cons, List.sum_cons, hg, Nat.zero_add]
        exact ih fun i => h (i + 1)
    | cons x l ih =>
      intro l' h
      cases l' with
      | nil =>
        obtain rfl : x = none := h 0
        rw [List.map_cons, List.sum_cons, hg, Nat.zero_add]
        exact ih [] fun i => h (i + 1)
      | cons y l' =>
        obtain rfl : x = y := h 0
        rw [List.map_cons, List.map_cons, List.sum_cons, List.sum_cons, ih l' fun i => h (i + 1)]
  exact hlist a.toList b.toList fun i => by simpa using h i

theorem PageTable.Covering.covers {p : FramePool} {va : Nat} {t t' : PageTable} (h : Covering p va t t') :
    t'.covers va = true := by
  cases h with
  | present hc => exact hc
  | extended _ _ => rw [covers_install, beq_self_eq_true, Bool.or_true]

theorem PageTable.count_unmap (t : PageTable) (va : Nat) (f : FrameId) :
    ((t.unmap va).1.toList.map Mapping.frame).count f + (t.unmap va).2.frames.count f = t.frames.count f := by
  rw [← List.count_append]
  exact frames_unmap.count_eq f

namespace Memory

variable {n : Nat} {m m' : Memory} {frame : FrameId} {h : Handle} {va : Nat} {flags : PageFlags}

theorem owed_congr (hs : ∀ i, m'.space? i = m.space? i) (f : FrameId) : m'.owed f = m.owed f :=
  tally_eq_of_join rfl fun i => hs ⟨i⟩

/-- The steps of a mapping that is done. -/
theorem insert_inv (hd : insert h frame va flags m = .done () m') : PageTable.validate va flags = .ok () ∧
    ∃ m₁ m₂ s replaced table, coverSpan h va m = .done () m₁ ∧ addRef frame m₁ = .done () m₂ ∧
      m₂.space? h = some s ∧ s.table.map va { frame, flags } = .ok (replaced, table) ∧
      m' = match replaced with
        | some old => ((m₂.setSpace h (some { s with table })).dropRef old.frame).invalidate
        | none => m₂.setSpace h (some { s with table }) := by
  rw [insert] at hd
  simp only [Action.state_bind] at hd
  split at hd
  · cases hd
  · cases hv : PageTable.validate va flags with
    | error e =>
      rw [hv, Action.mapError_ofExcept_error, Action.ofExcept_error_bind] at hd
      cases hd
    | ok u =>
      rw [hv, Action.mapError_ofExcept_ok, Action.ofExcept_ok_bind] at hd
      obtain ⟨_, m₁, hcover, hd⟩ := Action.bind_inv hd
      obtain ⟨_, m₂, hadd, hd⟩ := Action.bind_inv hd
      rw [Action.state_bind] at hd
      rcases space_cases m₂ h with ⟨s, hs, hok⟩ | ⟨-, herr⟩
      · rw [hok, Action.lift_ok_bind] at hd
        cases hmap : s.table.map va { frame, flags } with
        | error e =>
          rw [hmap] at hd
          cases hd
        | ok r =>
          obtain ⟨replaced, table⟩ := r
          rw [hmap] at hd
          cases hd
          exact ⟨rfl, m₁, m₂, s, replaced, table, hcover, hadd, hs, hmap, rfl⟩
      · rw [herr, Action.lift_error_bind] at hd
        cases hd

theorem insert_aligned (hd : insert h frame va flags m = .done () m') : pageBase va = va := by
  have ha := (PageTable.validate_ok (insert_inv hd).1).1
  exact pageBase_of_mod (by simpa [aligned] using ha)

theorem keeps_takeFrame {τ : Type} {φ : Memory → τ} (hφ : ∀ m p, φ { m with frames := p } = φ m) :
    Action.Keeps φ takeFrame := by
  intro m
  rw [takeFrame]
  split
  · exact hφ ..
  · exact hφ ..

theorem keeps_addRef {τ : Type} {φ : Memory → τ} (hφ : ∀ m p, φ { m with frames := p } = φ m) (f : FrameId) :
    Action.Keeps φ (addRef f) := by
  intro m
  rw [addRef]
  split
  · exact hφ ..
  · trivial

theorem keeps_coverSpan (h : Handle) (va : Nat) : Action.Keeps Memory.invalidations (coverSpan h va) := by
  refine Action.keeps_state_bind fun m => Action.keeps_bind (Action.keeps_ofExcept _) fun s => ?_
  refine Action.keeps_ite (Action.keeps_pure ()) ?_
  refine Action.keeps_bind (keeps_takeFrame fun _ _ => rfl) fun table => ?_
  exact Action.keeps_bind (keeps_addRef (fun _ _ => rfl) table) fun _ => Action.keeps_modify fun _ => rfl

structure Exchanged (m m' : Memory) (h : Handle) (va : Nat) (frame : FrameId) (taken : Option FrameId) : Prop where
  charged : taken = none ↔ m.covered h va = true
  fresh : ∀ f, taken = some f → m.frames.used f = false
  refs : ∀ f, m'.refs f + ((m.mapping? h va).toList.map Mapping.frame).count f =
    m.refs f + [frame].count f + taken.toList.count f
  invalidated : m'.invalidations = m.invalidations + (m.mapping? h va).toList.length

theorem covering_frames {p : FramePool} {t t' : PageTable} (hc : PageTable.Covering p va t t') (ht : t.Sound)
    (hva : va < utop) : ∃ taken : Option FrameId, (taken = none ↔ t.covers va = true) ∧
      (∀ f, taken = some f → p.used f = false) ∧ t'.frames.Perm (taken.toList ++ t.frames) ∧ t'.Sound ∧
        t'.entries = t.entries := by
  cases hc with
  | present hc => exact ⟨none, by simp [hc], by simp, List.Perm.refl _, ht, rfl⟩
  | @extended f hc hu =>
    refine ⟨some f, by simp [hc], fun g hg => ?_, PageTable.frames_install hc, ht.install hva f, rfl⟩
    rw [← Option.some.inj hg]
    exact hu

/-- Where a single space is edited, the counts follow what it refers to. -/
theorem refs_edited {s s' : Space} {loose loose' : FrameId → Prop} (hb : Balanced n m [] loose)
    (hb' : Balanced n m' [] loose') (hs : m.space? h = some s) (hs' : m'.space? h = some s')
    (hothers : ∀ i, i ≠ h → m'.space? i = m.space? i) (f : FrameId) :
    m'.refs f + s.refs.count f = m.refs f + s'.refs.count f := by
  have hset := owed_setSpace (b := some s') (getElem?_of_space? hs) f
  have howed : m'.owed f = (m.setSpace h (some s')).owed f := by
    refine owed_congr (fun i => ?_) f
    by_cases hi : i = h
    · rw [hi, hs', space?_setSpace_self (getElem?_of_space? hs)]
    · rw [space?_setSpace_of_ne hi, hothers i hi]
  have hnow := hb'.refs_eq f
  have hthen := hb.refs_eq f
  simp only [refsOf, List.count_nil] at *
  omega

theorem insert_exchanges {loose : FrameId → Prop} (hb : Balanced n m [] loose) (hc : m.frames.Clear)
    (hd : insert h frame va flags m = .done () m') : ∃ taken, Exchanged m m' h va frame taken := by
  have hb' := ((balanced_insert_any hb).of_done hd).1
  obtain ⟨hv, m₁, m₂, s₂, replaced, table, hcover, hadd, hs₂, hmap, hm'⟩ := insert_inv hd
  have hva := (PageTable.validate_ok hv).2
  have hbase := insert_aligned hd
  -- The space that is edited is the one from before, but for a page-table page.
  obtain ⟨hothers, ⟨s, t₁, hs, hs₁, hcov, -⟩, -, -⟩ := (coverSpan_retables h va hb.pool hc).of_done hcover
  have hsame : ∀ i, m₂.space? i = m₁.space? i := fun i =>
    (keeps_addRef (φ := fun m => m.space? i) (fun _ _ => rfl) frame).done hadd
  obtain rfl : ({ s with table := t₁ } : Space) = s₂ := Option.some.inj (hs₁.symm.trans ((hsame h).symm.trans hs₂))
  obtain ⟨taken, hcharged, hfresh, hperm₁, ht₁, hentries⟩ := covering_frames hcov (hb.tables h s hs) hva
  have hreplaced : m.mapping? h va = replaced := by
    rw [map_of_covers hv hcov.covers] at hmap
    rw [mapping?_of_space? hs, PageTable.lookup, hbase, ← hentries]
    exact congrArg Prod.fst (Except.ok.inj hmap)
  have hspaces : ∀ i, m'.space? i = (m₂.setSpace h (some { s with table })).space? i := fun i => by
    rw [hm']
    cases replaced with
    | none => rfl
    | some old => rfl
  refine ⟨taken, by rw [covered_of_space? hs, hcharged], hfresh, fun f => ?_, ?_⟩
  · have hedited := refs_edited hb hb' hs ((hspaces h).trans (space?_setSpace_self (getElem?_of_space? hs₂)))
      (fun i hi => by rw [hspaces, space?_setSpace_of_ne hi, hsame, hothers i hi]) f
    have hcount₁ := hperm₁.count_eq f
    have hcount₂ := (PageTable.map_ok ht₁ hmap).2.count_eq f
    rw [hreplaced]
    simp only [Space.refs, List.count_cons, List.count_append, List.count_nil] at *
    omega
  · have hkept₁ : m₁.invalidations = m.invalidations := (keeps_coverSpan h va).done hcover
    have hkept₂ : m₂.invalidations = m₁.invalidations := (keeps_addRef (fun _ _ => rfl) frame).done hadd
    rw [hreplaced, ← hkept₁, ← hkept₂, hm']
    cases replaced with
    | none => rfl
    | some old => rfl

theorem remove_inv {r : Option Mapping} (hd : remove h va m = .done r m') : ∃ s, m.space? h = some s ∧
    m' = match (s.table.unmap va).1 with
      | some old => ((m.setSpace h (some { s with table := (s.table.unmap va).2 })).dropRef old.frame).invalidate
      | none => m.setSpace h (some { s with table := (s.table.unmap va).2 }) := by
  rw [remove, Action.state_bind] at hd
  rcases space_cases m h with ⟨s, hs, hok⟩ | ⟨-, herr⟩
  · rw [hok, Action.lift_ok_bind] at hd
    cases hd
    exact ⟨s, hs, rfl⟩
  · rw [herr, Action.lift_error_bind] at hd
    cases hd

/-- A page that is unmapped gives the reference to its frame back. -/
theorem remove_refs {r : Option Mapping} (hb : Settled n m) (hd : remove h va m = .done r m') (f : FrameId) :
    m'.refs f + ((m.mapping? h va).toList.map Mapping.frame).count f = m.refs f := by
  have hb' := (balanced_remove hb).of_done hd
  obtain ⟨s, hs, hm'⟩ := remove_inv hd
  have hspaces : ∀ i, m'.space? i = (m.setSpace h (some { s with table := (s.table.unmap va).2 })).space? i := by
    intro i
    rw [hm']
    cases (s.table.unmap va).1 with
    | none => rfl
    | some old => rfl
  have hedited := refs_edited hb hb'.1 hs ((hspaces h).trans (space?_setSpace_self (getElem?_of_space? hs)))
    (fun i hi => by rw [hspaces, space?_setSpace_of_ne hi]) f
  have hcount := PageTable.count_unmap s.table va f
  have hone : (s.table.unmap va).1 = m.mapping? h va := (mapping?_of_space? hs va).symm
  rw [hone] at hcount
  simp only [Space.refs, List.count_cons] at *
  omega

theorem insert_not_spent {m₀ : Memory} (hb : Settled n m₀) (hc : m₀.frames.Clear) (hs : m₀.Spent m)
    (hs' : m₀.Spent m') : insert h frame va flags m ≠ .done () m' := by
  intro hd
  have hc' := hs.clear hc
  obtain ⟨taken, hex⟩ := insert_exchanges (hs.settled hb) hc' hd
  have hbase := insert_aligned hd
  have hmapping := (insert_installs (hs.settled hb).pool hc' hd).mapping h va
  rw [if_pos ⟨rfl, hbase⟩, hs'.mapping?, ← hs.mapping?] at hmapping
  have hinval := hex.invalidated
  rw [hmapping, hs.invalidations, hs'.invalidations] at hinval
  simp at hinval

end Memory

end Exokernel
