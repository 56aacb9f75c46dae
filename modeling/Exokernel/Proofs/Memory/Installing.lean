import Exokernel.Proofs.Memory.Supply

/-!
# What a new mapping changes

A page that is mapped is entered into the page table of its space, which may first get a page-table page for the span.
The root of the space, the other spaces and the frames in use stay as they are.
-/

set_option autoImplicit false

namespace Exokernel

inductive PageTable.Covering (p : FramePool) (va : Nat) (t : PageTable) : PageTable → Prop
  | present : t.covers va = true → Covering p va t t
  | extended {f : FrameId} : t.covers va = false → p.used f = false → Covering p va t (t.install va f)

namespace Memory

variable {n : Nat} {m m' m'' : Memory} {frame : FrameId} {h : Handle} {va : Nat} {flags : PageFlags} {new : Mapping}
  {R : PageTable → PageTable → Prop}

structure Retabled (m m' : Memory) (h : Handle) (R : PageTable → PageTable → Prop) : Prop where
  others : ∀ i, i ≠ h → m'.space? i = m.space? i
  own : ∃ s table, m.space? h = some s ∧ m'.space? h = some { s with table } ∧ R s.table table
  denyNext : m'.frames.denyNext = m.frames.denyNext
  denyNextMap : m'.denyNextMap = m.denyNextMap

theorem Retabled.trans {R' : PageTable → PageTable → Prop} (h₁ : Retabled m m' h R) (h₂ : Retabled m' m'' h R') :
    Retabled m m'' h fun t t'' => ∃ t', R t t' ∧ R' t' t'' := by
  obtain ⟨s, t, hs, hs', ht⟩ := h₁.own
  obtain ⟨s', t', hs₁, hs'', ht'⟩ := h₂.own
  cases hs'.symm.trans hs₁
  exact ⟨fun i hi => (h₂.others i hi).trans (h₁.others i hi), ⟨s, t', hs, hs'', t, ht, ht'⟩,
    h₂.denyNext.trans h₁.denyNext, h₂.denyNextMap.trans h₁.denyNextMap⟩

theorem Retabled.mono {R' : PageTable → PageTable → Prop} (hr : Retabled m m' h R) (hR : ∀ t t', R t t' → R' t t') :
    Retabled m m' h R' :=
  ⟨hr.others, hr.own.imp fun _ ⟨t, hs, hs', ht⟩ => ⟨t, hs, hs', hR _ _ ht⟩, hr.denyNext, hr.denyNextMap⟩

theorem retabled_setSpace {s : Space} {table : PageTable} (hs : m.space? h = some s) (ht : R s.table table) :
    Retabled m (m.setSpace h (some { s with table })) h R :=
  ⟨fun _ hi => space?_setSpace_of_ne hi, ⟨s, table, hs, space?_setSpace_self (getElem?_of_space? hs), ht⟩, rfl, rfl⟩

theorem Retabled.frames (hr : Retabled m m' h R) (hs : m''.spaces = m'.spaces)
    (hd : m''.frames.denyNext = m'.frames.denyNext) (hm : m''.denyNextMap = m'.denyNextMap) :
    Retabled m m'' h R := by
  have hsame : ∀ i, m''.space? i = m'.space? i := fun i => by simp only [space?, hs]
  obtain ⟨s, t, hs₀, hs', ht⟩ := hr.own
  exact ⟨fun i hi => (hsame i).trans (hr.others i hi), ⟨s, t, hs₀, (hsame h).trans hs', ht⟩, hd.trans hr.denyNext,
    hm.trans hr.denyNextMap⟩

theorem addRef_keeps (f : FrameId) (m : Memory) :
    (addRef f m).Meets
      (fun _ m' => m'.spaces = m.spaces ∧ m'.frames.denyNext = m.frames.denyNext ∧ m'.denyNextMap = m.denyNextMap)
      (fun _ _ => True) (fun _ => True) := by
  rw [addRef]
  cases hr : m.frames.retain f with
  | error p => trivial
  | ok q => exact ⟨rfl, (FramePool.retain_free hr).2, rfl⟩

theorem coverSpan_retables (h : Handle) (va : Nat) (hb : m.frames.Sound n) (hc : m.frames.Clear) :
    (coverSpan h va m).Meets
      (fun _ m' => Retabled m m' h fun t t' => PageTable.Covering m.frames va t t' ∧ t'.covers va = true)
      (fun _ _ => True) (fun _ => True) := by
  rw [coverSpan]
  rcases space_cases m h with ⟨s, hs, hok⟩ | ⟨-, herr⟩
  · simp only [Action.state_bind, hok, Action.lift_ok_bind]
    cases hcover : s.table.covers va with
    | true =>
      simp only [if_true]
      exact ⟨fun _ _ => rfl, ⟨s, s.table, hs, hs, .present hcover, hcover⟩, rfl, rfl⟩
    | false =>
      simp only [Bool.false_eq_true, if_false]
      refine Action.meets_bind ((takeFrame_effect hb hc).mono (fun _ _ h => h) (fun _ _ _ => trivial)
        fun _ _ => trivial) fun table m₁ h₁ => ?_
      obtain ⟨ha, he₁, hc₁, -, hu⟩ := h₁
      have hd₁ : m₁.frames.denyNext = m.frames.denyNext := by
        obtain ⟨-, rest, -, hq⟩ := FramePool.alloc_eq ha
        rw [hq]
        rfl
      refine Action.meets_bind (addRef_keeps table m₁) fun _ m₂ h₂ => ?_
      obtain ⟨hspaces, hd₂, hm₂⟩ := h₂
      have hspaces₂ : m₂.spaces = m.spaces := by rw [hspaces, he₁]
      have hs₂ : m₂.space? h = some s := by
        rw [space?, hspaces₂]
        exact hs
      have hsame : Retabled m m₂ h Eq :=
        ⟨fun i _ => by rw [space?, space?, hspaces₂], ⟨s, s.table, hs, hs₂, rfl⟩, hd₂.trans hd₁, by rw [hm₂, he₁]⟩
      refine (hsame.trans (retabled_setSpace hs₂
        (R := fun t t' => t = s.table ∧ t' = s.table.install va table) ⟨rfl, rfl⟩)).mono ?_
      rintro _ _ ⟨_, rfl, rfl, rfl⟩
      exact ⟨.extended hcover hu, by simp [PageTable.covers, PageTable.install, Ascending.has]⟩
  · simp only [Action.state_bind, herr, Action.lift_error_bind]
    trivial

def Entered (p : FramePool) (va : Nat) (new : Mapping) (t t' : PageTable) : Prop :=
  ∃ t₁, PageTable.Covering p va t t₁ ∧ t' = { t₁ with entries := Ascending.insert va new t₁.entries }

structure Installed (m m' : Memory) (h : Handle) (va : Nat) (new : Mapping) : Prop
    extends Remapped m m' h va (some new) where
  retabled : Retabled m m' h (Entered m.frames va new)

theorem insert_installs (hb : m.frames.Sound n) (hc : m.frames.Clear)
    (hd : insert h frame va flags m = .done () m') : Installed m m' h va { frame, flags } := by
  refine ⟨(insert_effect h frame va flags hb hc).of_done hd, ?_⟩
  have hretables : (insert h frame va flags m).Meets
      (fun _ m' => Retabled m m' h (Entered m.frames va { frame, flags })) (fun _ _ => True) (fun _ => True) := by
    rw [insert]
    simp only [Action.state_bind]
    split
    · trivial
    · cases hv : PageTable.validate va flags with
      | error e =>
        simp only [Action.mapError_ofExcept_error, Action.ofExcept_error_bind]
        trivial
      | ok u =>
        simp only [Action.mapError_ofExcept_ok, Action.ofExcept_ok_bind]
        refine Action.meets_bind (coverSpan_retables h va hb hc) fun _ m₁ h₁ => ?_
        refine Action.meets_bind (addRef_keeps frame m₁) fun _ m₂ hkeeps => ?_
        obtain ⟨hspaces, hd₂, hm₂⟩ := hkeeps
        have h₂ := h₁.frames hspaces hd₂ hm₂
        obtain ⟨s, table, -, hs₂, -, hcover⟩ := h₂.own
        simp only [Action.state_bind, space, hs₂, Action.lift_ok_bind, map_of_covers hv hcover]
        have h₃ : Retabled m _ h (Entered m.frames va { frame, flags }) := (h₂.trans (retabled_setSpace hs₂
          (R := fun t t' => t' = { t with entries := Ascending.insert va { frame, flags } t.entries }) rfl)).mono
            fun _ _ hinsert => hinsert.imp fun _ h => ⟨h.1.1, h.2⟩
        cases Ascending.find? va table.entries with
        | none => exact h₃
        | some old => exact h₃.frames rfl FramePool.release_free.2 rfl
  exact hretables.of_done hd

end Memory

end Exokernel
