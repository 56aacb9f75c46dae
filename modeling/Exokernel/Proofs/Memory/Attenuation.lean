import Exokernel.Proofs.Memory.Effects

/-!
# Who may write to a frame

While a frame is in use its bytes change through writable mappings only. A mapping of it that becomes writable is
shared from one that is writable already. Every operation on memory keeps to this; those that map a page are told
from which place to which they may share it.
-/

set_option autoImplicit false

namespace Exokernel.Memory

variable {n : Nat} {m m' m'' : Memory} {f : FrameId} {h : Handle} {va : Nat}
  {S S' : Handle → Nat → Handle → Nat → Prop} {new : Option Mapping}

structure Attenuates (S : Handle → Nat → Handle → Nat → Prop) (m m' : Memory) : Prop where
  page : ∀ f, m.frames.used f = true → m'.frames.used f = true →
    m'.frames.page f = m.frames.page f ∨ ∃ h va, m.Writable h va f
  writable : ∀ h va f, m.frames.used f = true → m'.Writable h va f →
    m.Writable h va f ∨ ∃ i w, S i w h (pageBase va) ∧ m.Writable i w f

theorem Attenuates.mono (h : Attenuates S m m') (hS : ∀ i w j v, S i w j v → S' i w j v) : Attenuates S' m m' := by
  refine ⟨h.page, fun i w f hu hw => (h.writable i w f hu hw).imp_right ?_⟩
  rintro ⟨j, v, hs, hj⟩
  exact ⟨j, v, hS j v _ _ hs, hj⟩

theorem attenuates_of_fewer
    (hpage : ∀ f, m.frames.used f = true → m'.frames.used f = true →
      m'.frames.page f = m.frames.page f ∨ ∃ h va, m.Writable h va f)
    (hmap : ∀ i w e, m'.mapping? i w = some e → m.mapping? i w = some e) : Attenuates S m m' := by
  refine ⟨hpage, fun i w f _ hw => .inl ?_⟩
  obtain ⟨e, he, hf, hflags⟩ := hw
  exact ⟨e, hmap i w e he, hf, hflags⟩

theorem Steady.attenuates (hs : Steady m m') (hmap : ∀ i w e, m'.mapping? i w = some e → m.mapping? i w = some e) :
    Attenuates S m m' := attenuates_of_fewer (fun _ hu hu' => .inl (hs.page hu hu')) hmap

theorem Spent.attenuates (hs : Spent m m') : Attenuates S m m' :=
  hs.steady.attenuates fun i w _ he => (hs.mapping? i w).symm.trans he

theorem attenuates_armed (deny denyMap : Bool) : Attenuates S m (m.armed deny denyMap) :=
  attenuates_of_fewer (fun _ _ _ => .inl rfl) fun _ _ _ he => he

theorem Stored.attenuates (hs : Stored m m' h) : Attenuates S m m' := by
  refine attenuates_of_fewer (fun f _ _ => (hs.page f).imp_right fun ⟨w, hw⟩ => ⟨h, w, hw⟩) fun i w _ he => ?_
  exact (mapping?_of_spaces hs.spaces i w).symm.trans he

theorem attenuates_create (hb : Settled n m) (hc : m.frames.Clear) (hd : create m = .done h m') :
    Attenuates S m m' := by
  obtain ⟨hmap, hgrown, -⟩ := (create_effect hb.pool hc).of_done hd
  exact (steady_of_grown hgrown).attenuates fun i w _ he => (hmap i w).symm.trans he

theorem Stored.attenuates_destroy {i : Handle} (hs : Stored m m' h) (hd : destroy i m' = .done () m'') :
    Attenuates S m m'' := by
  obtain ⟨hmap, hshrunk, -⟩ := (destroy_effect i hs.clear).of_done hd
  refine attenuates_of_fewer (fun f _ hu => ?_) fun j w e he => ?_
  · rw [(hshrunk f hu).2]
    exact (hs.page f).imp_right fun ⟨w, hw⟩ => ⟨h, w, hw⟩
  · rw [hmap] at he
    split at he
    · cases he
    · exact (mapping?_of_spaces hs.spaces j w).symm.trans he

theorem attenuates_destroy (hc : m.frames.Clear) (hd : destroy h m = .done () m') : Attenuates S m m' :=
  (stored_refl (h := h) hc).attenuates_destroy hd

theorem Remapped.attenuates (hr : Remapped m m' h va new)
    (hnew : ∀ e, new = some e → m.frames.used e.frame = true → e.flags.contains PageFlags.writable = true →
      ∃ i w, S i w h va ∧ m.Writable i w e.frame) : Attenuates S m m' := by
  refine ⟨fun f hu hu' => .inl (hr.steady.page hu hu'), fun i w f hu hw => ?_⟩
  obtain ⟨e, he, rfl, hflags⟩ := hw
  rw [hr.mapping] at he
  split at he
  · next hi =>
    rw [hi.1, hi.2]
    exact .inr (hnew e he hu hflags)
  · exact .inl ⟨e, he, rfl, hflags⟩

theorem attenuates_allocPage {flags : PageFlags} (hb : Settled n m) (hc : m.frames.Clear)
    (hd : allocPage h va flags m = .done () m') : Attenuates S m m' := by
  obtain ⟨frame, hu, hr⟩ := (allocPage_effect h va flags hb hc).of_done hd
  refine hr.attenuates fun e he hused => ?_
  cases he
  cases hu.symm.trans hused

theorem mapping?_of_not_live (hl : m.isLive h = false) : m.mapping? h va = none := by
  have hs : m.space? h = none := by simpa [isLive] using hl
  simp [mapping?, hs]

section decisions

instance : Decidable (m.Writable h va f) :=
  decidable_of_iff ((m.mapping? h va).any (fun e => e.frame == f && e.flags.contains PageFlags.writable) = true) (by
    rw [Option.any_eq_true]
    simp only [Bool.and_eq_true, beq_iff_eq]
    exact Iff.rfl)

def mapsWritable (m : Memory) (f : FrameId) : Bool :=
  m.spaces.any fun s => s.any fun s => s.table.entries.values.any fun e =>
    e.frame == f && e.flags.contains PageFlags.writable

theorem mapsWritable_of_writable (hw : m.Writable h va f) : m.mapsWritable f = true := by
  obtain ⟨e, he, hf, hflags⟩ := hw
  obtain ⟨s, hs, hl⟩ := Option.bind_eq_some_iff.mp he
  have hmem : e ∈ s.table.entries.values := List.mem_map_of_mem (Ascending.mem_of_find? hl)
  have hspace : some s ∈ m.spaces := Array.mem_of_getElem? (getElem?_of_space? hs)
  rw [mapsWritable, Array.any_eq_true']
  refine ⟨some s, hspace, ?_⟩
  rw [Option.any_some, List.any_eq_true]
  exact ⟨e, hmem, by simp [hf, hflags]⟩

end decisions

end Exokernel.Memory
