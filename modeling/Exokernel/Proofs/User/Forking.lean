import Exokernel.Proofs.User.Cloning

/-!
# Clones of a program

Before a program is cloned it gets a handler and an exception page, and its child gets a space, an exception page and an
upcall. Then the pages are visited, and last the child may run. What comes back as an error has left either no trace but
registers, or the child as it was made: whatever fails after that, nobody takes it away again.
-/

set_option autoImplicit false

namespace Exokernel

open Env (Id Status)
open Env.Table

namespace Memory

variable {had : Prop} {n : Nat} {m m₁ m₂ m' : Memory} {h hc i : Handle} {frame : FrameId} {flags : PageFlags} {w : Nat}
  {e : Mapping}

theorem view_of_created (hb : Settled n m) (hc : m.frames.Clear) (hd : create m = .done i m') (w : Nat) :
    m'.view h w = m.view h w := by
  obtain ⟨hmap, hgrown, -⟩ := (create_effect hb.pool hc).of_done hd
  cases hw : m.mapping? h w with
  | none => rw [view_of_unmapped hw, view_of_unmapped ((hmap h w).trans hw)]
  | some e => exact view_of_frame hw ((hmap h w).trans hw) (hgrown _ (hb.used_of_mapping? hw)).2

inductive Stacked (had : Prop) (m : Memory) (h : Handle) : Memory → Prop
  | already : had → Stacked had m h m
  | fresh {m' : Memory} {frame : FrameId} : m.frames.used frame = false →
      Remapped m m' h exceptionPage (some ⟨frame, Program.dataPage⟩) → Stacked had m h m'

theorem Stacked.off (hst : Stacked had m h m₁) (hb : Settled n m) (hb₁ : Settled n m₁)
    (hw : pageBase w ≠ exceptionPage) : m₁.mapping? h w = m.mapping? h w ∧ m₁.view h w = m.view h w := by
  cases hst with
  | already => exact ⟨rfl, rfl⟩
  | fresh _ hr =>
    have hnot : ¬(h = h ∧ pageBase w = exceptionPage) := fun h' => hw h'.2
    exact ⟨(hr.mapping h w).trans (if_neg hnot), hr.view hb hb₁ hnot⟩

structure Prepared (had : Prop) (m m' : Memory) (h hc : Handle) : Prop where
  parent : ∀ w, pageBase w ≠ exceptionPage → m'.mapping? h w = m.mapping? h w
  shown : ∀ w, pageBase w ≠ exceptionPage → m'.view h w = m.view h w
  child : ∀ w, pageBase w ≠ exceptionPage → m'.mapping? hc w = none
  stack : (had ∧ m'.mapping? h exceptionPage = m.mapping? h exceptionPage) ∨
    ∃ frame, m'.mapping? h exceptionPage = some ⟨frame, Program.dataPage⟩ ∧
      ∀ w e, pageBase w ≠ exceptionPage → m'.mapping? h w = some e → e.frame ≠ frame
  childStack : ∃ frame, m'.mapping? hc exceptionPage = some ⟨frame, Program.dataPage⟩ ∧
    ∀ w e, m'.mapping? h w = some e → e.frame ≠ frame

theorem Stacked.prepared (hst : Stacked had m h m₁) (hb : Settled n m) (hb₁ : Settled n m₁) (hb₂ : Settled n m₂)
    (hb' : Settled n m') (hclear : m₁.frames.Clear) (hl : m₁.isLive h = true) (hd : create m₁ = .done hc m₂)
    (hfree : m₂.frames.used frame = false)
    (hr : Remapped m₂ m' hc exceptionPage (some ⟨frame, Program.dataPage⟩)) : Prepared had m m' h hc ∧ h ≠ hc := by
  obtain ⟨-, hnew, -⟩ := (balanced_create hb₁).of_done hd
  obtain ⟨hmap, -⟩ := (create_effect hb₁.pool hclear).of_done hd
  have hne : h ≠ hc := by
    rintro rfl
    rw [hl] at hnew
    cases hnew
  have hother : ∀ w, ¬(h = hc ∧ pageBase w = exceptionPage) := fun w h' => hne h'.1
  have hparent : ∀ w, m'.mapping? h w = m₁.mapping? h w := fun w => by rw [hr.mapping, if_neg (hother w), hmap]
  refine ⟨⟨fun w hw => (hparent w).trans (hst.off hb hb₁ hw).1, fun w hw => ?_, fun w hw => ?_, ?_, frame, ?_, ?_⟩, hne⟩
  · rw [hr.view hb₂ hb' (hother w), view_of_created hb₁ hclear hd]
    exact (hst.off hb hb₁ hw).2
  · rw [hr.mapping, if_neg fun h' => hw h'.2, hmap]
    cases he : m₁.mapping? hc w with
    | none => rfl
    | some e =>
      rw [isLive_of_mapping he] at hnew
      cases hnew
  · rw [hparent]
    cases hst with
    | already hhad => exact .inl ⟨hhad, rfl⟩
    | @fresh _ frame hunused hr₁ =>
      refine .inr ⟨frame, ?_, fun w e hw he => ?_⟩
      · rw [hr₁.mapping, if_pos ⟨rfl, pageBase_exceptionPage⟩]
      · rintro rfl
        rw [hparent, hr₁.mapping, if_neg fun h' => hw h'.2] at he
        rw [hb.used_of_mapping? he] at hunused
        cases hunused
  · rw [hr.mapping, if_pos ⟨rfl, pageBase_exceptionPage⟩]
  · rintro w e he rfl
    rw [hparent, ← hmap] at he
    rw [hb₂.used_of_mapping? he] at hfree
    cases hfree

end Memory

namespace Simulation.Machine

open Memory

variable {n : Nat} {cpu : Cpu} {id target child : Env.Id} {h hc : Handle} {m m' : Machine} {entry : Word} {e : Env}
  {R : Env.Id → Option Env} {H : List (Env.Id × Handler)} {cf pf : Nat → PageFlags → PageFlags}

structure Altered (n : Nat) (id : Env.Id) (f : Env → Env) (m m' : Machine) : Prop where
  proper : Proper n m'.kernel.envs m'.kernel.memory
  records : m'.kernel.envs.records = Function.update m.kernel.envs.records id ((m.kernel.envs.records id).map f)
  memory : m'.kernel.memory = m.kernel.memory
  handlers : m'.handlers = m.handlers

theorem Altered.stands {f : Env → Env} {r : Env} (ha : Altered n child f m m')
    (hst : m.Stands (Function.update R child (some r)) H) : m'.Stands (Function.update R child (some (f r))) H := by
  refine ⟨?_, ha.handlers.trans hst.handlers⟩
  rw [ha.records, hst.records, Function.update_self, Function.update_idem]
  rfl

section alterations

variable (hp : Proper n m.kernel.envs m.kernel.memory) (hst : m.Stands R H)
include hp hst

theorem yields_setUpcall : Yields cpu id (Program.perform (.setUpcall target entry)).run m (either
    (fun _ m' => Altered n (if target.isSelf then id else target) (fun e => { e with upcall := entry }) m m')
    fun _ m' => m'.Stands R H) := by
  refine yields_valueless hp rfl (fun t t₁ m' ht hpt hx ht₁ hh hp' => ?_) fun _ m' hb _ => hb.stands hst
  obtain ⟨hm, e, hl, rfl⟩ := hx.of_setUpcall
  refine ⟨hp', ?_, hm, hh⟩
  rw [(lookup_resolved hl).1, ht₁, ← ht]
  exact records_update (fun _ _ => rfl) fun _ => rfl

theorem yields_setRunnable : Yields cpu id (Program.perform (.setStatus target .runnable)).run m (either
    (fun _ m' => Altered n (if target.isSelf then id else target)
      (fun e => { e with status := .runnable, cpu := none }) m m')
    fun _ m' => m'.Stands R H) := by
  refine yields_valueless hp rfl (fun t t₁ m' ht hpt hx ht₁ hh hp' => ?_) fun _ m' hb _ => hb.stands hst
  obtain ⟨hm, e, hl, rfl⟩ := hx.of_setStatus (by decide)
  refine ⟨hp', ?_, hm, hh⟩
  rw [(lookup_resolved hl).1, ht₁, ← ht]
  exact records_update (fun e hf => Env.title_of_live rfl rfl rfl (by simp) hf) fun _ => rfl

end alterations

structure Installed (n : Nat) (id : Env.Id) (h : Handle) (m m' : Machine) : Prop where
  proper : Proper n m'.kernel.envs m'.kernel.memory
  handlers : m'.handlers = set id .copyOnWrite m.handlers
  stacked : Stacked (m.handlers.lookup id ≠ none) m.kernel.memory h m'.kernel.memory
  owner : ∃ r, m'.kernel.envs.records id = some r ∧ r.space = some h ∧
    (r.upcall = UInt64.ofNat upcallEntry ∨ m.handlers.lookup id ≠ none ∧ m.kernel.envs.records id = some r)
  others : ∀ j, j ≠ id → m'.kernel.envs.records j = m.kernel.envs.records j

theorem yields_installHandler (hp : Proper n m.kernel.envs m.kernel.memory) (hf : m.kernel.envs.find? id = some e)
    (hs : e.space = some h) : Yields cpu id (Program.installHandler .copyOnWrite).run m (either
      (fun _ m' => Installed n id h m m')
      fun _ m' => m.handlers.lookup id = none ∧ m'.Stands m.kernel.envs.records m.handlers) := by
  have hst : m.Stands m.kernel.envs.records m.handlers := ⟨rfl, rfl⟩
  have hself : Reaches m.kernel.envs.records id .self h := ⟨bare e, records_of_find? hf, hs⟩
  refine Yields.bind_part (Yields.lift (costs_getHandler.yields (Q := fun old m₁ => m₁ = m ∧
    old = m.handlers.lookup id) ⟨rfl, rfl⟩)) ?_
  rintro old m₁ ⟨rfl, rfl⟩
  cases hold : m₁.handlers.lookup id with
  | some old =>
    have hhad : m₁.handlers.lookup id ≠ none := by
      rw [hold]
      exact Option.some_ne_none old
    refine Yields.lift (yields_setHandler ⟨hp, rfl, .already hhad, ?_, fun _ _ => rfl⟩)
    exact ⟨bare e, records_of_find? hf, hs, .inr ⟨hhad, records_of_find? hf⟩⟩
  | none =>
    refine Yields.bind_part ((yields_allocPage hp hst hself).mono_error fun _ _ h => ⟨rfl, h⟩)
      fun _ m₂ ⟨hedit, frame, hfree, hr⟩ => ?_
    refine Yields.bind_part ((yields_setUpcall hedit.proper (hedit.stands hst)).mono_error fun _ _ h => ⟨rfl, h⟩)
      fun _ m₃ halt => ?_
    have hrecords : m₃.kernel.envs.records = Function.update m₁.kernel.envs.records id
        (some { bare e with upcall := UInt64.ofNat upcallEntry }) := by
      have h := halt.records
      rw [hedit.records, show (if Env.Id.self.isSelf then id else Env.Id.self) = id from rfl, records_of_find? hf] at h
      exact h
    refine Yields.lift (yields_setHandler ⟨halt.proper, ?_, ?_, ?_, fun j hj => ?_⟩)
    · show set id .copyOnWrite m₃.handlers = _
      rw [halt.handlers, hedit.handlers]
    · show Stacked _ _ _ m₃.kernel.memory
      rw [halt.memory]
      exact .fresh hfree hr
    · refine ⟨{ bare e with upcall := UInt64.ofNat upcallEntry }, ?_, hs, .inl rfl⟩
      show m₃.kernel.envs.records id = _
      rw [hrecords, Function.update_self]
    · show m₃.kernel.envs.records j = _
      rw [hrecords, Function.update_of_ne hj]

theorem lookup_set {α : Type} (id : Env.Id) (a : α) (l : List (Env.Id × α)) : (set id a l).lookup id = some a := by
  rw [set, List.lookup_cons, beq_self_eq_true]

theorem lookup_set_of_ne {α : Type} {id j : Env.Id} (a : α) (l : List (Env.Id × α)) (hj : j ≠ id) :
    (set id a l).lookup j = l.lookup j := by
  rw [set, List.lookup_cons, beq_eq_false_iff_ne.mpr hj]
  show (l.filter fun p => p.1 != id).lookup j = l.lookup j
  induction l with
  | nil => rfl
  | cons p l ih =>
    by_cases hp : p.1 = id
    · rw [List.filter_cons_of_neg (by simp [hp]), ih, List.lookup_cons, hp, beq_eq_false_iff_ne.mpr hj]
    · rw [List.filter_cons_of_pos (by simp [hp]), List.lookup_cons, List.lookup_cons, ih]

structure Offspring (n : Nat) (id child : Env.Id) (h hc : Handle) (cf pf : Nat → PageFlags → PageFlags)
    (m m' : Machine) : Prop where
  proper : Proper n m'.kernel.envs m'.kernel.memory
  handlers : m'.handlers = set id .copyOnWrite m.handlers
  other : child ≠ id
  apart : h ≠ hc
  owner : ∃ r, m'.kernel.envs.records id = some r ∧ r.space = some h ∧
    (r.upcall = UInt64.ofNat upcallEntry ∨ m.handlers.lookup id ≠ none ∧ m.kernel.envs.records id = some r)
  born : ∃ r, m'.kernel.envs.records child = some r ∧ r.space = some hc ∧ r.upcall = UInt64.ofNat upcallEntry
  pages : ∃ memory, Prepared (m.handlers.lookup id ≠ none) m.kernel.memory memory h hc ∧
    Cloned memory m'.kernel.memory h hc (fun b => b ≠ exceptionPage) cf pf

def Orphaned (id : Env.Id) (m m' : Machine) : Prop := ∃ child c, m.isLive child = false ∧
  m'.kernel.envs.find? child = some c ∧ c.status = .notRunnable ∧ c.parent = id ∧
  ∀ j, m'.isLive j = (m.isLive j || j == child)

/-- What a clone that failed leaves of the environments. Once the handler is there all that fails is a call for a child
that was made. -/
def Leaves (id : Env.Id) (m m' : Machine) : ForkError → Prop
  | .noChild _ => ∀ j, m'.isLive j = m.isLive j
  | .callFailed _ => (m'.handlers.lookup id = none ∧ ∀ j, m'.isLive j = m.isLive j) ∨
    (m'.handlers.lookup id = some .copyOnWrite ∧ Orphaned id m m')
  | .notCopyOnWrite .. => False

theorem isLive_eq (m : Machine) (j : Env.Id) : m.isLive j = (m.kernel.envs.records j).isSome := by
  rw [isLive, records, Option.isSome_map]

theorem Installed.isLive (hi : Installed n id h m m') (hf : m.kernel.envs.find? id = some e) (j : Env.Id) :
    m'.isLive j = m.isLive j := by
  rw [isLive_eq, isLive_eq]
  by_cases hj : j = id
  · obtain ⟨r, hr, -⟩ := hi.owner
    rw [hj, hr, records_of_find? hf]
    rfl
  · rw [hi.others j hj]

structure Begotten (n : Nat) (id child : Env.Id) (hc : Handle) (m m' : Machine) : Prop where
  proper : Proper n m'.kernel.envs m'.kernel.memory
  unknown : m.kernel.envs.records child = none
  isSelf : child.isSelf = false
  created : Memory.create m.kernel.memory = .done hc m'.kernel.memory
  records : m'.kernel.envs.records = Function.update m.kernel.envs.records child (some (newborn child id hc))
  handlers : m'.handlers = m.handlers

namespace Begotten

variable {m₁ m₂ : Machine} (hb : Begotten n id child hc m₁ m₂)
include hb

theorem itself : (if child.isSelf then id else child) = child := by
  rw [hb.isSelf]
  rfl

theorem stands : m₂.Stands (Function.update m₁.kernel.envs.records child (some (newborn child id hc))) m₁.handlers :=
  ⟨hb.records, hb.handlers⟩

theorem reaches_child {r : Env} (hr : r.space = some hc) :
    Reaches (Function.update m₁.kernel.envs.records child (some r)) id child hc := by
  refine ⟨r, ?_, hr⟩
  rw [hb.itself, Function.update_self]

theorem other (hi : Installed n id h m m₁) : child ≠ id := by
  rintro rfl
  obtain ⟨r, hr, -⟩ := hi.owner
  rw [hb.unknown] at hr
  cases hr

theorem reaches_parent (hi : Installed n id h m m₁) (r : Env) :
    Reaches (Function.update m₁.kernel.envs.records child (some r)) id .self h := by
  obtain ⟨x, hx, hs, -⟩ := hi.owner
  exact ⟨x, (Function.update_of_ne (Ne.symm (hb.other hi)) ..).trans hx, hs⟩

end Begotten

theorem yields_begetting (hp : Proper n m.kernel.envs m.kernel.memory) : Yields cpu id Program.fork.run m (either
    (fun child m' => ∃ hc, Begotten n id child hc m m') fun _ m' => m.Beside m') :=
  yields_fork hp (fun _ hc _ hnone hself hcreate hrecords hh hp' => ⟨hc, hp', hnone, hself, hcreate, hrecords, hh⟩)
    fun _ _ hb _ => hb

/-- What fails after the child was made leaves it there. -/
theorem orphaned {m₁ m₂ : Machine} {r : Env} (hi : Installed n id h m m₁) (hf : m.kernel.envs.find? id = some e)
    (hb : Begotten n id child hc m₁ m₂)
    (hst : m'.Stands (Function.update m₁.kernel.envs.records child (some r)) m₁.handlers)
    (hstatus : r.status = .notRunnable) (hparent : r.parent = id) (code : ErrorCode) :
    Leaves id m m' (.callFailed code) := by
  have hchild : m'.kernel.envs.records child = some r := by rw [hst.records, Function.update_self]
  obtain ⟨c, hc, rfl⟩ := find?_of_records hchild
  refine .inr ⟨?_, child, c, ?_, hc, hstatus, hparent, fun j => ?_⟩
  · rw [hst.handlers, hi.handlers, lookup_set]
  · rw [← hi.isLive hf, isLive_eq, hb.unknown]
    rfl
  · rw [← hi.isLive hf, isLive_eq, isLive_eq, hst.records]
    by_cases hj : j = child
    · rw [hj, Function.update_self, beq_self_eq_true, Bool.or_true]
      rfl
    · rw [Function.update_of_ne hj, beq_eq_false_iff_ne.mpr hj, Bool.or_false]

/-- What is done for a child that cannot run: if it fails, the child stays. -/
theorem Yields.orphaning {α : Type} {x : Program.Part ErrorCode α} {Q : α → Machine → Prop} {m₁ m₂ m₃ : Machine}
    {r : Env} (hi : Installed n id h m m₁) (hf : m.kernel.envs.find? id = some e)
    (hb : Begotten n id child hc m₁ m₂) (hstatus : r.status = .notRunnable) (hparent : r.parent = id)
    (hx : Yields cpu id x.run m₃ (either Q fun _ m' =>
      m'.Stands (Function.update m₁.kernel.envs.records child (some r)) m₁.handlers)) :
    Yields cpu id (x.adapt ForkError.callFailed).run m₃ (either Q fun cause m' => Leaves id m m' cause) :=
  (hx.mono_error fun code _ hst => orphaned hi hf hb hst hstatus hparent code).adapt

section rest

variable {visit : Env.Id → Word → PageFlags → Program.Part ErrorCode Unit}
  (hvisit : ∀ child hc R H, Reaches R id .self h → Reaches R id child hc → h ≠ hc →
    Duplicates n cpu id h hc R H (visit child) cf pf)
include hvisit

/-- What a parent does for its child. -/
theorem yields_upbringing {m₁ m₂ : Machine} (hp : Proper n m.kernel.envs m.kernel.memory)
    (hf : m.kernel.envs.find? id = some e) (hi : Installed n id h m m₁) (hb : Begotten n id child hc m₁ m₂) :
    Yields cpu id (do
      Program.step (.allocPage child (UInt64.ofNat exceptionPage) Program.dataPage)
      Program.step (.setUpcall child (UInt64.ofNat upcallEntry))
      (Program.forEachUserPage (visit child)).adapt ForkError.callFailed
      Program.step (.setStatus child .runnable)
      return .parent child : Program.Part ForkError Side).run m₂ (either
        (fun side m' => ∃ child hc, side = .parent child ∧ Offspring n id child h hc cf pf m m')
        fun cause m' => Leaves id m m' cause) := by
  obtain ⟨r, hr, hrs, hru⟩ := hi.owner
  have hself := hb.reaches_parent hi
  refine Yields.bind_part ((yields_allocPage hb.proper hb.stands (hb.reaches_child rfl)).orphaning hi hf hb rfl rfl)
    fun _ m₃ ⟨hedit, frame, hfree, hmap⟩ => ?_
  have hst₃ := hedit.stands hb.stands
  refine Yields.bind_part ((yields_setUpcall hedit.proper hst₃).orphaning hi hf hb rfl rfl) fun _ m₄ halt => ?_
  rw [hb.itself] at halt
  have hst₄ := halt.stands hst₃
  have hlive : m₁.kernel.memory.isLive h = true := by
    obtain ⟨y, hy, rfl⟩ := find?_of_records hr
    obtain ⟨i, hi', hl⟩ := hi.proper.intact.space_of_find? hy
    obtain rfl := Option.some.inj (hi'.symm.trans hrs)
    exact hl
  rw [toNat_userPage (show exceptionPage < utop by decide)] at hmap
  obtain ⟨hprep, hne⟩ := hi.stacked.prepared hp.intact.memory hi.proper.intact.memory hb.proper.intact.memory
    hedit.proper.intact.memory hi.proper.clear hlive hb.created hfree hmap
  rw [← halt.memory] at hprep
  have hpages := yields_forEachUserPage (hvisit child hc _ _ (hself _) (hb.reaches_child rfl) hne) (hself _) hst₄
    halt.proper
  refine Yields.bind_part (hpages.orphaning hi hf hb rfl rfl) fun _ m₅ ⟨hedit₅, hcloned⟩ => ?_
  have hst₅ := hedit₅.stands hst₄
  refine Yields.bind_part ((yields_setRunnable hedit₅.proper hst₅).orphaning hi hf hb rfl rfl) fun _ m₆ halt₆ => ?_
  rw [hb.itself] at halt₆
  have hst₆ := halt₆.stands hst₅
  refine yields_pure ⟨child, hc, rfl, halt₆.proper, ?_, hb.other hi, hne, ⟨r, ?_, hrs, hru⟩, ?_, m₄.kernel.memory,
    hprep, ?_⟩
  · rw [hst₆.handlers, hi.handlers]
  · rw [hst₆.records, Function.update_of_ne (Ne.symm (hb.other hi)), hr]
  · rw [hst₆.records, Function.update_self]
    exact ⟨_, rfl, rfl, rfl⟩
  · rw [halt₆.memory]
    exact hcloned

end rest

/-- A clone that comes back with a child has duplicated the pages of its parent; one that comes back with an error has
left nothing, or a child that cannot run. -/
theorem yields_cloneWith {visit : Env.Id → Word → PageFlags → Program.Part ErrorCode Unit}
    (hvisit : ∀ child hc R H, Reaches R id .self h → Reaches R id child hc → h ≠ hc →
      Duplicates n cpu id h hc R H (visit child) cf pf)
    (hp : Proper n m.kernel.envs m.kernel.memory) (hf : m.kernel.envs.find? id = some e) (hs : e.space = some h) :
    Yields cpu id (Program.cloneWith visit).run m (either
      (fun side m' => ∃ child hc, side = .parent child ∧ Offspring n id child h hc cf pf m m')
      fun cause m' => Leaves id m m' cause) := by
  refine Yields.bind_part (Yields.adapt ((yields_installHandler hp hf hs).mono_error fun _ m' h => ?_))
    fun _ m₁ hi => ?_
  · exact .inl ⟨h.2.handlers ▸ h.1, fun j => by rw [isLive_eq, isLive_eq, h.2.records]⟩
  refine Yields.bind_part (Yields.adapt ((yields_begetting hi.proper).mono_error fun _ m' hb j => ?_))
    fun child m₂ ⟨hc, hb⟩ => ?_
  · rw [← hi.isLive hf, isLive_eq, isLive_eq, hb.envs]
  · rw [hb.isSelf]
    exact yields_upbringing hvisit hp hf hi hb

theorem yields_copyFork (hp : Proper n m.kernel.envs m.kernel.memory) (hf : m.kernel.envs.find? id = some e)
    (hs : e.space = some h) : Yields cpu id Program.copyFork.run m (either
      (fun side m' => ∃ child hc, side = .parent child ∧
        Offspring n id child h hc (fun _ => Program.childFlags) (fun _ => Program.parentFlags) m m')
      fun cause m' => Leaves id m m' cause) :=
  yields_cloneWith (fun _ _ _ _ => duplicates_duplicatePage) hp hf hs

theorem yields_shareFork (hp : Proper n m.kernel.envs m.kernel.memory) (hf : m.kernel.envs.find? id = some e)
    (hs : e.space = some h) : Yields cpu id Program.shareFork.run m (either
      (fun side m' => ∃ child hc, side = .parent child ∧ Offspring n id child h hc
        (fun b f => if b = stackPage then Program.childFlags f else f &&& PageFlags.requestable)
        (fun b f => if b = stackPage then Program.parentFlags f else f) m m')
      fun cause m' => Leaves id m m' cause) :=
  yields_cloneWith (fun _ _ _ _ => duplicates_sharePageOrStack) hp hf hs

/-- A clone that comes back with an error: if no child could be made, or the handler could not be installed, the same
environments are live as before; otherwise the child is live as well, and cannot run. -/
theorem clone_leaves {r : Request} {cause : ForkError} {budget patience : Nat} (hr : m.kernel.Reachable)
    (hl : m.isLive id = true) (hclone : r = .copyFork ∨ r = .shareFork)
    (hd : drive cpu id budget (r.program patience) m = some (.side (.error cause), m')) : Leaves id m m' cause := by
  obtain ⟨n, hp⟩ := hr.proper
  obtain ⟨e, hf⟩ := Option.isSome_iff_exists.mp hl
  obtain ⟨h, hs, -⟩ := hp.intact.space_of_find? hf
  have hside : ∀ {Q : Side → Machine → Prop} {p : Program.Part ForkError Side},
      Yields cpu id p.run m (either Q fun cause m' => Leaves id m m' cause) →
      drive cpu id budget (p.run.andThen fun r => .done (.side r)) m = some (.side (.error cause), m') →
      Leaves id m m' cause := by
    intro Q p hy hd
    obtain ⟨a, ha, hq⟩ := hy.of_drive hd
    cases ha
    exact hq
  rcases hclone with rfl | rfl
  · exact hside (yields_copyFork hp hf hs) hd
  · exact hside (yields_shareFork hp hf hs) hd

def crowdedConfig : Config := { cpus := 1, capacity := 3, frames := 6, level := .error }

def crowdedBooted : Kernel := (Kernel.boot crowdedConfig {} {}).toOption.getD (.blank crowdedConfig {} {})

def crowded : Machine where
  kernel := (Demand.step (.start ⟨0⟩ {})).next ((Demand.step (.create .user)).next crowdedBooted)
  budget := 0

theorem reachable_crowded : crowded.kernel.Reachable := by
  have hboot : Kernel.boot crowdedConfig {} {} = .ok crowdedBooted := by decide +kernel
  have h₁ := (Kernel.Reachable.boot hboot).next (r := .step (.create .user)) trivial (by decide +kernel)
  exact h₁.next trivial (by decide +kernel)

def side? : Answer → Option (Except ForkError Side)
  | .side r => some r
  | _ => none

theorem side?_eq {a : Answer} {r : Except ForkError Side} (h : side? a = some r) : a = .side r := by
  cases a <;> cases h
  rfl

theorem exists_of_side {o : Option (Answer × Machine)} {r : Except ForkError Side} {P : Machine → Prop}
    [DecidablePred P] (h : (o.map fun p => (side? p.1, decide (P p.2))) = some (some r, true)) :
    ∃ m', o = some (.side r, m') ∧ P m' := by
  obtain ⟨⟨a, m'⟩, rfl, hp⟩ := Option.map_eq_some_iff.mp h
  obtain ⟨ha, hm⟩ := Prod.mk.inj hp
  obtain rfl : a = .side r := side?_eq ha
  exact ⟨m', rfl, of_decide_eq_true hm⟩

theorem copyFork_crowded : ∃ m',
    drive ⟨0⟩ ⟨0x401⟩ 4 (Request.copyFork.program 0) crowded = some (.side (.error (.callFailed .outOfMemory)), m') ∧
      m'.isLive ⟨0x402⟩ = true := exists_of_side (by decide +kernel)

theorem isLive_crowded : crowded.isLive ⟨0x401⟩ = true ∧ crowded.isLive ⟨0x402⟩ = false := by decide +kernel

theorem clone_leaves_crowded : ∃ m', crowded.kernel.Reachable ∧ crowded.isLive ⟨0x401⟩ = true ∧
    drive ⟨0⟩ ⟨0x401⟩ 4 (Request.copyFork.program 0) crowded = some (.side (.error (.callFailed .outOfMemory)), m') ∧
    Leaves ⟨0x401⟩ crowded m' (.callFailed .outOfMemory) := by
  obtain ⟨m', hd, -⟩ := copyFork_crowded
  exact ⟨m', reachable_crowded, isLive_crowded.1, hd, clone_leaves reachable_crowded isLive_crowded.1 (.inl rfl) hd⟩

/-- Not every clone that fails leaves the live environments as they were. -/
theorem live_not_kept : ¬∀ (cpu : Cpu) (id : Env.Id) (budget patience : Nat) (r : Request) (cause : ForkError)
    (m m' : Machine), m.kernel.Reachable → m.isLive id = true → r = .copyFork ∨ r = .shareFork →
      drive cpu id budget (r.program patience) m = some (.side (.error cause), m') → ∀ j, m'.isLive j = m.isLive j := by
  intro h
  obtain ⟨m', hd, hlive⟩ := copyFork_crowded
  have hkept := h _ _ _ _ _ _ _ _ reachable_crowded isLive_crowded.1 (.inl rfl) hd ⟨0x402⟩
  rw [hlive, isLive_crowded.2] at hkept
  cases hkept

end Simulation.Machine

end Exokernel
