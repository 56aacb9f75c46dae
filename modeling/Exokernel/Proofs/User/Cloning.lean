import Exokernel.Proofs.User.Upcalls

/-!
# Pages that a clone shares

A visit of a page maps its frame in the space of the child as well, and may change the flags that the parent has for it.
The pages are visited in the order of their addresses, each one once, so that after the traversal every user page of the
parent but its exception page has been duplicated, and both sides show the bytes that the parent showed.
-/

set_option autoImplicit false

namespace Exokernel

namespace Memory

variable {n base : Nat} {m m' m'' : Memory} {h hc : Handle} {e : Mapping} {c p q : PageFlags} {V V' : Nat → Prop}
  {cf pf : Nat → PageFlags → PageFlags}

structure Duplicated (m m' : Memory) (h hc : Handle) (base : Nat) (e : Mapping) (c p : PageFlags) : Prop where
  source : ∀ w, m'.mapping? h w = if pageBase w = base then some ⟨e.frame, p⟩ else m.mapping? h w
  copy : ∀ w, m'.mapping? hc w = if pageBase w = base then some ⟨e.frame, c⟩ else m.mapping? hc w
  shown : ∀ w, m'.view h w = m.view h w
  copied : ∀ w, m'.view hc w = if pageBase w = base then m.view h w else m.view hc w

theorem Remapped.duplicated (hr : Remapped m m' hc base (some ⟨e.frame, c⟩)) (hb : Settled n m) (hb' : Settled n m')
    (hbase : pageBase base = base) (he : m.mapping? h base = some e) (hne : h ≠ hc) :
    Duplicated m m' h hc base e c e.flags := by
  have hother : ∀ w, ¬(h = hc ∧ pageBase w = base) := fun w h' => hne h'.1
  have hat : ∀ w, pageBase w = base → m.mapping? h w = some e := fun w hw =>
    (mapping?_congr (hw.trans hbase.symm)).trans he
  refine ⟨fun w => ?_, fun w => ?_, fun w => hr.view hb hb' (hother w), fun w => ?_⟩
  · rw [hr.mapping, if_neg (hother w)]
    split
    · next hw => exact hat w hw
    · rfl
  · rw [hr.mapping]
    simp only [true_and]
  · split
    · next hw => exact hr.view_new hb hb' (hat w hw) rfl hw rfl
    · next hw => exact hr.view hb hb' fun h' => hw h'.2

/-- The page is mapped again, with other flags. -/
theorem Duplicated.remapped (hd : Duplicated m m' h hc base e c p) (hr : Remapped m' m'' h base (some ⟨e.frame, q⟩))
    (hb : Settled n m') (hb' : Settled n m'') (hne : h ≠ hc) : Duplicated m m'' h hc base e c q := by
  have hother : ∀ w, ¬(hc = h ∧ pageBase w = base) := fun w h' => hne h'.1.symm
  refine ⟨fun w => ?_, fun w => ?_, fun w => ?_, fun w => ?_⟩
  · rw [hr.mapping, hd.source]
    split
    · next hw => rw [if_pos hw.2]
    · next hw => rw [if_neg fun h' => hw ⟨rfl, h'⟩, if_neg fun h' => hw ⟨rfl, h'⟩]
  · rw [hr.mapping, if_neg (hother w), hd.copy]
  · rw [← hd.shown]
    by_cases hw : pageBase w = base
    · exact hr.view_new hb hb' ((hd.source w).trans (if_pos hw)) rfl hw rfl
    · exact hr.view hb hb' fun h' => hw h'.2
  · rw [hr.view hb hb' (hother w), hd.copied]

structure Cloned (m m' : Memory) (h hc : Handle) (V : Nat → Prop) (cf pf : Nat → PageFlags → PageFlags) : Prop where
  visited : ∀ w e, V (pageBase w) → m.mapping? h w = some e → e.flags.contains (accessNeeds false) = true →
    m'.mapping? h w = some ⟨e.frame, pf (pageBase w) e.flags⟩ ∧
    m'.mapping? hc w = some ⟨e.frame, cf (pageBase w) e.flags⟩ ∧ m'.view hc w = m.view h w
  rest : ∀ w, (V (pageBase w) → ¬m.Open h w false) →
    m'.mapping? h w = m.mapping? h w ∧ m'.mapping? hc w = m.mapping? hc w
  shown : ∀ w, m'.view h w = m.view h w

namespace Cloned

theorem refl (m : Memory) (h hc : Handle) (cf pf : Nat → PageFlags → PageFlags) :
    Cloned m m h hc (fun _ => False) cf pf := ⟨fun _ _ h' => h'.elim, fun _ _ => ⟨rfl, rfl⟩, fun _ => rfl⟩

variable (hm : Cloned m m' h hc V cf pf)
include hm

theorem congr (hV : ∀ w, m.Open h w false → (V' (pageBase w) ↔ V (pageBase w))) : Cloned m m' h hc V' cf pf :=
  ⟨fun w e hw he ho => hm.visited w e ((hV w ⟨e, he, ho⟩).mp hw) he ho,
    fun w hw => hm.rest w fun hv ho => hw ((hV w ho).mpr hv) ho, hm.shown⟩

/-- One more page that was not visited before. -/
theorem visit (hbase : pageBase base = base) (hnew : ¬V base) (he : m'.mapping? h base = some e)
    (ho : e.flags.contains (accessNeeds false) = true)
    (hd : Duplicated m' m'' h hc base e (cf base e.flags) (pf base e.flags)) :
    Cloned m m'' h hc (fun b => V b ∨ b = base) cf pf := by
  have hold : m.mapping? h base = some e := by
    rw [← (hm.rest base fun hv => absurd (hbase ▸ hv) hnew).1]
    exact he
  have hat : ∀ w, pageBase w = base → m.mapping? h w = some e := fun w hw =>
    (mapping?_congr (hw.trans hbase.symm)).trans hold
  refine ⟨fun w e' hw he' ho' => ?_, fun w hw => ?_, fun w => (hd.shown w).trans (hm.shown w)⟩
  · rw [hd.source, hd.copy, hd.copied]
    by_cases hb : pageBase w = base
    · obtain rfl := Option.some.inj ((hat w hb).symm.trans he')
      rw [if_pos hb, if_pos hb, if_pos hb, hb]
      exact ⟨rfl, rfl, hm.shown w⟩
    · rw [if_neg hb, if_neg hb, if_neg hb]
      exact hm.visited w e' (hw.resolve_right hb) he' ho'
  · have hb : pageBase w ≠ base := fun hb => hw (.inr hb) ⟨e, hat w hb, ho⟩
    rw [hd.source, hd.copy, if_neg hb, if_neg hb]
    exact hm.rest w fun hv => hw (.inl hv)

/-- A page that is not open need not be visited. -/
theorem pass (hbase : pageBase base = base) (hnew : ¬V base) (hclosed : ¬m'.Open h base false) :
    Cloned m m' h hc (fun b => V b ∨ b = base) cf pf := by
  refine hm.congr fun w ho => ?_
  have hw : pageBase w ≠ base := by
    intro hw
    refine hclosed ?_
    rw [Open, (hm.rest base fun hv => absurd (hbase ▸ hv) hnew).1]
    exact ho.congr (hbase.trans hw.symm)
  simp only [hw, or_false]

end Cloned

end Memory

open Env (Id Status)
open Env.Table

namespace Effect

variable {cpu : Cpu} {caller src dst id : Id} {t t' : Env.Table} {m m' : Memory} {srcva dstva va entry : Word}
  {perm : PageFlags} {status : Status}

theorem of_mapPage (hx : Effect cpu caller t m (.mapPage src srcva dst dstva perm) t' m') : t' = t ∧
    ∃ s d hs hd e, t.lookup src (some caller) true = .ok s ∧ t.lookup dst (some caller) true = .ok d ∧
      s.space = some hs ∧ d.space = some hd ∧ m.mapping? hs srcva.toNat = some e ∧
      Memory.insert hd e.frame dstva.toNat perm m = .done () m' := by
  cases hx with
  | mapped hls hld hs hd he _ hm => exact ⟨rfl, _, _, _, _, _, hls, hld, hs, hd, he, hm⟩
  | quiet h | sent h | blocked h => cases h
  | marked h | freed h => exact h.elim

theorem of_allocPage (hx : Effect cpu caller t m (.allocPage id va perm) t' m') : t' = t ∧
    ∃ e h, t.lookup id (some caller) true = .ok e ∧ e.space = some h ∧
      Memory.allocPage h va.toNat perm m = .done () m' := by
  cases hx with
  | allocated hl hs hm => exact ⟨rfl, _, _, hl, hs, hm⟩
  | quiet h | sent h | blocked h => cases h
  | marked h | freed h => exact h.elim

theorem of_unmapPage (hx : Effect cpu caller t m (.unmapPage id va) t' m') : t' = t ∧
    ∃ e h r, t.lookup id (some caller) true = .ok e ∧ e.space = some h ∧
      Memory.remove h va.toNat m = .done r m' := by
  cases hx with
  | unmapped hl hs hm => exact ⟨rfl, _, _, _, hl, hs, hm⟩
  | quiet h | sent h | blocked h => cases h
  | marked h | freed h => exact h.elim

theorem of_setUpcall (hx : Effect cpu caller t m (.setUpcall id entry) t' m') : m' = m ∧
    ∃ e, t.lookup id (some caller) true = .ok e ∧ t' = t.update e.id fun e => { e with upcall := entry } := by
  cases hx with
  | entered hl => exact ⟨rfl, _, hl, rfl⟩
  | quiet h | sent h | blocked h => cases h
  | marked h | freed h => exact h.elim

theorem of_setStatus (hx : Effect cpu caller t m (.setStatus id status) t' m')
    (hs : ¬(status = .free ∨ status = .dying)) :
    m' = m ∧ ∃ e, t.lookup id (some caller) true = .ok e ∧
      t' = t.update e.id fun e => { e with status, cpu := if status = .running then e.cpu else none } := by
  cases hx with
  | reset hl => exact ⟨rfl, _, hl, rfl⟩
  | quiet h | sent h | blocked h => cases h
  | marked h | freed h => exact absurd h.1 hs

end Effect

namespace Program

def childFlags (entry : PageFlags) : PageFlags :=
  if needsCopy (entry &&& PageFlags.requestable) then copyOnWrite (entry &&& PageFlags.requestable)
  else entry &&& PageFlags.requestable

def parentFlags (entry : PageFlags) : PageFlags :=
  if needsCopy (entry &&& PageFlags.requestable) then copyOnWrite (entry &&& PageFlags.requestable) else entry

end Program

namespace Simulation.Machine

open Memory

variable {n : Nat} {cpu : Cpu} {id target : Env.Id} {h hc i : Handle} {m m' m'' : Machine} {va va' : Word}
  {perm : PageFlags}
  {R : Env.Id → Option Env} {H : List (Env.Id × Handler)}

def Reaches (R : Env.Id → Option Env) (id target : Env.Id) (i : Handle) : Prop :=
  ∃ r, R (if target.isSelf then id else target) = some r ∧ r.space = some i

theorem Reaches.space {t : Env.Table} {e : Env} (hr : Reaches t.records id target i)
    (hl : t.lookup target (some id) true = .ok e) : e.space = some i := by
  obtain ⟨r, hr, hs⟩ := hr
  obtain ⟨hid, hf, -⟩ := lookup_resolved hl
  rw [hid, records_of_find? hf] at hr
  rw [← Option.some.inj hr] at hs
  exact hs

structure Edited (n : Nat) (m m' : Machine) : Prop where
  proper : Proper n m'.kernel.envs m'.kernel.memory
  records : m'.kernel.envs.records = m.kernel.envs.records
  handlers : m'.handlers = m.handlers

structure Stands (R : Env.Id → Option Env) (H : List (Env.Id × Handler)) (m : Machine) : Prop where
  records : m.kernel.envs.records = R
  handlers : m.handlers = H

theorem Stands.spaceOf (hst : m.Stands R H) (hself : Reaches R id .self h) : m.kernel.spaceOf id = .ok h := by
  obtain ⟨r, hr, hs⟩ := hself
  obtain ⟨e, hf, rfl⟩ := find?_of_records (hst.records.symm ▸ hr)
  exact Kernel.spaceOf_of_find? hf hs

theorem Beside.stands (hb : m.Beside m') (hst : m.Stands R H) : m'.Stands R H :=
  ⟨hb.envs.trans hst.records, hb.handlers.trans hst.handlers⟩

theorem Edited.stands (he : Edited n m m') (hst : m.Stands R H) : m'.Stands R H :=
  ⟨he.records.trans hst.records, he.handlers.trans hst.handlers⟩

theorem Edited.trans (h₁ : Edited n m m') (h₂ : Edited n m' m'') : Edited n m m'' :=
  ⟨h₂.proper, h₂.records.trans h₁.records, h₂.handlers.trans h₁.handlers⟩

section calls

variable (hp : Proper n m.kernel.envs m.kernel.memory) (hst : m.Stands R H)
include hp hst

theorem yields_insert (hself : Reaches R id .self h) (htarget : Reaches R id target i) :
    Yields cpu id (Program.perform (.mapPage .self va target va' perm)).run m (either
      (fun _ m' => Edited n m m' ∧ ∃ e, m.kernel.memory.mapping? h va.toNat = some e ∧
        Memory.insert i e.frame va'.toNat perm m.kernel.memory = .done () m'.kernel.memory)
      fun _ m' => m'.Stands R H) := by
  refine yields_valueless hp rfl (fun t t₁ m' ht hpt hx ht₁ hh hp' => ?_) fun _ m' hb _ => hb.stands hst
  obtain ⟨rfl, s, d, hs, hd, e, hls, hld, hss, hds, he, hm⟩ := hx.of_mapPage
  rw [← hst.records, ← ht] at hself htarget
  obtain rfl := Option.some.inj ((hself.space hls).symm.trans hss)
  obtain rfl := Option.some.inj ((htarget.space hld).symm.trans hds)
  exact ⟨⟨hp', ht₁.trans ht, hh⟩, e, he, hm⟩

theorem yields_alloc (htarget : Reaches R id target i) :
    Yields cpu id (Program.perform (.allocPage target va perm)).run m (either
      (fun _ m' => Edited n m m' ∧ Memory.allocPage i va.toNat perm m.kernel.memory = .done () m'.kernel.memory)
      fun _ m' => m'.Stands R H) := by
  refine yields_valueless hp rfl (fun t t₁ m' ht hpt hx ht₁ hh hp' => ?_) fun _ m' hb _ => hb.stands hst
  obtain ⟨rfl, e, hs, hl, hes, hm⟩ := hx.of_allocPage
  rw [← hst.records, ← ht] at htarget
  obtain rfl := Option.some.inj ((htarget.space hl).symm.trans hes)
  exact ⟨⟨hp', ht₁.trans ht, hh⟩, hm⟩

theorem yields_remove (htarget : Reaches R id target i) :
    Yields cpu id (Program.perform (.unmapPage target va)).run m (either
      (fun _ m' => Edited n m m' ∧ ∃ r, Memory.remove i va.toNat m.kernel.memory = .done r m'.kernel.memory)
      fun _ m' => m'.Stands R H) := by
  refine yields_valueless hp rfl (fun t t₁ m' ht hpt hx ht₁ hh hp' => ?_) fun _ m' hb _ => hb.stands hst
  obtain ⟨rfl, e, hs, r, hl, hes, hm⟩ := hx.of_unmapPage
  rw [← hst.records, ← ht] at htarget
  obtain rfl := Option.some.inj ((htarget.space hl).symm.trans hes)
  exact ⟨⟨hp', ht₁.trans ht, hh⟩, r, hm⟩

theorem yields_mapPage (hself : Reaches R id .self h) (htarget : Reaches R id target i) :
    Yields cpu id (Program.perform (.mapPage .self va target va perm)).run m (either
      (fun _ m' => Edited n m m' ∧ ∃ e, m.kernel.memory.mapping? h va.toNat = some e ∧
        Remapped m.kernel.memory m'.kernel.memory i va.toNat (some ⟨e.frame, perm⟩))
      fun _ m' => m'.Stands R H) :=
  (yields_insert hp hst hself htarget).mono_ok fun _ _ ⟨hedit, e, he, hm⟩ =>
    ⟨hedit, e, he, (insert_effect _ _ _ _ hp.intact.memory.pool hp.clear).of_done hm⟩

theorem yields_allocPage (htarget : Reaches R id target i) :
    Yields cpu id (Program.perform (.allocPage target va perm)).run m (either
      (fun _ m' => Edited n m m' ∧ ∃ frame, m.kernel.memory.frames.used frame = false ∧
        Remapped m.kernel.memory m'.kernel.memory i va.toNat (some ⟨frame, perm⟩))
      fun _ m' => m'.Stands R H) :=
  (yields_alloc hp hst htarget).mono_ok fun _ _ ⟨hedit, hm⟩ =>
    ⟨hedit, (allocPage_effect _ _ _ hp.intact.memory hp.clear).of_done hm⟩

end calls

theorem Yields.adapt_any {α ε ε' : Type} {p : Program.Part ε α} {g : ε → ε'} {Q : α → Machine → Prop}
    {E : ε → Machine → Prop} (hx : Yields cpu id p.run m (either Q E)) :
    Yields cpu id (p.adapt g).run m (either Q fun _ _ => True) :=
  (hx.mono_error fun _ _ _ => trivial).adapt

theorem yields_step {c : Call} {Q : Unit → Machine → Prop} {E : ErrorCode → Machine → Prop}
    (hx : Yields cpu id (Program.perform c).run m (either Q E)) :
    Yields cpu id (Program.step c).run m (either Q fun _ _ => True) := hx.adapt_any

def Duplicates (n : Nat) (cpu : Cpu) (id : Env.Id) (h hc : Handle) (R : Env.Id → Option Env)
    (H : List (Env.Id × Handler)) (visit : Word → PageFlags → Program.Part ErrorCode Unit)
    (cf pf : Nat → PageFlags → PageFlags) : Prop :=
  ∀ (m : Machine) (base : Nat) (e : Mapping), Proper n m.kernel.envs m.kernel.memory → m.Stands R H →
    pageBase base = base → base < utop → m.kernel.memory.mapping? h base = some e →
    e.flags.contains (accessNeeds false) = true →
    Yields cpu id (visit (UInt64.ofNat base) e.flags).run m (either
      (fun _ m' => Edited n m m' ∧
        Duplicated m.kernel.memory m'.kernel.memory h hc base e (cf base e.flags) (pf base e.flags))
      fun _ m' => m'.Stands R H)

section visits

variable {child : Env.Id} (hself : Reaches R id .self h) (hchild : Reaches R id child hc) (hne : h ≠ hc)
include hself hchild hne

theorem duplicates_sharePage :
    Duplicates n cpu id h hc R H (Program.sharePage child) (fun _ f => f &&& PageFlags.requestable) fun _ f => f := by
  intro m base e hp hst hbase hlt he _
  have hword := toNat_userPage hlt
  refine (yields_mapPage hp hst hself hchild).mono_ok fun _ m' ⟨hedit, e', he', hr⟩ => ?_
  rw [hword] at he' hr
  obtain rfl := Option.some.inj (he.symm.trans he')
  exact ⟨hedit, hr.duplicated hp.intact.memory hedit.proper.intact.memory hbase he hne⟩

theorem duplicates_duplicatePage : Duplicates n cpu id h hc R H (Program.duplicatePage child)
    (fun _ f => Program.childFlags f) fun _ f => Program.parentFlags f := by
  intro m base e hp hst hbase hlt he ho
  have hword := toNat_userPage hlt
  rw [Program.duplicatePage]
  by_cases hn : Program.needsCopy (e.flags &&& PageFlags.requestable) = true
  · simp only [Program.childFlags, Program.parentFlags, if_pos hn]
    refine (yields_mapPage hp hst hself hchild).bind_part fun _ m₁ ⟨hedit₁, e₁, he₁, hr₁⟩ => ?_
    rw [hword] at he₁ hr₁
    obtain rfl := Option.some.inj (he.symm.trans he₁)
    have hd := hr₁.duplicated hp.intact.memory hedit₁.proper.intact.memory hbase he hne
    refine (yields_mapPage hedit₁.proper (hedit₁.stands hst) hself hself).mono_ok
      fun _ m₂ ⟨hedit₂, e₂, he₂, hr₂⟩ => ?_
    rw [hword] at he₂ hr₂
    rw [hd.source, if_pos hbase] at he₂
    obtain rfl := Option.some.inj he₂
    exact ⟨hedit₁.trans hedit₂, hd.remapped hr₂ hedit₁.proper.intact.memory hedit₂.proper.intact.memory hne⟩
  · simp only [Program.childFlags, Program.parentFlags, if_neg hn]
    exact duplicates_sharePage hself hchild hne m base e hp hst hbase hlt he ho

/-- Only the top page of the stack is duplicated for both sides to write. -/
theorem duplicates_sharePageOrStack : Duplicates n cpu id h hc R H (Program.sharePageOrStack child)
    (fun b f => if b = stackPage then Program.childFlags f else f &&& PageFlags.requestable)
    fun b f => if b = stackPage then Program.parentFlags f else f := by
  intro m base e hp hst hbase hlt he ho
  rw [Program.sharePageOrStack, toNat_userPage hlt]
  by_cases hb : base = stackPage
  · simp only [if_pos hb]
    exact duplicates_duplicatePage hself hchild hne m base e hp hst hbase hlt he ho
  · simp only [if_neg hb]
    exact duplicates_sharePage hself hchild hne m base e hp hst hbase hlt he ho

end visits

section traversal

variable {visit : Word → PageFlags → Program.Part ErrorCode Unit} {cf pf : Nat → PageFlags → PageFlags}
  {V : Nat → Prop} {span : Nat}

theorem mem_pagesOf {va : Nat} (hs : span % spanSize = 0) : va ∈ Program.pagesOf span ↔
    pageBase va = va ∧ span ≤ va ∧ va < span + spanSize ∧ va < utop ∧ va ≠ exceptionPage := by
  rw [Program.pagesOf, List.mem_filter, List.mem_map]
  simp only [List.mem_range, Bool.and_eq_true, decide_eq_true_eq, bne_iff_ne, pageBase, spanSize, pageSize] at hs ⊢
  constructor
  · rintro ⟨⟨i, hi, rfl⟩, hlt, hne⟩
    exact ⟨by omega, by omega, by omega, hlt, hne⟩
  · rintro ⟨hbase, hle, hlt, htop, hne⟩
    exact ⟨⟨(va - span) / 4096, by omega, by omega⟩, htop, hne⟩

theorem nodup_pagesOf (span : Nat) : (Program.pagesOf span).Nodup := by
  refine List.Nodup.filter _ (List.nodup_range.map fun i j hij => ?_)
  simp only [pageSize] at hij
  omega

/-- The spans of user memory come in the order of their addresses. -/
theorem span_of_split {past rest : List Nat} (h : Program.userSpans = past ++ span :: rest) :
    span = past.length * spanSize ∧ span < utop := by
  constructor
  · have hget : Program.userSpans[past.length]? = some span := by simp [h]
    rw [Program.userSpans, List.getElem?_map] at hget
    obtain ⟨i, hi, rfl⟩ := Option.map_eq_some_iff.mp hget
    obtain ⟨hlt, hi⟩ := List.getElem?_eq_some_iff.mp hi
    rw [← hi, List.getElem_range]
  · have hmem : span ∈ Program.userSpans := h ▸ List.mem_append_right _ (List.mem_cons_self ..)
    obtain ⟨i, hi, rfl⟩ := List.mem_map.mp hmem
    have hi := List.mem_range.mp hi
    simp only [utop, spanSize, pageSize] at hi ⊢
    omega

/-- With the pages of a span the clone has come to the end of the span. -/
theorem cloned_through {m m' : Memory} (hs : span % spanSize = 0) (hb : Settled n m)
    (hcl : Cloned m m' h hc (fun b => (b < span ∧ b ≠ exceptionPage) ∨ b ∈ Program.pagesOf span) cf pf) :
    Cloned m m' h hc (fun b => b < span + spanSize ∧ b ≠ exceptionPage) cf pf := by
  refine hcl.congr fun w ho => ?_
  have htop := ho.lt_utop hb
  have hbase := pageBase_pageBase w
  have hle : pageBase w ≤ w := Nat.sub_le ..
  rw [mem_pagesOf hs]
  constructor
  · rintro ⟨hlt', hne⟩
    by_cases hw : pageBase w < span
    · exact .inl ⟨hw, hne⟩
    · exact .inr ⟨hbase, Nat.not_lt.mp hw, hlt', by omega, hne⟩
  · rintro (⟨hw, hne⟩ | ⟨-, -, hw, -, hne⟩)
    · exact ⟨by omega, hne⟩
    · exact ⟨hw, hne⟩

theorem not_open_of_absent {w : Nat} {write : Bool} (hb : Settled n m.kernel.memory)
    (hspace : m.kernel.spaceOf id = .ok h) (habsent : m.kernel.spanPresent id span = false)
    (hs : span % spanSize = 0) (hle : span ≤ pageBase w) (hlt : pageBase w < span + spanSize) :
    ¬m.kernel.memory.Open h w write := by
  rintro ⟨e, he, -⟩
  have hbase : spanBase w = spanBase span := by
    simp only [spanBase, pageBase, spanSize, pageSize] at *
    omega
  rw [← Kernel.spanPresent_congr hbase, Kernel.spanPresent_of_mapping hb hspace he] at habsent
  cases habsent

/-- Such a span need not be visited. -/
theorem cloned_past (hb : Settled n m'.kernel.memory) (hspace : m'.kernel.spaceOf id = .ok h)
    (habsent : m'.kernel.spanPresent id span = false) (hs : span % spanSize = 0)
    (hcl : Cloned m.kernel.memory m'.kernel.memory h hc (fun b => b < span ∧ b ≠ exceptionPage) cf pf) :
    Cloned m.kernel.memory m'.kernel.memory h hc (fun b => b < span + spanSize ∧ b ≠ exceptionPage) cf pf := by
  refine hcl.congr fun w ho => ?_
  have hout : ¬(span ≤ pageBase w ∧ pageBase w < span + spanSize) := by
    rintro ⟨hle, hlt⟩
    rw [Open, ← (hcl.rest w fun hV => absurd hV.1 (Nat.not_lt.mpr hle)).1] at ho
    exact not_open_of_absent hb hspace habsent hs hle hlt ho
  constructor
  · rintro ⟨hlt, hne⟩
    exact ⟨by omega, hne⟩
  · rintro ⟨hlt, hne⟩
    exact ⟨by omega, hne⟩

variable (hv : Duplicates n cpu id h hc R H visit cf pf) (hself : Reaches R id .self h)
  (hst : m.Stands R H)
include hv hself hst

/-- The pages of a span. -/
theorem yields_visitSpan (hs : span % spanSize = 0) (hedit : Edited n m m')
    (hcl : Cloned m.kernel.memory m'.kernel.memory h hc (fun b => b < span ∧ b ≠ exceptionPage) cf pf) :
    Yields cpu id ((Program.pagesOf span).forM fun va => do
      match ← (Program.entryAt (UInt64.ofNat va) : Program _) with
      | some entry =>
        if entry.contains (PageFlags.present ||| PageFlags.user) then visit (UInt64.ofNat va) entry
      | none => pure () : Program.Part ErrorCode Unit).run m' (either
        (fun _ m'' => Edited n m m'' ∧ Cloned m.kernel.memory m''.kernel.memory h hc
          (fun b => (b < span ∧ b ≠ exceptionPage) ∨ b ∈ Program.pagesOf span) cf pf)
        fun _ m'' => m''.Stands R H) := by
  refine yields_forM (I := fun past m'' => Edited n m m'' ∧ Cloned m.kernel.memory m''.kernel.memory h hc
    (fun b => (b < span ∧ b ≠ exceptionPage) ∨ b ∈ past) cf pf) ?_ ⟨hedit, hcl.congr fun w _ => by simp⟩
  rintro past base rest m₁ hlist ⟨hedit₁, hcl₁⟩
  obtain ⟨hbase, hle, -, hlt, -⟩ := (mem_pagesOf hs).mp (hlist ▸ List.mem_append_right _ (List.mem_cons_self ..))
  have hnew : ¬((base < span ∧ base ≠ exceptionPage) ∨ base ∈ past) := by
    rintro (h | h)
    · exact absurd h.1 (Nat.not_lt.mpr hle)
    · exact (List.nodup_append.mp (hlist ▸ nodup_pagesOf span)).2.2 base h base (List.mem_cons_self ..) rfl
  have hst₁ := hedit₁.stands hst
  have hspace := hst₁.spaceOf hself
  have hmore : ∀ b, ((b < span ∧ b ≠ exceptionPage) ∨ b ∈ past ++ [base]) ↔
      ((b < span ∧ b ≠ exceptionPage) ∨ b ∈ past) ∨ b = base := fun b => by
    rw [List.mem_append, List.mem_singleton]
    exact or_assoc.symm
  refine Yields.bind_part (Yields.lift ((costs_entryAt _).yields (Q := fun entry m₂ => m₂ = m₁ ∧
    entry = (m₁.kernel.memory.mapping? h base).map Mapping.flags) ⟨rfl, ?_⟩)) ?_
  · rw [toNat_userPage hlt, Kernel.pageEntry_eq hspace]
  rintro entry m₂ ⟨rfl, rfl⟩
  cases he : m₂.kernel.memory.mapping? h base with
  | none =>
    have hclosed : ¬m₂.kernel.memory.Open h base false := by
      rintro ⟨e, he', -⟩
      rw [he] at he'
      cases he'
    exact yields_pure ⟨hedit₁, (hcl₁.pass hbase hnew hclosed).congr fun _ _ => hmore _⟩
  | some e =>
    by_cases ho : e.flags.contains (accessNeeds false) = true
    · have hgo : e.flags.contains (PageFlags.present ||| PageFlags.user) = true := ho
      simp only [Option.map_some, if_pos hgo]
      refine (hv m₂ base e hedit₁.proper hst₁ hbase hlt he ho).mono_ok fun _ m₃ h₃ => ?_
      obtain ⟨hedit₂, hd⟩ := h₃
      exact ⟨hedit₁.trans hedit₂, (hcl₁.visit hbase hnew he ho hd).congr fun _ _ => hmore _⟩
    · have hstop : ¬e.flags.contains (PageFlags.present ||| PageFlags.user) = true := ho
      simp only [Option.map_some, if_neg hstop]
      have hclosed : ¬m₂.kernel.memory.Open h base false := by
        rintro ⟨e', he', ho'⟩
        rw [he] at he'
        exact ho (Option.some.inj he' ▸ ho')
      exact yields_pure ⟨hedit₁, (hcl₁.pass hbase hnew hclosed).congr fun _ _ => hmore _⟩

/-- The visit of all user pages duplicates each of them that user mode may load from. -/
theorem yields_forEachUserPage (hp : Proper n m.kernel.envs m.kernel.memory) :
    Yields cpu id (Program.forEachUserPage visit).run m (either
      (fun _ m' => Edited n m m' ∧
        Cloned m.kernel.memory m'.kernel.memory h hc (fun b => b ≠ exceptionPage) cf pf)
      fun _ m' => m'.Stands R H) := by
  -- The spans before the current one are done.
  have hloop : Yields cpu id (Program.forEachUserPage visit).run m (either
      (fun _ m' => Edited n m m' ∧ Cloned m.kernel.memory m'.kernel.memory h hc
        (fun b => b < Program.userSpans.length * spanSize ∧ b ≠ exceptionPage) cf pf)
      fun _ m' => m'.Stands R H) := by
    refine yields_forM (I := fun past m' => Edited n m m' ∧ Cloned m.kernel.memory m'.kernel.memory h hc
      (fun b => b < past.length * spanSize ∧ b ≠ exceptionPage) cf pf) ?_
      ⟨⟨hp, rfl, rfl⟩, (Cloned.refl m.kernel.memory h hc cf pf).congr fun w _ => by simp⟩
    rintro past span rest m₁ hlist ⟨hedit, hcl⟩
    obtain ⟨hspan, hlt⟩ := span_of_split hlist
    have hs : span % spanSize = 0 := by rw [hspan, Nat.mul_mod_left]
    have hnext : (past ++ [span]).length * spanSize = span + spanSize := by
      rw [List.length_append, List.length_singleton, Nat.add_mul, Nat.one_mul, hspan]
    rw [← hspan] at hcl
    have hst₁ := hedit.stands hst
    refine Yields.bind_part (Yields.lift ((costs_spanAt _).yields (Q := fun present m₂ => m₂ = m₁ ∧
      present = m₁.kernel.spanPresent id span) ⟨rfl, by rw [toNat_userPage hlt]⟩)) ?_
    rintro present m₂ ⟨rfl, rfl⟩
    rw [hnext]
    cases hpresent : m₂.kernel.spanPresent id span with
    | true =>
      refine (yields_visitSpan hv hself hst hs hedit hcl).mono_ok fun _ m₃ h₃ => ?_
      obtain ⟨hedit₂, hcl₂⟩ := h₃
      exact ⟨hedit₂, cloned_through hs hp.intact.memory hcl₂⟩
    | false =>
      exact yields_pure ⟨hedit, cloned_past hedit.proper.intact.memory (hst₁.spaceOf hself) hpresent hs hcl⟩
  refine hloop.mono_ok fun _ m' h' => ?_
  obtain ⟨hedit, hcl⟩ := h'
  refine ⟨hedit, hcl.congr fun w ho => ?_⟩
  have htop := ho.lt_utop hp.intact.memory
  have hle : pageBase w ≤ w := Nat.sub_le ..
  have hall : utop ≤ Program.userSpans.length * spanSize := by
    rw [Program.userSpans, List.length_map, List.length_range]
    decide
  exact ⟨fun hne => ⟨Nat.lt_of_le_of_lt hle (Nat.lt_of_lt_of_le htop hall), hne⟩, fun h => h.2⟩

end traversal

end Simulation.Machine

end Exokernel
