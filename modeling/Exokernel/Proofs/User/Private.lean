import Exokernel.Proofs.User.Mending
import Mathlib.Algebra.BigOperators.Group.Finset.Basic
import Mathlib.Algebra.Order.BigOperators.Group.Finset

/-!
# Programs that see memories of their own

Programs read and write memory one after the other, with whatever registers each of them has. What they should see is
told by memories without pages: by one for each of them, or by one for all.

Several programs that can mend their pages access their memories in turn. As long as no frame that one of them may store
to is mapped at another of their pages, every access answers what a memory of its own would answer, whether pages are
shared below or not. A store that runs into a page that waits for its copy mends it and starts over; since each repair
leaves one such page less, a store comes to an end.
-/

set_option autoImplicit false

/-! ## Accesses in turn -/

namespace Exokernel.Simulation

inductive Access where
  | read (va : Word) (count : Nat)
  | write (va : Word) (data : Bytes)

namespace Access

def request : Access → Request
  | read va count => .load va count
  | write va data => .store va data

def answer (f : Flat) : Access → Answer
  | read va count => .bytes (f.read va.toNat count)
  | write .. => .nothing

def after (f : Flat) : Access → Flat
  | read .. => f
  | write va data => f.write va.toNat data

end Access

structure Act where
  env : Env.Id
  live : Context
  access : Access

def apart : List Act → (Env.Id → Flat) → List Answer
  | [], _ => []
  | a :: rest, σ =>
    a.access.answer (σ a.env) :: apart rest (Function.update σ a.env (a.access.after (σ a.env)))

/-- The answers if all environments have one memory. -/
def together : List Act → Flat → List Answer
  | [], _ => []
  | a :: rest, f => a.access.answer f :: together rest (a.access.after f)

structure Access.Within (P S : Nat → Prop) (a : Access) : Prop where
  read : ∀ va count, a = .read va count → ∀ k, k < count → P (pageBase (va.toNat + k))
  write : ∀ va data, a = .write va data → ∀ k, k < data.length → S (pageBase (va.toNat + k))

namespace Machine

variable {α : Type} {cpu : Cpu} {id : Env.Id} {m m' : Machine} {k : Nat}

def play (cpu : Cpu) (budget : Nat) : List Act → Machine → Option (List Answer × Machine)
  | [], m => some ([], m)
  | a :: rest, m => do
    let (x, m) ← drive cpu a.env budget (a.access.request.program 0) { m with live := a.live }
    let (xs, m) ← play cpu budget rest m
    return (x :: xs, m)

/-- The accesses have the answers `xs` and no others: all of them if there are enough traps for each access, and
otherwise none. -/
def Plays (cpu : Cpu) (acts : List Act) (m : Machine) (xs : List Answer) : Prop :=
  ∃ enough m', ∀ budget, play cpu budget acts m = if enough ≤ budget then some (xs, m') else none

theorem plays_nil : Plays cpu [] m [] := ⟨0, m, fun _ => (if_pos (Nat.zero_le _)).symm⟩

theorem plays_cons {a : Act} {rest : List Act} {x : Answer} {xs : List Answer}
    (hd : ∀ budget, drive cpu a.env budget (a.access.request.program 0) { m with live := a.live } =
      if k ≤ budget then some (x, m') else none) (hrest : Plays cpu rest m' xs) :
    Plays cpu (a :: rest) m (x :: xs) := by
  obtain ⟨enough, m'', hrest⟩ := hrest
  refine ⟨max k enough, m'', fun budget => ?_⟩
  rw [play, hd]
  by_cases hk : k ≤ budget
  · rw [if_pos hk]
    show (play cpu budget rest m').bind _ = _
    rw [hrest]
    by_cases he : enough ≤ budget
    · rw [if_pos he, if_pos (Nat.max_le.mpr ⟨hk, he⟩)]
      rfl
    · rw [if_neg he, if_neg fun h => he (Nat.max_le.mp h).2]
      rfl
  · rw [if_neg hk, if_neg fun h => hk (Nat.max_le.mp h).1]
    rfl

theorem Costs.drive {p : Program α} {a : α} (h : Costs cpu id p m k a m') (f : α → Answer) (budget : Nat) :
    drive cpu id budget (p.andThen fun a => .done (f a)) m = if k ≤ budget then some (f a, m') else none := by
  rw [h, drive_done]

theorem drive_read {va : Word} {count : Nat} {bytes : Bytes} (h : Costs cpu id (Program.read va count) m k bytes m')
    (budget : Nat) : drive cpu id budget ((Access.read va count).request.program 0) m =
      if k ≤ budget then some (.bytes bytes, m') else none := h.drive .bytes budget

theorem drive_write {va : Word} {data : Bytes} (h : Costs cpu id (Program.write va data) m k () m') (budget : Nat) :
    drive cpu id budget ((Access.write va data).request.program 0) m =
      if k ≤ budget then some (.nothing, m') else none :=
  h.drive (fun _ => .nothing) budget

end Machine

end Exokernel.Simulation

/-! ## Memories apart -/

namespace Exokernel

open Env (Id)

namespace Simulation

namespace Machine

open Memory

def Scope (P : Nat → Prop) (crew : Finset (Env.Id × Handle)) (i : Handle) (w : Nat) : Prop :=
  (∃ id, (id, i) ∈ crew) ∧ (P (pageBase w) ∨ pageBase w = exceptionPage)

def demand (crew : Finset (Env.Id × Handle)) (m : Memory) : Nat :=
  ∑ p ∈ crew, ((m.lazyPages p.2).card + m.toll p.2 scratchPage)

structure Poised (n : Nat) (P S : Nat → Prop) (crew : Finset (Env.Id × Handle)) (m : Machine) (σ : Env.Id → Flat) :
    Prop where
  proper : Proper n m.kernel.envs m.kernel.memory
  distinct : ∀ id id' h, (id, h) ∈ crew → (id', h) ∈ crew → id = id'
  equipped : ∀ id h, (id, h) ∈ crew → m.Equipped id h
  aside : ∀ base, P base → base ≠ exceptionPage
  within : ∀ base, S base → P base
  readable : ∀ id h va, (id, h) ∈ crew → P (pageBase va) → m.kernel.memory.Open h va false
  storable : ∀ id h va, (id, h) ∈ crew → S (pageBase va) → m.kernel.memory.Open h va true ∨
    ∃ e, m.kernel.memory.mapping? h va = some e ∧ e.isLazy = true
  lone : ∀ h va, Scope P crew h va → m.kernel.memory.Open h va true → Alone (Scope P crew) m.kernel.memory h va
  shown : ∀ id h va, (id, h) ∈ crew → P (pageBase va) → m.kernel.memory.view h va = σ id va
  stocked : Stocked (demand crew m.kernel.memory) m.kernel.memory

variable {n count base : Nat} {P S : Nat → Prop} {crew : Finset (Env.Id × Handle)} {m m' : Machine}
  {σ σ' : Env.Id → Flat} {cpu : Cpu} {id : Env.Id} {h : Handle} {va : Nat} {data : Bytes}

theorem demand_of_spaces {m m' : Memory} (hs : m'.spaces = m.spaces) : demand crew m' = demand crew m := by
  refine Finset.sum_congr rfl fun p _ => ?_
  rw [toll_of_spaces hs, lazyPages_of_spaces hs]

theorem exists_demand {m : Memory} (hc : (id, h) ∈ crew) (hlazy : base ∈ m.lazyPages h) :
    ∃ count, demand crew m = count + 1 + m.toll h scratchPage := by
  have hcard := Finset.card_erase_add_one hlazy
  rw [demand, ← Finset.add_sum_erase _ _ hc, ← hcard]
  generalize ∑ p ∈ crew.erase (id, h), ((m.lazyPages p.2).card + m.toll p.2 scratchPage) = others
  exact ⟨((m.lazyPages h).erase base).card + others, by dsimp only; omega⟩

namespace Poised

/-- A store of somebody in the crew within the watched pages. -/
theorem stored (hq : Poised n P S crew m σ) (hb : m.Beside m')
    (hw : Wrote (Scope P crew) m.kernel.memory m'.kernel.memory h va data)
    (hσ : ∀ id i w, (id, i) ∈ crew → P (pageBase w) → m'.kernel.memory.view i w = σ' id w) :
    Poised n P S crew m' σ' where
  proper := (hq.proper.touched hb.touched).stored hw.stored
  distinct := hq.distinct
  equipped id i hc := by
    have he := hq.equipped id i hc
    exact he.beside hb (hw.open_iff.mpr he.stack) ((hw.mapping? ..).trans he.scratch)
  aside := hq.aside
  within := hq.within
  readable id i w hc hw' := hw.open_iff.mpr (hq.readable id i w hc hw')
  storable id i w hc hs := by
    rw [hw.open_iff, hw.mapping?]
    exact hq.storable id i w hc hs
  lone i w hscope ho := hw.alone (hq.lone i w hscope (hw.open_iff.mp ho))
  shown := hσ
  stocked := by
    rw [demand_of_spaces hw.stored.spaces]
    exact hw.stocked hq.stocked

variable (hq : Poised n P S crew m σ)
include hq

theorem space_unique {i : Handle} (hc : (id, h) ∈ crew) (hc' : (id, i) ∈ crew) : i = h := by
  obtain ⟨e, he, hs, -⟩ := (hq.equipped id h hc).owns
  obtain ⟨e', he', hs', -⟩ := (hq.equipped id i hc').owns
  rw [he] at he'
  rw [← Option.some.inj he', hs] at hs'
  exact (Option.some.inj hs').symm

/-- A store of the crew to its pages is one to the memory of the environment that made it. -/
theorem wrote (hc : (id, h) ∈ crew) (hb : m.Beside m')
    (hw : Wrote (Scope P crew) m.kernel.memory m'.kernel.memory h va data) :
    Poised n P S crew m' (Function.update σ id ((σ id).write va data)) := by
  refine hq.stored hb hw fun id' i w hc' hp => ?_
  rw [hw.shown i w ⟨⟨id', hc'⟩, .inl hp⟩]
  by_cases hid : id' = id
  · subst hid
    obtain rfl := hq.space_unique hc hc'
    rw [if_pos rfl, Function.update_self]
    exact Flat.write_at (hq.shown id' i w hc' hp)
  · have hi : i ≠ h := by
      rintro rfl
      exact hid (hq.distinct id' id i hc' hc)
    rw [if_neg hi, Function.update_of_ne hid]
    exact hq.shown id' i w hc' hp

/-- A fault record is stored outside the pages that the crew sees. -/
theorem noted (hb : m.Beside m') (hlen : data.length = FaultRecord.size)
    (hw : Wrote (Scope P crew) m.kernel.memory m'.kernel.memory h Kernel.recordBase data) :
    Poised n P S crew m' σ := by
  refine hq.stored hb hw fun id' i w hc' hp => ?_
  have hshown := hq.shown id' i w hc' hp
  rw [hw.shown i w ⟨⟨id', hc'⟩, .inl hp⟩]
  split
  · next hi =>
    subst hi
    rw [← hshown]
    refine Flat.write_of_lt _ _ ?_
    by_contra hin
    refine hq.aside _ hp ?_
    have hpage := Kernel.pageBase_record (show w - Kernel.recordBase < FaultRecord.size by omega)
    rwa [Nat.add_sub_cancel' (by omega), pageBase_exceptionPage] at hpage
  · exact hshown

/-- The frames that are left cover what the crew needs after a repair. -/
theorem demand_mended (hc : (id, h) ∈ crew) (hlazy : base ∈ m.kernel.memory.lazyPages h)
    (hm : Mends n count h base m m')
    (hcount : demand crew m.kernel.memory = count + 1 + m.kernel.memory.toll h scratchPage) :
    demand crew m'.kernel.memory ≤ count := by
  have hpages := hm.mended.lazyPages hq.proper.intact.memory hm.proper.intact.memory
  have hself := hpages h
  rw [if_pos rfl] at hself
  have hcard := Finset.card_erase_add_one hlazy
  have hrest :
      ∑ p ∈ crew.erase (id, h), ((m'.kernel.memory.lazyPages p.2).card + m'.kernel.memory.toll p.2 scratchPage) ≤
      ∑ p ∈ crew.erase (id, h), ((m.kernel.memory.lazyPages p.2).card + m.kernel.memory.toll p.2 scratchPage) := by
    refine Finset.sum_le_sum fun p hp => ?_
    obtain ⟨hne, hp⟩ := Finset.mem_erase.mp hp
    have hi : p.2 ≠ h := fun hi => hne (Prod.ext (hq.distinct p.1 id h (hi ▸ hp) hc) hi)
    rw [hpages, if_neg hi]
    exact Nat.add_le_add_left (hm.charted p.2 scratchPage) _
  rw [demand, ← Finset.add_sum_erase _ _ hc] at hcount ⊢
  rw [hself, hm.toll]
  dsimp only at hcount
  omega

theorem mended (hc : (id, h) ∈ crew) (hlazy : base ∈ m.kernel.memory.lazyPages h)
    (hm : Mends n count h base m m')
    (hcount : demand crew m.kernel.memory = count + 1 + m.kernel.memory.toll h scratchPage) :
    Poised n P S crew m' σ := by
  obtain ⟨frame, -, hmap⟩ := hm.mended.mapping
  have hb := hq.proper.intact.memory
  obtain ⟨hbase, e, he, hl⟩ := (mem_lazyPages hb).mp hlazy
  have hscratch : ¬(pageBase scratchPage = base) := by
    intro hb
    rw [← hb, show pageBase scratchPage = scratchPage by decide, (hq.equipped id h hc).scratch] at he
    cases he
  refine ⟨hm.proper, hq.distinct, fun id' i hc' => ?_, hq.aside, hq.within, fun id' i w hc' hp => ?_,
    fun id' i w hc' hs => ?_, fun i w hscope ho => ?_, fun id' i w hc' hp => ?_, ?_⟩
  · have heq := hq.equipped id' i hc'
    refine heq.beside hm.beside (hm.mended.opened heq.stack) ?_
    rw [hmap, if_neg fun h' => hscratch h'.2]
    exact heq.scratch
  · exact hm.mended.opened (hq.readable id' i w hc' hp)
  · rcases hq.storable id' i w hc' hs with ho | ⟨e', he', hl'⟩
    · exact .inl (hm.mended.opened ho)
    · by_cases hnew : i = h ∧ pageBase w = base
      · refine .inl ⟨⟨frame, Program.dataPage⟩, ?_, dataPage_open true⟩
        rw [hmap, if_pos hnew]
      · refine .inr ⟨e', ?_, hl'⟩
        rw [hmap, if_neg hnew]
        exact he'
  · exact hm.mended.alone hb (hq.lone i w hscope) ho
  · rw [hm.mended.view]
    exact hq.shown id' i w hc' hp
  · exact hm.stocked.less (hq.demand_mended hc hlazy hm hcount)

theorem costs_read {va : Word} {count : Nat} (cpu : Cpu) (hc : (id, h) ∈ crew)
    (hr : ∀ k, k < count → P (pageBase (va.toNat + k))) :
    Costs cpu id (Program.read va count) m 0 ((σ id).read va.toNat count) m := by
  have hread := readUser_view va.toNat count hq.proper.intact.memory fun k hk => hq.readable id h _ hc (hr k hk)
  have hsame : (m.kernel.memory.view h).read va.toNat count = (σ id).read va.toNat count :=
    Flat.read_congr fun k hk => hq.shown id h _ hc (hr k hk)
  rw [hsame] at hread
  exact costs_load (hq.equipped id h hc).space hread

/-- A fault of somebody in the crew at a page that waits for its copy is repaired, and fewer pages wait. -/
theorem repaired {e : Mapping} (cpu : Cpu) (hc : (id, h) ∈ crew) (hsp : onExceptionStack m.live.sp.toNat = false)
    (he : m.kernel.memory.mapping? h va = some e) (hl : e.isLazy = true)
    (ho : e.flags.contains (accessNeeds false) = true) :
    ∃ m₁ m₂, (m.faulting (storeFault va)).take cpu id = some m₁ ∧ m₁.live.ip.toNat = upcallEntry ∧
      Costs cpu id Program.trampoline m₁ 3 () m₂ ∧ Poised n P S crew m₂ σ ∧ m₂.live.sp = m.live.sp ∧
      (m₂.kernel.memory.lazyPages h).card < (m.kernel.memory.lazyPages h).card := by
  have hlazy : pageBase va ∈ m.kernel.memory.lazyPages h := (mem_lazyPages hq.proper.intact.memory).mpr
    ⟨pageBase_pageBase va, e, (mapping?_congr (pageBase_pageBase va)).trans he, hl⟩
  obtain ⟨count, hcount⟩ := exists_demand hc hlazy
  have hequipped := hq.equipped id h hc
  obtain ⟨m₁, m₂, htake, hip, hrepair, hb, ⟨bytes, hlen, hw⟩, hm, hsp₂⟩ := takes_repair cpu hq.proper hequipped
    (hcount ▸ hq.stocked) hsp (fun w hp => ⟨⟨id, hc⟩, .inr hp⟩)
    (hq.lone h exceptionPage ⟨⟨id, hc⟩, .inr pageBase_exceptionPage⟩ hequipped.stack) he hl ho
  have hspaces := hw.stored.spaces
  have hnoted := hq.noted hb hlen hw
  have hpages := hm.mended.lazyPages hnoted.proper.intact.memory hm.proper.intact.memory h
  rw [if_pos rfl, lazyPages_of_spaces hspaces] at hpages
  refine ⟨m₁, m₂, htake, hip, hrepair, hnoted.mended hc ((lazyPages_of_spaces hspaces h).symm ▸ hlazy) hm ?_, hsp₂, ?_⟩
  · rw [demand_of_spaces hspaces, toll_of_spaces hspaces, hcount]
  · rw [hpages]
    exact Finset.card_erase_lt_of_mem hlazy

omit hq in
/-- A store of somebody in the crew comes to its end, with a repair for each page that waits for its copy. -/
theorem costs_write {va : Word} {data : Bytes} (cpu : Cpu) (hc : (id, h) ∈ crew)
    (hs : ∀ k, k < data.length → S (pageBase (va.toNat + k))) (hq : Poised n P S crew m σ)
    (hsp : onExceptionStack m.live.sp.toNat = false) :
    ∃ k m', Costs cpu id (Program.write va data) m k () m' ∧
      Poised n P S crew m' (Function.update σ id ((σ id).write va.toNat data)) := by
  -- Induction on the number of pages of the environment that wait for their copies.
  generalize hn : (m.kernel.memory.lazyPages h).card = left
  induction left using Nat.strong_induction_on generalizing m σ with
  | h left ih =>
    have hscope : ∀ k, k < data.length → Scope P crew h (va.toNat + k) := fun k hk =>
      ⟨⟨id, hc⟩, .inl (hq.within _ (hs k hk))⟩
    have hstore := writeUser_view va.toNat data hq.proper.intact.memory hq.proper.clear
      (fun k hk => hq.readable id h _ hc (hq.within _ (hs k hk))) fun k hk ho => hq.lone h _ (hscope k hk) ho
    have hk := (hq.equipped id h hc).space
    cases hd : writeUser h va.toNat data m.kernel.memory with
    | done u memory =>
      obtain ⟨hw, -⟩ := hstore.of_done hd
      obtain ⟨m', hcost, hb, rfl, -⟩ := costs_store cpu hk hd
      exact ⟨0, m', hcost, hq.wrote hc hb hw⟩
    | refused f memory =>
      obtain ⟨k, hlt, rfl, hclosed, hw⟩ := hstore.of_refused hd
      -- What was written so far stays written.
      generalize hm₀ : ({ m with kernel := { m.kernel with memory } } : Machine) = m₀
      have hmem : m₀.kernel.memory = memory := by rw [← hm₀]
      have hb₀ : m.Beside m₀ := by
        rw [← hm₀]
        exact ⟨rfl, .refl _, rfl⟩
      rw [← hmem] at hw
      have hq₀ := hq.wrote hc hb₀ hw
      have hsp₀ : onExceptionStack m₀.live.sp.toNat = false := by
        rw [← hm₀]
        exact hsp
      -- The page is one that waits for its copy.
      obtain ⟨e, he, hl⟩ := (hq.storable id h _ hc (hs k hlt)).resolve_left hclosed
      obtain ⟨e', he', ho⟩ := hq.readable id h _ hc (hq.within _ (hs k hlt))
      obtain rfl := Option.some.inj (he.symm.trans he')
      have he₀ : m₀.kernel.memory.mapping? h (va.toNat + k) = some e := (hw.mapping? ..).trans he
      obtain ⟨m₁, m₂, htake, hip, hrepair, hq₂, hsp₂, hless⟩ := hq₀.repaired cpu hc hsp₀ he₀ hl ho
      have hfewer : (m₂.kernel.memory.lazyPages h).card < left := by
        rwa [lazyPages_of_spaces hw.stored.spaces h, hn] at hless
      obtain ⟨l, m', hcost, hq'⟩ := ih _ hfewer hq₂ (hsp₂ ▸ hsp₀) rfl
      have hfault : Kernel.userWrite id va.toNat data m.kernel = .refused (storeFault (va.toNat + k)) m₀.kernel := by
        rw [Kernel.userWrite_eq hk, Kernel.onMemory_refused hd, ← hm₀]
      refine ⟨1 + (3 + l), m', ?_, ?_⟩
      · refine costs_write_fault hfault ?_ hip hrepair hcost
        rw [← hm₀] at htake ⊢
        exact htake
      · rw [Function.update_self, Function.update_idem, Flat.write_again] at hq'
        exact hq'
    | halted p => exact (hstore.of_halted hd).elim

omit hq in
theorem live (hq : Poised n P S crew m σ) (live : Context) : Poised n P S crew { m with live } σ where
  proper := hq.proper
  distinct := hq.distinct
  equipped id i hc :=
    have he := hq.equipped id i hc
    ⟨he.owns, he.handler, he.stack, he.scratch⟩
  aside := hq.aside
  within := hq.within
  readable := hq.readable
  storable := hq.storable
  lone := hq.lone
  shown := hq.shown
  stocked := hq.stocked

omit hq in
/-- An access of somebody in the crew, off its exception stack, is one to the memory of its own. -/
theorem drive_act {a : Act} (cpu : Cpu) (hq : Poised n P S crew m σ) (hc : (a.env, h) ∈ crew)
    (hsp : onExceptionStack a.live.sp.toNat = false) (ha : a.access.Within P S) : ∃ k m',
    (∀ budget, drive cpu a.env budget (a.access.request.program 0) { m with live := a.live } =
      if k ≤ budget then some (a.access.answer (σ a.env), m') else none) ∧
    Poised n P S crew m' (Function.update σ a.env (a.access.after (σ a.env))) := by
  obtain ⟨id, live, access⟩ := a
  cases access with
  | read va count =>
    have hcost := (hq.live live).costs_read cpu hc (ha.read va count rfl)
    refine ⟨0, _, drive_read hcost, ?_⟩
    rw [Access.after, Function.update_eq_self]
    exact hq.live live
  | write va data =>
    obtain ⟨k, m', hcost, hq'⟩ := (hq.live live).costs_write cpu hc (ha.write va data rfl) hsp
    exact ⟨k, m', drive_write hcost, hq'⟩

omit hq in
theorem plays {acts : List Act} (cpu : Cpu) (hq : Poised n P S crew m σ)
    (ha : ∀ a ∈ acts, (∃ h, (a.env, h) ∈ crew) ∧ onExceptionStack a.live.sp.toNat = false ∧ a.access.Within P S) :
    Plays cpu acts m (apart acts σ) := by
  induction acts generalizing m σ with
  | nil => exact plays_nil
  | cons a rest ih =>
    obtain ⟨⟨h, hc⟩, hsp, hin⟩ := ha a (List.mem_cons_self ..)
    obtain ⟨k, m', hd, hq'⟩ := hq.drive_act cpu hc hsp hin
    exact plays_cons hd (ih hq' fun b hb => ha b (List.mem_cons_of_mem _ hb))

end Poised

end Machine

end Simulation

end Exokernel
