import Exokernel.Proofs.Memory.Accesses
import Mathlib.Data.List.Induction

/-!
# Stores under sharing

A frame may be mapped at several addresses and in several spaces, also twice within the range of one store. Each place
in a frame then has the last byte that was stored to it, and every space that maps the frame shows it.
-/

set_option autoImplicit false

namespace Exokernel

theorem Page.get_write_singleton (p : Page) (k o : Fin pageSize) (b : UInt8) :
    (p.write k.val [b]).get o = if k = o then b else p.get o := by
  rw [Page.get_write]
  by_cases hk : k = o
  · subst hk
    simp
  · rw [if_neg hk]
    split
    · next hle =>
      have hout : [b][o.val - k.val]? = none := List.getElem?_eq_none (by
        have hne : k.val ≠ o.val := fun e => hk (Fin.ext e)
        rw [List.length_singleton]
        omega)
      rw [hout, Option.getD_none]
    · rfl

namespace Memory

variable {n count size : Nat} {m m' m'' : Memory} {h i : Handle} {va : Nat} {f : FrameId} {o : Fin pageSize} {b : UInt8}
  {data : Bytes}

def target (m : Memory) (h : Handle) (va : Nat) : Option (FrameId × Fin pageSize) :=
  (m.mapping? h va).map fun e => (e.frame, pageOffset va)

def byteAt (m : Memory) (f : FrameId) (o : Fin pageSize) : UInt8 := (m.frames.page f).get o

/-- What a place holds after the first `size` bytes of `data` were stored at `va`: the last of them that went there, or
what it held before if none did. -/
def Holds (m : Memory) (h : Handle) (va : Nat) (data : Bytes) (size : Nat) (f : FrameId) (o : Fin pageSize)
    (b : UInt8) : Prop :=
  (∃ i, i < size ∧ m.target h (va + i) = some (f, o) ∧
      (∀ j, i < j → j < size → m.target h (va + j) ≠ some (f, o)) ∧ data[i]? = some b) ∨
    (∀ i, i < size → m.target h (va + i) ≠ some (f, o)) ∧ b = m.byteAt f o

def Apart (m : Memory) (h : Handle) (va count : Nat) : Prop :=
  ∀ i j e e', i < count → j < count → m.mapping? h (va + i) = some e → m.mapping? h (va + j) = some e' →
    e.frame = e'.frame → pageBase (va + i) = pageBase (va + j)

structure Repainted (m m' : Memory) : Prop where
  rest : m' = { m with frames := m'.frames }
  counts : FramePool.Alike m.frames m'.frames
  denying : m'.frames.denyNext = m.frames.denyNext

theorem Repainted.refl (m : Memory) : Repainted m m := ⟨rfl, ⟨fun _ => rfl, fun _ => rfl, rfl, rfl⟩, rfl⟩

theorem Repainted.trans (h : Repainted m m') (h' : Repainted m' m'') : Repainted m m'' := by
  refine ⟨?_, h.counts.trans h'.counts, h'.denying.trans h.denying⟩
  rw [h'.rest, h.rest]

theorem Repainted.spaces (h : Repainted m m') : m'.spaces = m.spaces := by rw [h.rest]

theorem Repainted.settled (h : Repainted m m') (hb : Settled n m) : Settled n m' := by
  rw [h.rest]
  exact hb.alike h.counts

theorem Repainted.target (hr : Repainted m m') (h : Handle) (va : Nat) : m'.target h va = m.target h va := by
  rw [Memory.target, Memory.target, mapping?_of_spaces hr.spaces]

theorem Repainted.open_iff {write : Bool} (hr : Repainted m m') : m'.Open h va write ↔ m.Open h va write := by
  rw [Open, Open, mapping?_of_spaces hr.spaces]

theorem target_of_mapping {e : Mapping} (he : m.mapping? h va = some e) :
    m.target h va = some (e.frame, pageOffset va) := by
  rw [target, he, Option.map_some]

theorem target_eq_some (ht : m.target h va = some (f, o)) :
    ∃ e, m.mapping? h va = some e ∧ e.frame = f ∧ pageOffset va = o := by
  obtain ⟨e, he, hp⟩ := Option.map_eq_some_iff.mp ht
  exact ⟨e, he, congrArg Prod.fst hp, congrArg Prod.snd hp⟩

theorem view_of_target (ht : m.target h va = some (f, o)) : m.view h va = m.byteAt f o := by
  obtain ⟨e, he, rfl, rfl⟩ := target_eq_some ht
  exact view_of_mapping he

theorem repainted_poke (m : Memory) (h : Handle) (va : Nat) (b : UInt8) : Repainted m (m.poke h va b) := by
  rw [poke]
  split
  · exact ⟨rfl, FramePool.alike_write _ _, rfl⟩
  · exact .refl m

theorem repainted_pokes (m : Memory) (h : Handle) (va : Nat) (data : Bytes) : Repainted m (m.pokes h va data) := by
  induction data generalizing m va with
  | nil => exact .refl m
  | cons b rest ih => exact (repainted_poke m h va b).trans (ih ..)

/-- One stored byte changes the one place that its address is mapped to. -/
theorem byteAt_poke (hb : Settled n m) :
    (m.poke h va b).byteAt f o = if m.target h va = some (f, o) then b else m.byteAt f o := by
  cases he : m.mapping? h va with
  | none =>
    rw [poke, target, he]
    rfl
  | some e =>
    rw [poke_of_mapping he, target_of_mapping he]
    by_cases hf : f = e.frame
    · subst hf
      have hget := Page.get_write_singleton (m.frames.page e.frame) (pageOffset va) o b
      have hpage := FramePool.page_write_self (Settled.used_of_mapping? hb he) (va % pageSize) [b]
      simp only [byteAt, hpage, Option.some.injEq, Prod.mk.injEq, true_and]
      exact hget
    · have hne : ¬some (e.frame, pageOffset va) = some (f, o) := fun hp =>
        hf (congrArg Prod.fst (Option.some.inj hp)).symm
      rw [if_neg hne]
      exact congrArg (Vector.get · o) (FramePool.page_update_of_ne hf)

/-- Bytes stored one after another: each place has the last that went there. -/
theorem holds_pokes (hb : Settled n m) (f : FrameId) (o : Fin pageSize) :
    Holds m h va data data.length f o ((m.pokes h va data).byteAt f o) := by
  -- Induction from the end of the data, where the last byte overrules the earlier ones.
  induction data using List.reverseRecOn with
  | nil => exact .inr ⟨fun i hi => absurd hi (Nat.not_lt_zero i), rfl⟩
  | append_singleton data c ih =>
    have hr := repainted_pokes m h va data
    have hlen : (data ++ [c]).length = data.length + 1 := by simp
    rw [pokes_append, pokes, pokes, byteAt_poke (hr.settled hb), hr.target, hlen]
    by_cases ht : m.target h (va + data.length) = some (f, o)
    · rw [if_pos ht]
      exact .inl ⟨data.length, Nat.lt_succ_self _, ht, fun j hj hj' => by omega, by simp⟩
    · rw [if_neg ht]
      rcases ih with ⟨i, hi, hti, hlast, hd⟩ | ⟨hnone, hsame⟩
      · refine .inl ⟨i, Nat.lt_succ_of_lt hi, hti, fun j hj hj' => ?_, ?_⟩
        · rcases Nat.lt_succ_iff_lt_or_eq.mp hj' with hlt | rfl
          · exact hlast j hj hlt
          · exact ht
        · rw [List.getElem?_append_left hi, hd]
      · refine .inr ⟨fun i hi => ?_, hsame⟩
        rcases Nat.lt_succ_iff_lt_or_eq.mp hi with hlt | rfl
        · exact hnone i hlt
        · exact ht

theorem Holds.of_take (hh : Holds m h va (data.take size) size f o b) : Holds m h va data size f o b := by
  rcases hh with ⟨i, hi, ht, hlast, hd⟩ | hnone
  · rw [List.getElem?_take_of_lt hi] at hd
    exact .inl ⟨i, hi, ht, hlast, hd⟩
  · exact .inr hnone

/-- Where the pages of the range have frames of their own, each place has the byte of its address. -/
theorem Holds.apart {k : Nat} (ha : Apart m h va size) (hk : k < size) (ht : m.target h (va + k) = some (f, o))
    (hh : Holds m h va data size f o b) : data[k]? = some b := by
  rcases hh with ⟨i, hi, hti, -, hd⟩ | ⟨hnone, -⟩
  · obtain ⟨e, he, hf, ho⟩ := target_eq_some ht
    obtain ⟨e', he', hf', ho'⟩ := target_eq_some hti
    have hbase := ha i k e' e hi hk he' he (hf'.trans hf.symm)
    have hoff : (va + i) % pageSize = (va + k) % pageSize := congrArg Fin.val (ho'.trans ho.symm)
    have hik : i = k := by
      simp only [pageBase, pageSize] at hbase hoff
      omega
    rw [← hik, hd]
  · exact absurd ht (hnone k hk)

section loads

variable {w c : Nat} (hb : Settled n m) (hr : Repainted m m')
  (hh : ∀ f o, Holds m h va data size f o (m'.byteAt f o))
include hb hr hh

theorem load_holds (ho : ∀ k, k < c → m.Open i (w + k) false) :
    ∃ bytes, readUser i w c m' = .done bytes m' ∧ bytes.length = c ∧
      ∀ k, k < c → ∃ f o b, m.target i (w + k) = some (f, o) ∧ bytes[k]? = some b ∧ Holds m h va data size f o b := by
  refine ⟨_, readUser_view w c (hr.settled hb) fun k hk => hr.open_iff.mpr (ho k hk), Flat.length_read .., ?_⟩
  intro k hk
  obtain ⟨e, he, -⟩ := ho k hk
  have ht := target_of_mapping he
  refine ⟨e.frame, pageOffset (w + k), _, ht, ?_, hh ..⟩
  rw [← view_of_target ((hr.target i (w + k)).trans ht)]
  simp [Flat.read, hk]

theorem load_back (hs : size = data.length) (ho : ∀ k, k < size → m.Open h (va + k) false)
    (ha : Apart m h va size) : readUser h va data.length m' = .done data m' := by
  subst hs
  obtain ⟨bytes, hread, hlen, hbytes⟩ := load_holds hb hr hh ho
  rw [hread]
  congr 1
  refine List.ext_getElem? fun k => ?_
  by_cases hk : k < data.length
  · obtain ⟨f, o, b, ht, hbk, hholds⟩ := hbytes k hk
    rw [hbk, hholds.apart ha hk ht]
  · rw [List.getElem?_eq_none (by omega), List.getElem?_eq_none (by omega)]

end loads

theorem writeUser_ends (data : Bytes) (hb : Settled n m) (hva : va < addressLimit) : ∃ size, size ≤ data.length ∧
    (∀ i, i < size → m.Open h (va + i) true) ∧
    (writeUser h va data m = .done () (m.pokes h va (data.take size)) ∧ size = data.length ∨
      ∃ fault, writeUser h va data m = .refused fault (m.pokes h va (data.take size)) ∧ fault.va = va + size ∧
        size < data.length) := by
  refine ⟨m.reach h va data.length, reach_le, fun i hi => reach_open hi, ?_⟩
  rw [writeUser_eq hb hva]
  cases hf : m.firstFault h va data.length true with
  | none => exact .inl ⟨rfl, by rw [reach, hf]⟩
  | some fault =>
    obtain ⟨k, hk, hfva, -⟩ := firstFault_eq_some hf
    have hreach : m.reach h va data.length = k := by simp only [reach, hf, hfva, Nat.add_sub_cancel_left]
    exact .inr ⟨fault, rfl, by rw [hreach, hfva], by rwa [hreach]⟩

theorem writeUser_open (data : Bytes) (hb : Settled n m) (hva : va < addressLimit)
    (ho : ∀ i, i < data.length → m.Open h (va + i) true) : writeUser h va data m = .done () (m.pokes h va data) := by
  have hnone := firstFault_eq_none_iff.mpr ho
  rw [writeUser_eq hb hva, reach, hnone, List.take_length]
  rfl

/-- A store comes to its first `size` bytes: all of them, or those below the address that is refused. Each place that
they are mapped to has the last byte that went there, nothing else differs, every space that may load from a frame shows
what it holds now, and a store that was done is loaded back if its pages have frames of their own. -/
theorem store_reaches_frames (hm : Attainable count m) (h : Handle) {va : Nat} (hva : va < addressLimit)
    (data : Bytes) : ∃ size m',
      (writeUser h va data m = .done () m' ∧ size = data.length ∨
        ∃ fault, writeUser h va data m = .refused fault m' ∧ fault.va = va + size ∧ size < data.length) ∧
      (∀ i, i < size → m.Open h (va + i) true) ∧ (∀ f o, Holds m h va data size f o (m'.byteAt f o)) ∧
      Repainted m m' ∧
      (∀ i w c, (∀ k, k < c → m.Open i (w + k) false) → ∃ bytes, readUser i w c m' = .done bytes m' ∧
        bytes.length = c ∧ ∀ k, k < c → ∃ f o b, m.target i (w + k) = some (f, o) ∧ bytes[k]? = some b ∧
          Holds m h va data size f o b) ∧
      (writeUser h va data m = .done () m' → Apart m h va data.length →
        readUser h va data.length m' = .done data m') := by
  have hb := hm.settled
  obtain ⟨size, hle, hopen, hend⟩ := writeUser_ends data hb hva
  have hr := repainted_pokes m h va (data.take size)
  have hh : ∀ f o, Holds m h va data size f o ((m.pokes h va (data.take size)).byteAt f o) := fun f o => by
    have hpokes : Holds m h va (data.take size) (data.take size).length f o _ := holds_pokes hb f o
    rw [List.length_take_of_le hle] at hpokes
    exact hpokes.of_take
  refine ⟨size, _, hend, hopen, hh, hr, fun i w c ho => load_holds hb hr hh ho, fun hdone ha => ?_⟩
  rcases hend with ⟨-, hs⟩ | ⟨fault, hf, -⟩
  · rw [← hs] at ha
    exact load_back hb hr hh hs (fun k hk => (hopen k hk).read) ha
  · rw [hdone] at hf
    cases hf

/-- A byte stored at the end of the first page is loaded at the end of the second, which is the same frame. -/
theorem store_reaches_sharedPage : Attainable 4 sharedPage ∧ 0x400fff < addressLimit ∧
    ∃ m', writeUser ⟨0⟩ 0x400fff [0xab, 0xcd] sharedPage = .done () m' ∧
      readUser ⟨0⟩ 0x401fff 1 m' = .done [0xab] m' := by
  have hm := reachable_sharedPage.attainable
  have hva : 0x400fff < addressLimit := by decide
  obtain ⟨size, m', hw, -, -, -, hload, -⟩ := store_reaches_frames hm ⟨0⟩ hva [0xab, 0xcd]
  have hopen : sharedPage.firstFault ⟨0⟩ 0x400fff 2 true = none := by decide +kernel
  have hdone : writeUser ⟨0⟩ 0x400fff [0xab, 0xcd] sharedPage = .done () m' ∧ size = 2 := by
    rcases hw with hw | ⟨fault, hw, -⟩
    · exact hw
    · have heq : writeUser ⟨0⟩ 0x400fff [0xab, 0xcd] sharedPage = _ := writeUser_eq hm.settled hva
      rw [hw, show [(0xab : UInt8), 0xcd].length = 2 from rfl, hopen] at heq
      cases heq
  obtain ⟨hdone, rfl⟩ := hdone
  refine ⟨hm, hva, m', hdone, ?_⟩
  have hsame : sharedPage.target ⟨0⟩ (0x400fff + 0) = sharedPage.target ⟨0⟩ (0x401fff + 0) := by decide
  have hother : sharedPage.target ⟨0⟩ (0x400fff + 1) ≠ sharedPage.target ⟨0⟩ (0x401fff + 0) := by decide
  obtain ⟨bytes, hread, hlen, hbytes⟩ := hload ⟨0⟩ 0x401fff 1 fun k hk => by
    obtain rfl : k = 0 := by omega
    exact fault?_eq_none_iff.mp (by decide)
  obtain ⟨f, o, b, ht, hb, ⟨i, hi, hti, -, hd⟩ | ⟨hnone, -⟩⟩ := hbytes 0 Nat.one_pos
  · obtain rfl | rfl : i = 0 ∨ i = 1 := by omega
    · obtain ⟨x, rfl⟩ := List.length_eq_one_iff.mp hlen
      obtain rfl : x = 0xab := Option.some.inj (hb.trans hd.symm)
      exact hread
    · exact absurd (hti.trans ht.symm) hother
  · exact absurd (hsame.trans ht) (hnone 0 (by decide))

end Memory

end Exokernel
