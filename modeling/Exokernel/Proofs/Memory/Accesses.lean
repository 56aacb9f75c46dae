import Exokernel.Proofs.Memory.Bytes
import Exokernel.Proofs.Memory.Conservation

/-!
# What accesses come to

A user access ends at the first byte that is closed to it. A check, a load and a store cut their range into pages in
their own ways and find the same byte. What a store has written by then is what single bytes have, stored one after
another through the mappings of their addresses.
-/

set_option autoImplicit false

namespace Exokernel

def Outcome.verdict {σ ε α : Type} : Outcome σ ε α → Except Panic (Option ε)
  | .done _ _ => .ok none
  | .refused e _ => .ok (some e)
  | .halted p => .error p

namespace Page

def flat (p : Page) : Flat := fun w => if hw : w < pageSize then p.get ⟨w, hw⟩ else 0

theorem flat_write (p : Page) (offset : Nat) (data : Bytes) {w : Nat} (hw : w < pageSize) :
    (p.write offset data).flat w = p.flat.write offset data w := by
  simp only [flat, dif_pos hw, get_write, Flat.write]

theorem ext_flat {p q : Page} (h : ∀ w, w < pageSize → p.flat w = q.flat w) : p = q := by
  refine Vector.ext fun w hw => ?_
  have hflat := h w hw
  simp only [flat, dif_pos hw] at hflat
  exact hflat

theorem write_append (p : Page) (offset : Nat) (a b : Bytes) :
    p.write offset (a ++ b) = (p.write offset a).write (offset + a.length) b := by
  refine ext_flat fun w hw => ?_
  rw [flat_write _ _ _ hw, flat_write _ _ _ hw, Flat.write_append, Flat.write_at (flat_write p offset a hw)]

end Page

theorem FramePool.write_append (p : FramePool) (f : FrameId) (offset : Nat) (a b : Bytes) :
    p.write f offset (a ++ b) = (p.write f offset a).write f (offset + a.length) b := by
  have hmodify : (p.write f offset (a ++ b)).frames = ((p.write f offset a).write f (offset + a.length) b).frames := by
    refine Array.ext_getElem? fun i => ?_
    simp only [write, getElem?_update]
    split
    · cases p.frames[i]? with
      | none => simp only [Option.map_none]
      | some fr => simp only [Option.map_some, Frame.page, Option.getD_some, Page.write_append]
    · rfl
  simp only [write, update] at hmodify ⊢
  rw [hmodify]

namespace Memory

variable {n count : Nat} {m m' : Memory} {h : Handle} {va : Nat} {e : Mapping} {f : AccessFault} {data : Bytes}
  {write : Bool}

def fault? (m : Memory) (h : Handle) (va : Nat) (write : Bool) : Option AccessFault :=
  match m.frameFor h va write with
  | .ok _ => none
  | .error f => some f

def firstFault (m : Memory) (h : Handle) (va count : Nat) (write : Bool) : Option AccessFault :=
  (List.range count).findSome? fun k => m.fault? h (va + k) write

def reach (m : Memory) (h : Handle) (va count : Nat) : Nat :=
  match m.firstFault h va count true with
  | none => count
  | some f => f.va - va

def ending {α : Type} (fault : Option AccessFault) (a : α) (m : Memory) : Outcome Memory AccessFault α :=
  match fault with
  | none => .done a m
  | some f => .refused f m

def poke (m : Memory) (h : Handle) (va : Nat) (b : UInt8) : Memory :=
  match m.mapping? h va with
  | some e => { m with frames := m.frames.write e.frame (va % pageSize) [b] }
  | none => m

def pokes (m : Memory) (h : Handle) (va : Nat) : Bytes → Memory
  | [] => m
  | b :: rest => (m.poke h va b).pokes h (va + 1) rest

theorem verdict_ending {α : Type} (fault : Option AccessFault) (a : α) (m : Memory) :
    (ending fault a m).verdict = .ok fault := by
  cases fault with
  | none => rfl
  | some f => rfl

section faults

theorem fault?_eq_none_iff : m.fault? h va write = none ↔ m.Open h va write := by
  rw [fault?, Open]
  simp only [frameFor, mapping?]
  cases (m.space? h).bind fun s => s.table.lookup va with
  | none => simp
  | some e => by_cases hf : e.flags.contains (accessNeeds write) = true <;> simp [hf]

theorem frameFor_of_fault (hf : m.fault? h va write = some f) : m.frameFor h va write = .error f := by
  rw [fault?] at hf
  split at hf
  · cases hf
  · next hfor =>
    cases hf
    exact hfor

theorem va_of_fault (hf : m.fault? h va write = some f) : f.va = va := by
  have hfor := frameFor_of_fault hf
  rw [frameFor] at hfor
  split at hfor
  · cases hfor
    rfl
  · split at hfor
    · cases hfor
    · cases hfor
      rfl

theorem fault?_of_spaces (hs : m'.spaces = m.spaces) : m'.fault? h va write = m.fault? h va write := by
  simp only [fault?, frameFor, space?, hs]

theorem firstFault_of_spaces (hs : m'.spaces = m.spaces) :
    m'.firstFault h va count write = m.firstFault h va count write := by
  simp only [firstFault, fault?_of_spaces hs]

@[simp] theorem firstFault_zero : m.firstFault h va 0 write = none := rfl

theorem firstFault_one : m.firstFault h va 1 write = m.fault? h va write := by
  rw [firstFault, List.range_one, List.findSome?_singleton]
  rfl

theorem firstFault_eq_none_iff :
    m.firstFault h va count write = none ↔ ∀ k, k < count → m.Open h (va + k) write := by
  simp only [firstFault, List.findSome?_eq_none_iff, List.mem_range, fault?_eq_none_iff]

theorem firstFault_add (a b : Nat) : m.firstFault h va (a + b) write =
    (m.firstFault h va a write).or (m.firstFault h (va + a) b write) := by
  simp only [firstFault, List.range_add, List.findSome?_append, List.findSome?_map, Function.comp_def, Nat.add_assoc]

/-- The lowest closed byte, with the bytes below it open. -/
theorem firstFault_eq_some (hf : m.firstFault h va count write = some f) :
    ∃ k, k < count ∧ f.va = va + k ∧ ¬m.Open h (va + k) write ∧ ∀ j, j < k → m.Open h (va + j) write := by
  induction count with
  | zero => cases hf
  | succ count ih =>
    rw [firstFault_add] at hf
    cases hlow : m.firstFault h va count write with
    | some g =>
      rw [hlow, Option.some_or] at hf
      obtain ⟨k, hk, hrest⟩ := ih (hlow.trans hf)
      exact ⟨k, Nat.lt_succ_of_lt hk, hrest⟩
    | none =>
      have hlast : m.fault? h (va + count) write = some f := by rwa [hlow, Option.none_or, firstFault_one] at hf
      refine ⟨count, Nat.lt_succ_self _, va_of_fault hlast, fun ho => ?_, firstFault_eq_none_iff.mp hlow⟩
      rw [fault?_eq_none_iff.mpr ho] at hlast
      cases hlast

/-- The bytes of one page are open or closed together, so that an access looks at one of them. -/
theorem firstFault_chunk (hc : count ≠ 0) : m.firstFault h va count write =
    (m.fault? h va write).or (m.firstFault h (va + chunk va count) (count - chunk va count) write) := by
  have hle : chunk va count ≤ count := Nat.min_le_right ..
  have hsum : m.firstFault h va count write =
      (m.firstFault h va (chunk va count) write).or
        (m.firstFault h (va + chunk va count) (count - chunk va count) write) := by
    rw [← firstFault_add, Nat.add_sub_cancel' hle]
  rw [hsum]
  congr 1
  cases hf : m.fault? h va write with
  | none =>
    have ho := fault?_eq_none_iff.mp hf
    exact firstFault_eq_none_iff.mpr fun k hk => ho.congr (pageBase_add hk)
  | some f =>
    obtain ⟨k, hk⟩ := Nat.exists_eq_succ_of_ne_zero (chunk_pos hc).ne'
    rw [hk, Nat.succ_eq_one_add, firstFault_add, firstFault_one, hf, Option.some_or]

theorem reach_of_spaces (hs : m'.spaces = m.spaces) : m'.reach h va count = m.reach h va count := by
  simp only [reach, firstFault_of_spaces hs]

theorem reach_le : m.reach h va count ≤ count := by
  rw [reach]
  split
  · exact Nat.le_refl _
  · next hf =>
    obtain ⟨k, hk, hva, -⟩ := firstFault_eq_some hf
    omega

theorem reach_open {k : Nat} (hk : k < m.reach h va count) : m.Open h (va + k) true := by
  rw [reach] at hk
  split at hk
  · next hf => exact firstFault_eq_none_iff.mp hf k hk
  · next hf =>
    obtain ⟨j, hj, hva, -, hopen⟩ := firstFault_eq_some hf
    exact hopen k (by omega)

theorem reach_of_fault (hf : m.fault? h va true = some f) (hc : count ≠ 0) : m.reach h va count = 0 := by
  rw [reach, firstFault_chunk hc, hf, Option.some_or]
  simp only [va_of_fault hf, Nat.sub_self]

theorem reach_chunk (hf : m.fault? h va true = none) (hc : count ≠ 0) : m.reach h va count =
    chunk va count + m.reach h (va + chunk va count) (count - chunk va count) := by
  have hle : chunk va count ≤ count := Nat.min_le_right ..
  rw [reach, firstFault_chunk hc, hf, Option.none_or, reach]
  split
  · omega
  · next hrest =>
    obtain ⟨k, hk, hva, -⟩ := firstFault_eq_some hrest
    simp only [hva]
    omega

end faults

section pokes

theorem poke_of_mapping (he : m.mapping? h va = some e) (b : UInt8) :
    m.poke h va b = { m with frames := m.frames.write e.frame (va % pageSize) [b] } := by
  simp only [poke, he]

theorem pokes_append (m : Memory) (h : Handle) (va : Nat) (a b : Bytes) :
    m.pokes h va (a ++ b) = (m.pokes h va a).pokes h (va + a.length) b := by
  induction a generalizing m va with
  | nil => rfl
  | cons x a ih =>
    rw [List.cons_append, pokes, pokes, ih, List.length_cons, Nat.add_assoc, Nat.add_comm 1]

/-- Within a page the bytes go to one frame, and may be written at once. -/
theorem pokes_chunk {part : Bytes} (he : m.mapping? h va = some e) (hpart : part ≠ [])
    (hpage : ∀ k, k < part.length → pageBase (va + k) = pageBase va) :
    m.pokes h va part = { m with frames := m.frames.write e.frame (va % pageSize) part } := by
  induction part generalizing m va with
  | nil => exact absurd rfl hpart
  | cons b rest ih =>
    rw [pokes, poke_of_mapping he]
    cases rest with
    | nil => rfl
    | cons c rest =>
      have hnext : pageBase (va + 1) = pageBase va := hpage 1 (by simp)
      have hoff : (va + 1) % pageSize = va % pageSize + [b].length := by
        simp only [List.length_singleton, pageBase, pageSize] at hnext ⊢
        omega
      have he' : ({ m with frames := m.frames.write e.frame (va % pageSize) [b] } : Memory).mapping? h (va + 1) =
          some e := (mapping?_congr hnext).trans he
      rw [ih he' (List.cons_ne_nil c rest), hoff, ← FramePool.write_append]
      · rfl
      · intro k hk
        rw [hnext, Nat.add_assoc, Nat.add_comm 1]
        exact hpage (k + 1) (Nat.succ_lt_succ hk)

end pokes

/-- A load has the bytes that the space shows, or meets the first fault. -/
theorem readUser_eq (hb : Settled n m) (hva : va < addressLimit) :
    readUser h va count m = ending (m.firstFault h va count false) ((m.view h).read va count) m := by
  induction count using Nat.strong_induction_on generalizing va with
  | h count ih =>
    by_cases hc : count = 0
    · subst hc
      rw [readUser, dif_pos rfl]
      rfl
    · rw [readUser, dif_neg hc, if_pos hva, Action.state_bind, firstFault_chunk hc]
      cases hf : m.fault? h va false with
      | some f => rw [frameFor_of_fault hf, Action.lift_error_bind, Option.some_or, ending]
      | none =>
        obtain ⟨e, he, hflags⟩ := fault?_eq_none_iff.mp hf
        have hlt := Open.lt_utop hb ⟨e, he, hflags⟩
        have hpos := @chunk_pos va _ hc
        have hnext : va + chunk va count < addressLimit := by
          simp only [chunk, utop, pageSize, addressLimit] at *
          omega
        rw [frameFor_of_mapping he hflags, Action.lift_ok_bind, Option.none_or, Action.bind_apply,
          ih (count - chunk va count) (by omega) hnext, slice_view he]
        cases m.firstFault h (va + chunk va count) (count - chunk va count) false with
        | some f => rfl
        | none =>
          have hsum : chunk va count + (count - chunk va count) = count := Nat.add_sub_cancel' (Nat.min_le_right ..)
          simp only [ending, Action.pure_apply, ← Flat.read_append, hsum]

/-- The pages of a check meet the first fault of its bytes. -/
theorem checkPages_eq (hb : Settled n m) {page stop : Nat} (ha : page % pageSize = 0) (hva : va < page + pageSize)
    (hstop : va < stop) : checkPages h va page stop write m =
      ending (m.firstFault h (max page va) (stop - max page va) write) () m := by
  -- Induction on the pages that are left.
  generalize hn : stop - page = k
  induction k using Nat.strong_induction_on generalizing page with
  | h k ih =>
    rw [checkPages]
    by_cases hlt : page < stop
    · have hc : stop - max page va ≠ 0 := by omega
      rw [if_pos hlt, Action.state_bind, firstFault_chunk hc]
      cases hf : m.fault? h (max page va) write with
      | some f => rw [frameFor_of_fault hf, Action.lift_error_bind, Option.some_or, ending]
      | none =>
        obtain ⟨e, he, hflags⟩ := fault?_eq_none_iff.mp hf
        have hu := Open.lt_utop hb ⟨e, he, hflags⟩
        have hp : page + pageSize < addressLimit := by
          simp only [utop, pageSize, addressLimit] at *
          omega
        have hmax : max (page + pageSize) va = page + pageSize := Nat.max_eq_left (Nat.le_of_lt hva)
        -- The bytes behind this page, if any, begin at the next one.
        have hrest : m.firstFault h (max page va + chunk (max page va) (stop - max page va))
            (stop - max page va - chunk (max page va) (stop - max page va)) write =
              m.firstFault h (page + pageSize) (stop - (page + pageSize)) write := by
          by_cases hend : stop ≤ page + pageSize
          · have hall : stop - max page va - chunk (max page va) (stop - max page va) = 0 := by
              simp only [chunk, pageSize] at *
              omega
            rw [hall, Nat.sub_eq_zero_of_le hend, firstFault_zero, firstFault_zero]
          · have hchunk : max page va + chunk (max page va) (stop - max page va) = page + pageSize := by
              simp only [chunk, pageSize] at *
              omega
            rw [Nat.sub_sub, hchunk]
        rw [frameFor_of_mapping he hflags, Action.lift_ok_bind, if_pos hp, Option.none_or, hrest,
          ih (stop - (page + pageSize)) (by simp only [pageSize]; omega) (by rw [Nat.add_mod_right, ha])
            (Nat.lt_of_lt_of_le hva (Nat.le_add_right _ _)) rfl, hmax]
    · have hnone : stop - max page va = 0 := by omega
      rw [if_neg hlt, hnone]
      rfl

theorem checkUser_eq (hb : Settled n m) (hr : va + count < addressLimit) :
    checkUser h va count write m = ending (m.firstFault h va count write) () m := by
  rw [checkUser]
  by_cases hc : count = 0
  · rw [if_pos hc, hc]
    rfl
  · have hva : va < pageBase va + pageSize := by
      simp only [pageBase, pageSize]
      omega
    have hmax : max (pageBase va) va = va := Nat.max_eq_right (Nat.sub_le ..)
    rw [if_neg hc, if_pos hr, checkPages_eq hb (pageBase_mod va) hva (by omega), hmax, Nat.add_sub_cancel_left]

/-- A store leaves its bytes up to the first fault, one after another. -/
theorem writeUser_eq (hb : Settled n m) (hva : va < addressLimit) : writeUser h va data m =
    ending (m.firstFault h va data.length true) () (m.pokes h va (data.take (m.reach h va data.length))) := by
  generalize hn : data.length = count
  induction count using Nat.strong_induction_on generalizing va data m with
  | h count ih =>
    subst hn
    rw [writeUser]
    by_cases hd : data.length = 0
    · rw [dif_pos hd, List.eq_nil_of_length_eq_zero hd]
      rfl
    · rw [dif_neg hd, if_pos hva, Action.state_bind, firstFault_chunk hd]
      cases hf : m.fault? h va true with
      | some f =>
        rw [frameFor_of_fault hf, Action.lift_error_bind, reach_of_fault hf hd, Option.some_or, List.take_zero]
        rfl
      | none =>
        obtain ⟨e, he, hflags⟩ := fault?_eq_none_iff.mp hf
        have hlt := Open.lt_utop hb ⟨e, he, hflags⟩
        have hpos := @chunk_pos va _ hd
        have hnext : va + chunk va data.length < addressLimit := by
          simp only [chunk, utop, pageSize, addressLimit] at *
          omega
        have htake : (data.take (chunk va data.length)).length = chunk va data.length :=
          List.length_take_of_le (Nat.min_le_right ..)
        have hpart : data.take (chunk va data.length) ≠ [] := List.ne_nil_of_length_pos (by rwa [htake])
        have hfirst := pokes_chunk he hpart fun k hk => pageBase_add (htake ▸ hk)
        have hlen : (data.drop (chunk va data.length)).length = data.length - chunk va data.length := List.length_drop
        rw [frameFor_of_mapping he hflags, Action.lift_ok_bind, Action.modify_bind, Option.none_or, reach_chunk hf hd,
          List.take_add, pokes_append, htake, ← hfirst]
        have hspaces : (m.pokes h va (data.take (chunk va data.length))).spaces = m.spaces := by rw [hfirst]
        have hsettled : Settled n (m.pokes h va (data.take (chunk va data.length))) :=
          hfirst ▸ settled_write hb e.frame _ _
        rw [ih _ (by omega) hsettled hnext hlen, firstFault_of_spaces hspaces, reach_of_spaces hspaces]

theorem accesses_go_on (hb : Settled n m) (hva : va < addressLimit) (p : Panic) :
    checkUser h va count write m ≠ .halted p ∧ readUser h va count m ≠ .halted p ∧
      writeUser h va data m ≠ .halted p :=
  ⟨fun hp => (checkUser_spec hb).of_halted hp, fun hp => (readUser_spec hb hva).of_halted hp,
    fun hp => (balanced_writeUser hb hva).of_halted hp⟩

/-- A check comes to what the load or the store of its range comes to, with the same fault, which is that of the
lowest closed byte. No sum of addresses leaves the address range on the way, even where the range of bytes does. -/
theorem checks_agree_with_accesses (hm : Attainable count m) (h : Handle) {va : Nat} (hva : va < addressLimit) :
    (∀ len, va + len < addressLimit →
      (checkUser h va len false m).verdict = (readUser h va len m).verdict) ∧
    (∀ data : Bytes, va + data.length < addressLimit →
      (checkUser h va data.length true m).verdict = (writeUser h va data m).verdict) ∧
    (∀ len write, va + len < addressLimit →
      ((checkUser h va len write m).verdict = .ok none ↔ ∀ k, k < len → m.Open h (va + k) write) ∧
      ∀ f, (checkUser h va len write m).verdict = .ok (some f) →
        ∃ k, k < len ∧ f.va = va + k ∧ ¬m.Open h (va + k) write ∧ ∀ j, j < k → m.Open h (va + j) write) ∧
    ∀ len write (data : Bytes) p, checkUser h va len write m ≠ .halted p ∧ readUser h va len m ≠ .halted p ∧
      writeUser h va data m ≠ .halted p := by
  have hb := hm.settled
  refine ⟨fun len hr => ?_, fun data hr => ?_, fun len write hr => ?_, fun len write data => accesses_go_on hb hva⟩
  · rw [checkUser_eq hb hr, readUser_eq hb hva, verdict_ending, verdict_ending]
  · rw [checkUser_eq hb hr, writeUser_eq hb hva, verdict_ending, verdict_ending]
  · rw [checkUser_eq hb hr, verdict_ending]
    exact ⟨⟨fun hn => firstFault_eq_none_iff.mp (Except.ok.inj hn),
        fun ho => congrArg Except.ok (firstFault_eq_none_iff.mpr ho)⟩,
      fun f hf => firstFault_eq_some (Except.ok.inj hf)⟩

/-- The first page behind the two that are mapped stops a store that begins in the second one. -/
theorem checks_agree_sharedPage : Attainable 4 sharedPage ∧ 0x401fff < addressLimit ∧
    (checkUser ⟨0⟩ 0x401fff 2 true sharedPage).verdict = .ok (some { va := 0x402000, code := accessCode true }) ∧
    (writeUser ⟨0⟩ 0x401fff [0xab, 0xcd] sharedPage).verdict =
      .ok (some { va := 0x402000, code := accessCode true }) := by
  have hm := reachable_sharedPage.attainable
  have hva : 0x401fff < addressLimit := by decide
  have hr : 0x401fff + 2 < addressLimit := by decide
  have hfault : sharedPage.firstFault ⟨0⟩ 0x401fff 2 true = some { va := 0x402000, code := accessCode true } := by
    decide +kernel
  have hcheck : (checkUser ⟨0⟩ 0x401fff 2 true sharedPage).verdict =
      .ok (some { va := 0x402000, code := accessCode true }) := by
    rw [checkUser_eq hm.settled hr, verdict_ending, hfault]
  obtain ⟨-, hagree, -⟩ := checks_agree_with_accesses hm ⟨0⟩ hva
  exact ⟨hm, hva, hcheck, (hagree [0xab, 0xcd] hr).symm.trans hcheck⟩

end Memory

end Exokernel
