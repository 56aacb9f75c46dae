import Exokernel.Proofs.Memory.Supply

/-!
# The bytes that a space shows

A space shows user mode one byte at each address of a mapped page. A load that reaches its pages reads these bytes. A
store changes them where it was made and nowhere else, as long as no other watched page is mapped to a frame that it
writes; a store that a page refuses has written up to that page.
-/

set_option autoImplicit false

namespace Exokernel

abbrev Flat := Nat → UInt8

namespace Flat

variable {f : Flat} {va : Nat}

def read (f : Flat) (va count : Nat) : Bytes := (List.range count).map fun i => f (va + i)

def write (f : Flat) (va : Nat) (data : Bytes) : Flat := fun w =>
  if va ≤ w then (data[w - va]?).getD (f w) else f w

theorem read_append (f : Flat) (va a b : Nat) : f.read va (a + b) = f.read va a ++ f.read (va + a) b := by
  simp only [read, List.range_add, List.map_append, List.map_map, Nat.add_assoc]
  rfl

theorem length_read (f : Flat) (va count : Nat) : (f.read va count).length = count := by
  rw [read, List.length_map, List.length_range]

theorem read_congr {g : Flat} {count : Nat} (h : ∀ i, i < count → g (va + i) = f (va + i)) :
    g.read va count = f.read va count := List.map_congr_left fun i hi => h i (List.mem_range.mp hi)

theorem write_nil (f : Flat) (va : Nat) : f.write va [] = f := by
  funext w
  simp [write]

theorem write_at {g : Flat} {w : Nat} {data : Bytes} (h : g w = f w) : g.write va data w = f.write va data w := by
  simp only [write, h]

theorem write_append (f : Flat) (va : Nat) (a b : Bytes) :
    f.write va (a ++ b) = (f.write va a).write (va + a.length) b := by
  funext w
  by_cases hlow : va ≤ w
  · by_cases hmid : w - va < a.length
    · have hnot : ¬va + a.length ≤ w := by omega
      simp only [write, if_pos hlow, if_neg hnot, List.getElem?_append_left hmid]
    · have hhigh : va + a.length ≤ w := by omega
      have hout : a[w - va]? = none := List.getElem?_eq_none (by omega)
      have hsub : w - va - a.length = w - (va + a.length) := by omega
      simp only [write, if_pos hlow, if_pos hhigh, List.getElem?_append_right (Nat.not_lt.mp hmid), hout,
        Option.getD_none, hsub]
  · have hnot : ¬va + a.length ≤ w := by omega
    simp only [write, if_neg hlow, if_neg hnot]

theorem write_again (f : Flat) (va k : Nat) (data : Bytes) :
    (f.write va (data.take k)).write va data = f.write va data := by
  funext w
  by_cases hlow : va ≤ w
  · simp only [write, if_pos hlow]
    by_cases hin : w - va < data.length
    · simp [List.getElem?_eq_getElem hin]
    · have hout : data[w - va]? = none := List.getElem?_eq_none (Nat.not_lt.mp hin)
      have htake : (data.take k)[w - va]? = none := List.getElem?_eq_none (by
        rw [List.length_take]
        omega)
      simp only [hout, htake, Option.getD_none]
  · simp only [write, if_neg hlow]

theorem read_write (f : Flat) (va : Nat) (data : Bytes) : (f.write va data).read va data.length = data := by
  refine List.ext_getElem (length_read ..) fun i hi hd => ?_
  simp [read, write, hd]

theorem write_of_lt {w : Nat} (f : Flat) (data : Bytes) (hw : w < va ∨ va + data.length ≤ w) :
    f.write va data w = f w := by
  rw [write]
  split
  · rw [List.getElem?_eq_none (by omega), Option.getD_none]
  · rfl

end Flat

def pageOffset (va : Nat) : Fin pageSize := ⟨va % pageSize, Nat.mod_lt va (by decide)⟩

theorem Page.get_write (p : Page) (offset : Nat) (data : Bytes) (i : Fin pageSize) :
    (p.write offset data).get i = if offset ≤ i.val then (data[i.val - offset]?).getD (p.get i) else p.get i := by
  show (Page.write p offset data)[i.val] = if offset ≤ i.val then (data[i.val - offset]?).getD p[i.val] else p[i.val]
  simp [Page.write]

theorem Page.slice_eq (p : Page) {offset count : Nat} (h : offset + count ≤ pageSize) :
    p.slice offset count = (List.range count).map fun i => (p.toArray[offset + i]?).getD 0 := by
  have hsize : p.toArray.size = pageSize := p.size_toArray
  refine List.ext_getElem ?_ fun i hi hi' => ?_
  · simp only [Page.slice, Array.length_toList, Array.size_extract, List.length_map, List.length_range]
    omega
  · have hlt : i < count := by simpa using hi'
    have hin : offset + i < p.toArray.size := by omega
    simp only [Page.slice, Array.getElem_toList, Array.getElem_extract, List.getElem_map, List.getElem_range,
      Array.getElem?_eq_getElem hin, Option.getD_some]

theorem FramePool.page_write_self {p : FramePool} {f : FrameId} (hu : p.used f = true) (offset : Nat) (data : Bytes) :
    (p.write f offset data).page f = (p.page f).write offset data := by
  obtain ⟨fr, hfr, -⟩ := frame_of_used hu
  rw [page, FramePool.write, getElem?_update, if_pos rfl, page, hfr]
  rfl

namespace Memory

variable {n count : Nat} {m m' : Memory} {h i : Handle} {va v w : Nat} {e e' : Mapping} {data : Bytes} {write : Bool}

def view (m : Memory) (h : Handle) : Flat := fun va =>
  match m.mapping? h va with
  | some e => (m.frames.page e.frame).get (pageOffset va)
  | none => 0

def Open (m : Memory) (h : Handle) (va : Nat) (write : Bool) : Prop :=
  ∃ e, m.mapping? h va = some e ∧ e.flags.contains (accessNeeds write) = true

theorem mapping?_congr (hp : pageBase v = pageBase w) : m.mapping? h v = m.mapping? h w := by
  simp only [mapping?, PageTable.lookup, hp]

theorem pageBase_add {k : Nat} (hk : k < chunk va count) : pageBase (va + k) = pageBase va := by
  simp only [chunk, pageBase, pageSize] at *
  omega

theorem view_of_mapping (he : m.mapping? h va = some e) :
    m.view h va = (m.frames.page e.frame).get (pageOffset va) := by
  simp only [view, he]

theorem view_of_unmapped (he : m.mapping? h va = none) : m.view h va = 0 := by
  simp only [view, he]

theorem view_of_frame (he : m.mapping? h va = some e) (he' : m'.mapping? i va = some e')
    (hp : m'.frames.page e'.frame = m.frames.page e.frame) : m'.view i va = m.view h va := by
  rw [view_of_mapping he, view_of_mapping he', hp]

theorem Open.lt_utop (hb : Settled n m) (ho : m.Open h va write) : va < utop := by
  obtain ⟨e, he, -⟩ := ho
  obtain ⟨s, hs, hl⟩ := Option.bind_eq_some_iff.mp he
  exact (hb.tables h s hs).lookup_lt hl

theorem Open.read (ho : m.Open h va true) : m.Open h va false := by
  obtain ⟨e, he, hf⟩ := ho
  exact ⟨e, he, Flags.contains_trans hf (by decide)⟩

theorem Open.congr (ho : m.Open h va write) (hp : pageBase v = pageBase va) : m.Open h v write := by
  rw [Open, mapping?_congr hp]
  exact ho

theorem frameFor_of_mapping (he : m.mapping? h va = some e) (hf : e.flags.contains (accessNeeds write) = true) :
    m.frameFor h va write = .ok e.frame := by
  have he' : ((m.space? h).bind fun s => s.table.lookup va) = some e := he
  simp only [frameFor, he', hf, if_true]

def storeFault (va : Nat) : AccessFault := { va, code := accessCode true ||| FaultCode.protection }

theorem frameFor_readOnly (ho : m.Open h va false) (hn : ¬m.Open h va true) :
    m.frameFor h va true = .error (storeFault va) := by
  obtain ⟨e, he, -⟩ := ho
  have he' : ((m.space? h).bind fun s => s.table.lookup va) = some e := he
  have hf : ¬e.flags.contains (accessNeeds true) = true := fun hf => hn ⟨e, he, hf⟩
  simp only [frameFor, he', if_neg hf]
  rfl

theorem slice_view (he : m.mapping? h va = some e) :
    (m.frames.page e.frame).slice (va % pageSize) (chunk va count) = (m.view h).read va (chunk va count) := by
  have hfit : va % pageSize + chunk va count ≤ pageSize := by
    simp only [chunk, pageSize]
    omega
  rw [Page.slice_eq _ hfit]
  refine List.map_congr_left fun k hk => ?_
  have hk' := List.mem_range.mp hk
  rw [view_of_mapping ((mapping?_congr (pageBase_add hk')).trans he)]
  have hmod : va % pageSize + k = (va + k) % pageSize := by
    simp only [chunk, pageSize] at *
    omega
  have hlt : (va + k) % pageSize < (m.frames.page e.frame).toArray.size := by
    rw [Vector.size_toArray]
    exact Nat.mod_lt _ (by decide)
  rw [hmod, Array.getElem?_eq_getElem hlt]
  rfl

/-- A load from pages that are open for it. -/
theorem readUser_view (va count : Nat) (hb : Settled n m) (ho : ∀ k, k < count → m.Open h (va + k) false) :
    readUser h va count m = .done ((m.view h).read va count) m := by
  induction count using Nat.strong_induction_on generalizing va with
  | h count ih =>
    rw [readUser]
    split
    · next hc =>
      subst hc
      rfl
    · next hc =>
      obtain ⟨e, he, hf⟩ : m.Open h va false := ho 0 (Nat.pos_of_ne_zero hc)
      have hlt : va < addressLimit := by
        have hu := Open.lt_utop hb ⟨e, he, hf⟩
        simp only [utop, addressLimit] at *
        omega
      have hpos := @chunk_pos va _ hc
      have hle : chunk va count ≤ count := Nat.min_le_right ..
      have hrest : readUser h (va + chunk va count) (count - chunk va count) m =
          .done ((m.view h).read (va + chunk va count) (count - chunk va count)) m := by
        refine ih _ (by omega) _ fun k hk => ?_
        rw [Nat.add_assoc]
        exact ho (chunk va count + k) (by omega)
      rw [if_pos hlt, Action.state_bind, frameFor_of_mapping he hf, Action.lift_ok_bind, Action.bind_done hrest,
        slice_view he, ← Flat.read_append, Nat.add_sub_cancel' hle]
      rfl

variable {watched : Handle → Nat → Prop}

def Alone (watched : Handle → Nat → Prop) (m : Memory) (h : Handle) (va : Nat) : Prop :=
  ∀ e, m.mapping? h va = some e → ∀ i w e', watched i w → m.mapping? i w = some e' → e'.frame = e.frame →
    i = h ∧ pageBase w = pageBase va

theorem Alone.congr (ha : Alone watched m h va) (hp : pageBase v = pageBase va) : Alone watched m h v := by
  intro e he i w e' hw he' hf
  rw [hp]
  exact ha e ((mapping?_congr hp).symm.trans he) i w e' hw he' hf

structure Wrote (watched : Handle → Nat → Prop) (m m' : Memory) (h : Handle) (va : Nat) (data : Bytes) : Prop where
  stored : Stored m m' h
  denying : m'.frames.denyNext = m.frames.denyNext
  shown : ∀ i w, watched i w → m'.view i w = if i = h then (m.view h).write va data w else m.view i w

theorem wrote_nil (hc : m.frames.Clear) (va : Nat) : Wrote watched m m h va [] := by
  refine ⟨stored_refl hc, rfl, fun i w _ => ?_⟩
  rw [Flat.write_nil]
  split
  · next hi => rw [hi]
  · rfl

theorem Wrote.mapping? (hw : Wrote watched m m' h va data) (i : Handle) (w : Nat) :
    m'.mapping? i w = m.mapping? i w := mapping?_of_spaces hw.stored.spaces i w

theorem Wrote.open_iff (hw : Wrote watched m m' h va data) : m'.Open i w write ↔ m.Open i w write := by
  rw [Open, hw.mapping?, Open]

theorem Wrote.alone (hw : Wrote watched m m' h va data) (ha : Alone watched m i v) : Alone watched m' i v := by
  intro e he j w e' hwatch he' hf
  rw [hw.mapping?] at he he'
  exact ha e he j w e' hwatch he' hf

theorem Wrote.trans {m'' : Memory} {more : Bytes} (h₁ : Wrote watched m m' h va data)
    (h₂ : Wrote watched m' m'' h (va + data.length) more) : Wrote watched m m'' h va (data ++ more) := by
  refine ⟨h₁.stored.trans h₂.stored, h₂.denying.trans h₁.denying, fun i w hw => ?_⟩
  have hself := h₁.shown h w
  rw [h₂.shown i w hw, Flat.write_append]
  split
  · next hi =>
    subst hi
    rw [if_pos rfl] at hself
    exact Flat.write_at (hself hw)
  · next hi =>
    rw [h₁.shown i w hw, if_neg hi]

theorem write_chunk_of_ne (f : Flat) {part : Bytes} (hlen : part.length ≤ chunk va count)
    (hne : pageBase w ≠ pageBase va) : f.write va part w = f w := by
  refine Flat.write_of_lt _ _ ?_
  by_contra hin
  refine hne ?_
  have hk : w - va < chunk va count := by omega
  rw [← pageBase_add hk, Nat.add_sub_cancel' (by omega)]

/-- What a page has after a store from the offset of `va` on is what a memory has after a store at `va`. -/
theorem write_at_offset (f : Flat) (part : Bytes) (hpage : pageBase w = pageBase va) :
    (if va % pageSize ≤ w % pageSize then part[w % pageSize - va % pageSize]?.getD (f w) else f w) =
      f.write va part w := by
  rw [Flat.write]
  by_cases hva : va ≤ w
  · have hle : va % pageSize ≤ w % pageSize := by
      simp only [pageBase, pageSize] at hpage ⊢
      omega
    have hsub : w % pageSize - va % pageSize = w - va := by
      simp only [pageBase, pageSize] at hpage ⊢
      omega
    rw [if_pos hle, if_pos hva, hsub]
  · have hle : ¬va % pageSize ≤ w % pageSize := by
      simp only [pageBase, pageSize] at hpage ⊢
      omega
    rw [if_neg hle, if_neg hva]

/-- A store within one page. -/
theorem wrote_chunk (data : Bytes) (hb : Settled n m) (hc : m.frames.Clear) (he : m.mapping? h va = some e)
    (hf : e.flags.contains (accessNeeds true) = true) (ha : Alone watched m h va) :
    Wrote watched m { m with frames := m.frames.write e.frame (va % pageSize) (data.take (chunk va data.length)) } h va
      (data.take (chunk va data.length)) := by
  have hu := Settled.used_of_mapping? hb he
  have hlen : (data.take (chunk va data.length)).length = chunk va data.length := by
    rw [List.length_take]
    exact Nat.min_eq_left (Nat.min_le_right ..)
  generalize hp : data.take (chunk va data.length) = part at hlen
  refine ⟨⟨rfl, FramePool.alike_write _ _, fun g => ?_, FramePool.write_clear hc hu⟩, rfl, fun i w hw => ?_⟩
  · by_cases hg : g = e.frame
    · exact .inr ⟨va, e, he, hg.symm, Flags.contains_trans hf (by decide)⟩
    · exact .inl (FramePool.page_update_of_ne hg)
  · generalize hm : ({ m with frames := m.frames.write e.frame (va % pageSize) part } : Memory) = m₁
    have hframes : m₁.frames = m.frames.write e.frame (va % pageSize) part := by rw [← hm]
    have hmap : ∀ i w, m₁.mapping? i w = m.mapping? i w := mapping?_of_spaces (by rw [← hm])
    have houtside : pageBase w ≠ pageBase va → (m.view h).write va part w = m.view h w :=
      write_chunk_of_ne _ (Nat.le_of_eq hlen)
    cases hmw : m.mapping? i w with
    | none =>
      rw [view_of_unmapped ((hmap i w).trans hmw)]
      split
      · next hi =>
        subst hi
        have hne : pageBase w ≠ pageBase va := fun hp => by
          rw [mapping?_congr hp, he] at hmw
          cases hmw
        rw [houtside hne, view_of_unmapped hmw]
      · rw [view_of_unmapped hmw]
    | some e' =>
      by_cases hframe : e'.frame = e.frame
      · obtain ⟨rfl, hpage⟩ := ha e he i w e' hw hmw hframe
        rw [if_pos rfl, ← write_at_offset _ _ hpage, view_of_mapping ((hmap i w).trans hmw), view_of_mapping hmw]
        simp only [hframes, hframe, FramePool.page_write_self hu, Page.get_write, pageOffset]
      · have hsame : m₁.view i w = m.view i w := by
          refine view_of_frame hmw ((hmap i w).trans hmw) ?_
          rw [hframes]
          exact FramePool.page_update_of_ne hframe
        rw [hsame]
        split
        · next hi =>
          subst hi
          refine (houtside fun hp => hframe ?_).symm
          rw [mapping?_congr hp, he] at hmw
          rw [Option.some.inj hmw]
        · rfl

section rest

variable {m₁ m₂ : Memory} {data : Bytes} {size k : Nat} (hsize : chunk va data.length = size)
  (hfirst : Wrote watched m m₁ h va (data.take size))
include hsize hfirst

theorem Wrote.append {more : Bytes} (hmore : Wrote watched m₁ m₂ h (va + size) more) :
    Wrote watched m m₂ h va (data.take size ++ more) := by
  refine hfirst.trans ?_
  rw [List.length_take, Nat.min_eq_left (hsize ▸ Nat.min_le_right ..)]
  exact hmore

theorem Wrote.open_first (hw : m.Open h va true)
    (hrest : ∀ k, k < (data.drop size).length → m₁.Open h (va + size + k) true) (hk : k < data.length) :
    m.Open h (va + k) true := by
  by_cases hks : k < size
  · exact hw.congr (pageBase_add (hsize ▸ hks))
  · have hopen := hrest (k - size) (by rw [List.length_drop]; omega)
    rwa [hfirst.open_iff, Nat.add_assoc, Nat.add_sub_cancel' (Nat.not_lt.mp hks)] at hopen

end rest

/-- A store to pages that may be loaded from: it is done, or a page that may not be stored to refuses it after the bytes
before that page were stored. -/
theorem writeUser_view (va : Nat) (data : Bytes) (hb : Settled n m) (hc : m.frames.Clear)
    (ho : ∀ k, k < data.length → m.Open h (va + k) false)
    (ha : ∀ k, k < data.length → m.Open h (va + k) true → Alone watched m h (va + k)) :
    (writeUser h va data m).Meets (fun _ m' => Wrote watched m m' h va data ∧
        ∀ k, k < data.length → m.Open h (va + k) true)
      (fun f m' => ∃ k, k < data.length ∧ f = storeFault (va + k) ∧ ¬m.Open h (va + k) true ∧
        Wrote watched m m' h va (data.take k))
      (fun _ => False) := by
  generalize hn : data.length = count
  induction count using Nat.strong_induction_on generalizing va data m with
  | h count ih =>
    subst hn
    rw [writeUser]
    split
    · next hd =>
      rw [List.eq_nil_of_length_eq_zero hd]
      exact ⟨wrote_nil hc va, fun k hk => absurd hk (Nat.not_lt_zero k)⟩
    · next hd =>
      have h0 : m.Open h va false := ho 0 (Nat.pos_of_ne_zero hd)
      have hlt : va < addressLimit := by
        have hu := h0.lt_utop hb
        simp only [utop, addressLimit] at *
        omega
      rw [if_pos hlt, Action.state_bind]
      by_cases hw : m.Open h va true
      · obtain ⟨e, he, hf⟩ := id hw
        rw [frameFor_of_mapping he hf, Action.lift_ok_bind, Action.modify_bind]
        have hpos := @chunk_pos va _ hd
        have hle : chunk va data.length ≤ data.length := Nat.min_le_right ..
        have hfirst := wrote_chunk data hb hc he hf (ha 0 (Nat.pos_of_ne_zero hd) hw)
        -- The rest of the store starts at the next page and finds the same mappings.
        generalize hm₁ : ({ m with frames := _ } : Memory) = m₁ at hfirst ⊢
        generalize hsize : chunk va data.length = size at *
        have hrest : (data.drop size).length = data.length - size := List.length_drop
        have hstep : ∀ k, va + size + k = va + (size + k) := fun k => Nat.add_assoc ..
        have hi := ih (data.drop size).length (by omega) (va + size) (data.drop size) (hfirst.stored.settled hb)
          hfirst.stored.clear
          (fun k hk => by
            rw [hfirst.open_iff, hstep]
            exact ho (size + k) (by omega))
          (fun k hk hopen => by
            rw [hfirst.open_iff, hstep] at hopen
            rw [hstep]
            exact hfirst.alone (ha (size + k) (by omega) hopen)) rfl
        refine hi.mono (fun _ m₂ h₂ => ?_) (fun f m₂ h₂ => ?_) fun _ h => h
        · obtain ⟨hsecond, hopen⟩ := h₂
          refine ⟨?_, fun k hk => hfirst.open_first hsize hw hopen hk⟩
          have hboth := hfirst.append hsize hsecond
          rwa [List.take_append_drop] at hboth
        · obtain ⟨k, hk, rfl, hclosed, hsecond⟩ := h₂
          refine ⟨size + k, by omega, by rw [hstep], ?_, ?_⟩
          · rw [← hstep, ← hfirst.open_iff]
            exact hclosed
          · rw [List.take_add]
            exact hfirst.append hsize hsecond
      · rw [frameFor_readOnly h0 hw, Action.lift_error_bind]
        exact ⟨0, Nat.pos_of_ne_zero hd, rfl, hw, wrote_nil hc va⟩

end Memory

end Exokernel
