import Exokernel.Proofs.Memory.Edits

/-!
# User accesses in balanced memory

A page that user mode reaches lies below `utop`, so that address sums stay in range. Loads and checks change
nothing; a store changes contents only.
-/

set_option autoImplicit false

namespace Exokernel.Memory

variable {n : Nat} {m m' : Memory} {h : Handle} {va count : Nat} {write : Bool}

theorem Balanced.frameFor_lt {held : List FrameId} {loose : FrameId → Prop} {f : FrameId}
    (hb : Balanced n m held loose) (hf : m.frameFor h va write = .ok f) : va < utop := by
  unfold frameFor at hf
  cases hs : m.space? h with
  | none => simp [hs] at hf
  | some s =>
    cases hl : s.table.lookup va with
    | none => simp [hs, hl] at hf
    | some e => exact (hb.tables h s hs).lookup_lt hl

theorem readUser_spec (hb : Settled n m) (hva : va < addressLimit) :
    (readUser h va count m).Meets (fun _ m' => m' = m) (fun _ m' => m' = m) (fun _ => False) := by
  induction count using Nat.strong_induction_on generalizing va with
  | h count ih =>
    rw [readUser]
    split
    · rfl
    · next hc =>
      rw [Action.state_bind]
      cases hf : m.frameFor h va false with
      | error e =>
        rw [Action.lift_error_bind]
        rfl
      | ok f =>
        rw [Action.lift_ok_bind]
        have hlt := hb.frameFor_lt hf
        have hpos := @chunk_pos va _ hc
        have hn : va + chunk va count < addressLimit := by
          simp only [chunk, utop, pageSize, addressLimit] at *
          omega
        refine Action.meets_bind (ih _ (by omega) hn) fun rest m' h' => ?_
        exact h'

theorem checkPages_spec (hb : Settled n m) {page stop : Nat} :
    (checkPages h va page stop write m).Meets (fun _ m' => m' = m) (fun _ m' => m' = m) (fun _ => False) := by
  -- Induction on the pages that are left.
  generalize hn : stop - page = k
  induction k using Nat.strong_induction_on generalizing page with
  | h k ih =>
    rw [checkPages]
    split
    · next hlt =>
      rw [Action.state_bind]
      cases hf : m.frameFor h (max page va) write with
      | error e =>
        rw [Action.lift_error_bind]
        rfl
      | ok f =>
        rw [Action.lift_ok_bind]
        have hu := hb.frameFor_lt hf
        have hp : page + pageSize < addressLimit := by
          simp only [utop, pageSize, addressLimit] at *
          omega
        rw [if_pos hp]
        exact ih (stop - (page + pageSize)) (by simp only [pageSize]; omega) rfl
    · rfl

theorem checkUser_spec (hb : Settled n m) :
    (checkUser h va count write m).Meets (fun _ m' => m' = m ∧ (count = 0 ∨ va + count < addressLimit))
      (fun _ m' => m' = m) fun _ => False := by
  rw [checkUser]
  split
  · next hc => exact ⟨rfl, .inl hc⟩
  · split
    · next hr => exact (checkPages_spec hb).mono (fun _ _ h => ⟨h, .inr hr⟩) (fun _ _ h => h) fun _ h => h
    · rfl

theorem settled_write (hb : Settled n m) (f : FrameId) (offset : Nat) (data : Bytes) :
    Settled n { m with frames := m.frames.write f offset data } :=
  hb.alike (FramePool.alike_write offset data)

theorem balanced_writeUser {data : Bytes} (hb : Settled n m) (hva : va < addressLimit) :
    (writeUser h va data m).Meets (fun _ m' => Settled n m' ∧ m'.spaces = m.spaces)
      (fun _ m' => Settled n m' ∧ m'.spaces = m.spaces) (fun _ => False) := by
  generalize hn : data.length = k
  induction k using Nat.strong_induction_on generalizing va data m with
  | h k ih =>
    rw [writeUser]
    split
    · exact ⟨hb, rfl⟩
    · next hc =>
      rw [Action.state_bind]
      cases hf : m.frameFor h va true with
      | error e =>
        rw [Action.lift_error_bind]
        exact ⟨hb, rfl⟩
      | ok f =>
        rw [Action.lift_ok_bind, Action.modify_bind]
        have hlt := hb.frameFor_lt hf
        have hpos := @chunk_pos va _ hc
        have hrange : va + chunk va data.length < addressLimit := by
          simp only [chunk, utop, pageSize, addressLimit] at *
          omega
        have hrest : (data.drop (chunk va data.length)).length < k := by
          rw [List.length_drop]
          omega
        exact ih _ hrest (settled_write hb f _ _) hrange rfl

end Exokernel.Memory
