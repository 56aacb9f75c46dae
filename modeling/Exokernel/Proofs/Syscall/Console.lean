import Exokernel.Proofs.Memory.Accesses
import Exokernel.Proofs.Post.Destruction
import Exokernel.User.Library

/-!
# Writing to the console

The range of a write to the console is checked first and then copied piece by piece. A range that user mode may load
from arrives as a whole, byte for byte; for any other nothing arrives, and the caller is freed.
-/

set_option autoImplicit false

namespace Exokernel

open Env (Id)

namespace Console

theorem write_nil (c : Console) : c.write [] = c := by
  rw [write, Array.append_empty]

theorem write_append (c : Console) (a b : Bytes) : c.write (a ++ b) = (c.write a).write b := by
  simp only [write, ← List.append_toArray, Array.append_assoc]

end Console

namespace Memory

variable {n count : Nat} {m : Memory} {h : Handle} {va : Nat}

/-- The check of a range passes just if every byte of it is open; a range that leaves the address space has a byte that
is not. -/
theorem checkUser_cases (h : Handle) (count : Nat) (hb : Settled n m) (hva : va < addressLimit) :
    (checkUser h va count false m = .done () m ∧ va + count < addressLimit ∧
        ∀ i, i < count → m.Open h (va + i) false) ∨
      ∃ fault, checkUser h va count false m = .refused fault m ∧ ∃ i, i < count ∧ ¬m.Open h (va + i) false := by
  by_cases hr : va + count < addressLimit
  · rw [checkUser_eq hb hr]
    cases hf : m.firstFault h va count false with
    | none => exact .inl ⟨rfl, hr, firstFault_eq_none_iff.mp hf⟩
    | some fault =>
      obtain ⟨i, hi, -, hclosed, -⟩ := firstFault_eq_some hf
      exact .inr ⟨fault, rfl, i, hi, hclosed⟩
  · have hc : count ≠ 0 := by omega
    refine .inr ⟨{ va, code := FaultCode.user }, ?_, count - 1, by omega, fun ho => ?_⟩
    · rw [checkUser, if_neg hc, if_neg hr]
      rfl
    · have hlt := ho.lt_utop hb
      simp only [utop, addressLimit] at hlt hr
      omega

end Memory

namespace Kernel

open Memory

variable {ε : Type} {n va count : Nat} {k k' : Kernel} {caller : Id} {cpu : Cpu} {e : Env} {h : Handle}

/-- Of a range that is open, the bytes from `done` on arrive at the console: pieces are neither left out nor repeated,
and none is cut short. -/
theorem copyOut_open {done : Nat} (hm : Settled n k.memory) (hle : done ≤ count)
    (ho : ∀ i, i < count → k.memory.Open h (va + i) false) : (copyOut h va count done : Action Kernel ε Unit) k =
      .done () { k with console := k.console.write ((k.memory.view h).read (va + done) (count - done)) } := by
  -- Induction on the bytes that are left.
  generalize hl : count - done = left
  induction left using Nat.strong_induction_on generalizing done k with
  | h left ih =>
    rw [copyOut]
    by_cases hlt : done < count
    · rw [if_pos hlt]
      obtain ⟨size, hsize⟩ : ∃ size, min (count - done) putsChunk = size := ⟨_, rfl⟩
      have hpos : 0 < size ∧ size ≤ count - done := by
        simp only [putsChunk] at hsize
        omega
      have hread : readUser h (va + done) size k.memory =
          .done ((k.memory.view h).read (va + done) size) k.memory :=
        readUser_view _ _ hm fun i hi => by
          rw [Nat.add_assoc]
          exact ho _ (by omega)
      have hx : ((onMemory (readUser h (va + done) size)).attempt : Action Kernel ε _) k =
          .done (.ok ((k.memory.view h).read (va + done) size)) k := by
        rw [Action.attempt, onMemory_done hread]
      have hsum : left = size + (count - (done + size)) := by omega
      rw [hsize, Action.bind_done hx, hsum, Flat.read_append, Console.write_append, Nat.add_assoc]
      exact ih _ (by omega) hm (by omega) ho rfl
    · obtain rfl : left = 0 := by omega
      rw [if_neg hlt]
      show Outcome.done () k = _
      rw [show (k.memory.view h).read (va + done) 0 = [] from rfl, Console.write_nil]

theorem destroySelf_frees (hf : k.envs.find? caller = some e) (he : ¬Elsewhere cpu e)
    (hd : free caller { k with journal := k.journal.record (.exiting caller) } = .done () k') :
    destroyFor cpu caller caller k = .done { reschedule := true } k' := by
  rw [destroyFor, if_pos rfl, record_bind]
  have hx := destroy_frees (k := { k with journal := k.journal.record (.exiting caller) }) hf he hd
  rw [Action.mapError_bind_done hx]
  simp

def caught (k : Kernel) (caller : Id) (fault : AccessFault) : Kernel :=
  { k with journal := (k.journal.record (.putsFault caller fault.va)).record (.exiting caller) }

section puts

variable (hf : k.envs.find? caller = some e) (hs : e.space = some h)
include hf hs

theorem puts_open (hm : Settled n k.memory) (hr : va + count < addressLimit)
    (ho : ∀ i, i < count → k.memory.Open h (va + i) false) :
    puts cpu caller va count k = .done {} { k with console := k.console.write ((k.memory.view h).read va count) } := by
  have hcheck : ((onMemory (checkUser h va count false)).attempt : Action Kernel CallError _) k = .done (.ok ()) k := by
    have hdone : checkUser h va count false k.memory = .done () k.memory := by
      rw [checkUser_eq hm hr, firstFault_eq_none_iff.mpr ho]
      rfl
    rw [Action.attempt, onMemory_done hdone]
  have hcopy := copyOut_open (ε := CallError) hm (Nat.zero_le count) ho
  rw [puts, Action.bind_done (spaceFor_done hf hs), Action.bind_done hcheck]
  exact Action.bind_done hcopy

theorem puts_closed (he : ¬Elsewhere cpu e) {fault : AccessFault}
    (hrefused : checkUser h va count false k.memory = .refused fault k.memory)
    (hd : free caller (k.caught caller fault) = .done () k') :
    puts cpu caller va count k = .done { reschedule := true } k' := by
  have hcheck : ((onMemory (checkUser h va count false)).attempt : Action Kernel CallError _) k =
      .done (.error fault) k := by
    rw [Action.attempt, onMemory_refused hrefused]
  rw [puts, Action.bind_done (spaceFor_done hf hs), Action.bind_done hcheck]
  exact destroySelf_frees (k := { k with journal := k.journal.record (.putsFault caller fault.va) }) hf he hd

end puts

/-- The caller that is about to be freed: what is left of it, of its space and, if counts are exact, of all else. -/
theorem free_caught (hp : Proper n k.envs k.memory) (hf : k.envs.find? caller = some e) (hs : e.space = some h)
    (fault : AccessFault) : ∃ s k', free caller (k.caught caller fault) = .done () k' ∧ k'.console = k.console ∧
      k'.envs = k.envs.released caller e ∧ k.memory.space? h = some s ∧ k.memory.Returned h s k'.memory ∧
      (k.envs.Exact → Destroyed (k.caught caller fault) caller e h s k') := by
  obtain ⟨m, j, hd, -, i, hi, hm⟩ := free_done (k := k.caught caller fault) hp.intact hf
  obtain rfl := Option.some.inj (hs.symm.trans hi)
  obtain ⟨i, hi, hl⟩ := hp.intact.space_of_find? hf
  obtain rfl := Option.some.inj (hs.symm.trans hi)
  obtain ⟨s, hspace⟩ := Option.isSome_iff_exists.mp hl
  obtain ⟨m', hm', hreturned⟩ := destroy_returns hp.intact.memory hp.clear hspace
  obtain rfl : m = m' := by
    have hsame : Memory.destroy h k.memory = .done () m := hm
    rw [hm'] at hsame
    cases hsame
    rfl
  refine ⟨s, _, hd, rfl, rfl, hspace, hreturned, fun hx => ?_⟩
  obtain ⟨i, s', k', hi, hspace', hd', hends⟩ := free_destroys (k := k.caught caller fault) hp hx hf
  obtain rfl := Option.some.inj (hs.symm.trans hi)
  obtain rfl := Option.some.inj (hspace.symm.trans hspace')
  rw [hd] at hd'
  cases hd'
  exact hends

/-- Writing to the console is all or nothing. If user mode may load every byte of the range in the space of the caller,
which runs on this CPU, these bytes arrive in order, the answer is 0, and nothing else changes. Otherwise, and so always
when the range leaves the address space, nothing arrives, the caller is freed with all that this brings about, and the
CPU needs other work. -/
theorem puts_all_or_nothing (hk : k.Reachable) (hf : k.envs.find? caller = some e) (hc : e.cpu = some cpu)
    (a : Arguments) : ∃ h, e.space = some h ∧
      ((∀ i, i < (a.word 1).toNat → k.memory.Open h ((a.word 0).toNat + i) false) →
        callSystem .standard cpu caller 0 a k = .done { value := 0, reschedule := false }
          { k with console := k.console.write ((k.memory.view h).read (a.word 0).toNat (a.word 1).toNat) }) ∧
      ((∃ i, i < (a.word 1).toNat ∧ ¬k.memory.Open h ((a.word 0).toNat + i) false) →
        ∃ fault s k', callSystem .standard cpu caller 0 a k = .done { value := 0, reschedule := true } k' ∧
          k'.console = k.console ∧ free caller (k.caught caller fault) = .done () k' ∧
          k'.envs = k.envs.released caller e ∧ k.memory.space? h = some s ∧ k.memory.Returned h s k'.memory ∧
          (k.envs.Exact → Destroyed (k.caught caller fault) caller e h s k')) ∧
      (addressLimit ≤ (a.word 0).toNat + (a.word 1).toNat →
        ∃ i, i < (a.word 1).toNat ∧ ¬k.memory.Open h ((a.word 0).toNat + i) false) := by
  obtain ⟨n, hp⟩ := hk.proper
  obtain ⟨h, hs, -⟩ := hp.intact.space_of_find? hf
  have hperform : callSystem .standard cpu caller 0 a k =
      puts cpu caller (a.word 0).toNat (a.word 1).toNat k := rfl
  have hva : (a.word 0).toNat < addressLimit := UInt64.toNat_lt _
  have he : ¬Elsewhere cpu e := fun h => h.2.2 hc
  refine ⟨h, hs, fun ho => ?_, fun ⟨i, hi, hclosed⟩ => ?_, fun hwraps => ?_⟩
  · rcases checkUser_cases h (a.word 1).toNat hp.intact.memory hva with ⟨-, hrange, -⟩ | hrefused
    · rw [hperform, puts_open hf hs hp.intact.memory hrange ho]
    · obtain ⟨-, -, i, hi, hclosed⟩ := hrefused
      exact absurd (ho i hi) hclosed
  · rcases checkUser_cases h (a.word 1).toNat hp.intact.memory hva with ⟨-, -, ho⟩ | hrefused
    · exact absurd (ho i hi) hclosed
    · obtain ⟨fault, hrefused, -⟩ := hrefused
      obtain ⟨s, k', hd, hconsole, hrest⟩ := free_caught hp hf hs fault
      refine ⟨fault, s, k', ?_, hconsole, hd, hrest⟩
      rw [hperform, puts_closed hf hs he hrefused hd]
  · rcases checkUser_cases h (a.word 1).toNat hp.intact.memory hva with ⟨-, hrange, -⟩ | hrefused
    · exact absurd hrange (Nat.not_lt.mpr hwraps)
    · obtain ⟨-, -, hclosed⟩ := hrefused
      exact hclosed

def singlePage : List Demand :=
  [.step (.create .user), .step (.load ⟨0x401⟩ 0x200000 Program.dataPage), .step (.start ⟨0⟩ {})]

/-- The last two bytes of the page arrive; together with the byte behind them none does. -/
theorem puts_all_or_nothing_singlePage : ∃ k e, k.Reachable ∧ k.envs.find? ⟨0x401⟩ = some e ∧ e.cpu = some ⟨0⟩ ∧
    callSystem .standard ⟨0⟩ ⟨0x401⟩ 0 #v[0x200ffe, 2, 0, 0, 0] k =
      .done {} { k with console := k.console.write [0, 0] } ∧
    ∃ k', callSystem .standard ⟨0⟩ ⟨0x401⟩ 0 #v[0x200ffe, 3, 0, 0, 0] k = .done { reschedule := true } k' ∧
      k'.console = k.console ∧ k'.envs.free = 1 :: k.envs.free := by
  let k := ((boot pairConfig {} {}).toOption.bind (Demand.replay · singlePage)).get (by decide +kernel)
  have hk : k.Reachable := .of_replay (Option.some_get _).symm
  let e := (k.envs.find? ⟨0x401⟩).get (by decide +kernel)
  have hf : k.envs.find? ⟨0x401⟩ = some e := (Option.some_get _).symm
  have hc : e.cpu = some ⟨0⟩ := by decide +kernel
  have hspace : e.space = some ⟨1⟩ := by decide +kernel
  have hopen : k.memory.firstFault ⟨1⟩ 0x200ffe 2 false = none := by decide +kernel
  have hclosed : (k.memory.firstFault ⟨1⟩ 0x200ffe 3 false).isSome = true := by decide +kernel
  have hbytes : (k.memory.view ⟨1⟩).read 0x200ffe 2 = [0, 0] := by decide +kernel
  have hx : k.envs.Exact := Env.Table.exact_of_toList (by decide +kernel)
  obtain ⟨h, hs, hall, -⟩ := puts_all_or_nothing hk hf hc #v[0x200ffe, 2, 0, 0, 0]
  obtain ⟨h', hs', -, hnone, -⟩ := puts_all_or_nothing hk hf hc #v[0x200ffe, 3, 0, 0, 0]
  obtain rfl : h = ⟨1⟩ := Option.some.inj (hs.symm.trans hspace)
  obtain rfl : h' = ⟨1⟩ := Option.some.inj (hs'.symm.trans hspace)
  obtain ⟨fault, hfault⟩ := Option.isSome_iff_exists.mp hclosed
  obtain ⟨i, hi, -, hbyte, -⟩ := firstFault_eq_some hfault
  obtain ⟨_, s, k', hd, hconsole, -, -, -, -, hends⟩ := hnone ⟨i, hi, hbyte⟩
  refine ⟨k, e, hk, hf, hc, ?_, k', hd, hconsole, (hends hx).free⟩
  rw [← hbytes]
  exact hall (firstFault_eq_none_iff.mp hopen)

end Kernel

end Exokernel
