import Exokernel.Proofs.Env.Revised
import Exokernel.Proofs.Post.Commuting

/-!
# Scans for parked senders

A scan meets the senders that wait for its receiver in the circular order of their slots. The transfers that fail wake
their senders with the error, one after the other and each in the state that the ones before it have left, until one
succeeds or nobody is left.
-/

set_option autoImplicit false

namespace Exokernel

open Env (Id Kind Status Message Parcel)
open Env.Table

namespace Env

namespace Table

variable {t t' : Table} {r s : Id} {e : Env} {n start done count i : Nat} {l : List Nat}

def arc (n start done count : Nat) : List Nat := (List.range' done count).map fun d => (start + d) % n

theorem arc_succ : arc n start done (count + 1) = (start + done) % n :: arc n start (done + 1) count := by
  rw [arc, List.range'_succ, List.map_cons]
  rfl

theorem not_mem_arc (h : done + 1 + count ≤ n) : (start + done) % n ∉ arc n start (done + 1) count := by
  intro hm
  obtain ⟨d, hd, he⟩ := List.mem_map.mp hm
  obtain ⟨hlo, hhi⟩ := List.mem_range'_1.mp hd
  have heq : d = done := Kernel.distance_unique (by omega) (by omega) he
  omega

theorem nodup_arc (h : done + count ≤ n) : (arc n start done count).Nodup := by
  induction count generalizing done with
  | zero => exact List.nodup_nil
  | succ count ih =>
    rw [arc_succ]
    exact List.nodup_cons.mpr ⟨not_mem_arc (by omega), ih (by omega)⟩

theorem arc_perm (n start : Nat) : (arc n start 0 n).Perm (List.range n) := by
  rw [List.perm_ext_iff_of_nodup (nodup_arc (by omega)) List.nodup_range]
  intro i
  rw [List.mem_range, arc, List.mem_map]
  constructor
  · rintro ⟨d, hd, rfl⟩
    have hlt := (List.mem_range'_1.mp hd).2
    exact Nat.mod_lt _ (by omega)
  · intro hi
    obtain ⟨d, hd, he⟩ := Kernel.exists_distance start hi
    exact ⟨d, List.mem_range'_1.mpr ⟨Nat.zero_le d, by omega⟩, he⟩

def parkedAt (t : Table) (r : Id) (i : Nat) : Option Id :=
  (t.slot? i).bind fun e => if e.isParkedOn r then some e.id else none

def parkedAmong (t : Table) (r : Id) (slots : List Nat) : List Id := slots.filterMap (t.parkedAt r)

def parkedFrom (t : Table) (r : Id) (start : Nat) : List Id := t.parkedAmong r (arc t.capacity start 0 t.capacity)

theorem parkedAt_eq_some : t.parkedAt r i = some s ↔ ∃ e, t.slot? i = some e ∧ e.isParkedOn r = true ∧ e.id = s := by
  rw [parkedAt, Option.bind_eq_some_iff]
  simp

theorem find?_of_parkedAt (ht : t.Indexed) (h : t.parkedAt r i = some s) :
    s.index = i ∧ ∃ p, t.Holds s p ∧ p.target = r := by
  obtain ⟨e, hs, hp, rfl⟩ := parkedAt_eq_some.mp h
  obtain ⟨hl, p, ho, htarget⟩ := isParkedOn_iff.mp hp
  exact ⟨ht i e hs hl, p, ⟨e, ht.find?_of_slot? hs hl, ho⟩, htarget⟩

theorem nodup_parkedAmong (ht : t.Indexed) (hl : l.Nodup) : (t.parkedAmong r l).Nodup := by
  refine hl.filterMap fun i j s hi hj => ?_
  exact (find?_of_parkedAt ht hi).1.symm.trans (find?_of_parkedAt ht hj).1

theorem nodup_parkedFrom (ht : t.Indexed) : (t.parkedFrom r start).Nodup := nodup_parkedAmong ht (nodup_arc (by omega))

/-- Those that are parked on `r` come in the order of their slots. -/
theorem parkedOn_eq (t : Table) (r : Id) : t.parkedOn r = t.parkedAmong r (List.range t.capacity) := by
  have hslots : (List.range t.capacity).filterMap (t.parkedAt r) =
      t.slots.toList.filterMap fun e => if e.isParkedOn r then some e.id else none := by
    have hrange : (List.range t.capacity).map t.slot? = t.slots.toList.map some := by
      apply List.ext_getElem
      · simp [Table.capacity]
      · intro i h₁ h₂
        simp only [List.length_map, List.length_range, Table.capacity] at h₁
        simp [Table.slot?, h₁]
    have hbind := congrArg (List.filterMap fun o : Option Env => o.bind fun e =>
      if e.isParkedOn r then some e.id else none) hrange
    rw [List.filterMap_map, List.filterMap_map] at hbind
    exact hbind
  rw [parkedAmong, hslots, parkedOn, toList]
  induction t.slots.toList with
  | nil => rfl
  | cons e l ih =>
    cases hp : e.isParkedOn r with
    | true => simpa [hp, (isParkedOn_iff.mp hp).1] using ih
    | false =>
      cases hl : e.isFree with
      | true => simpa [hp, hl] using ih
      | false => simpa [hp, hl] using ih

theorem parkedFrom_perm (t : Table) (r : Id) (start : Nat) : (t.parkedFrom r start).Perm (t.parkedOn r) := by
  rw [parkedOn_eq]
  exact (arc_perm t.capacity start).filterMap _

theorem Exact.waiting_eq_parkedFrom (h : t.Exact) (hf : t.find? r = some e) (start : Nat) :
    e.waiting = (t.parkedFrom r start).length :=
  (h.waiting_eq_length hf).trans (parkedFrom_perm t r start).length_eq.symm

theorem parkedAt_revise {g : Env → Env}
    (h : ∀ e, t.slot? i = some e → e.isFree = false → (g e).id = e.id ∧ (g e).isParkedOn r = e.isParkedOn r) :
    (t.revise g).parkedAt r i = t.parkedAt r i := by
  rw [parkedAt, parkedAt]
  cases hs : t.slot? i with
  | none => rw [slot?_revise, hs, Option.map_none]
  | some e =>
    cases hl : e.isFree with
    | true => rw [slot?_revise, hs, Option.map_some, if_pos hl]
    | false =>
      obtain ⟨hid, hpark⟩ := h e hs hl
      rw [slot?_revise_live hs hl, Option.bind_some, Option.bind_some, hid, hpark]

theorem parkedAmong_congr (h : ∀ i ∈ l, t'.parkedAt r i = t.parkedAt r i) : t'.parkedAmong r l = t.parkedAmong r l :=
  List.filterMap_congr h

theorem parkedOn_revise {g : Env → Env} (h : ∀ i e, t.slot? i = some e → e.isFree = false →
    (g e).id = e.id ∧ (g e).isParkedOn r = e.isParkedOn r) : (t.revise g).parkedOn r = t.parkedOn r := by
  rw [parkedOn_eq, parkedOn_eq, capacity_revise]
  exact parkedAmong_congr fun i _ => parkedAt_revise (h i)

end Table

def rejected (failed : List (Id × IpcError)) (e : Env) : Env :=
  match failed.lookup e.id with
  | some cause => e.unpark cause.code.toWord
  | none => e

def rejecting (r : Id) (failed : List (Id × IpcError)) (e : Env) : Env :=
  if e.id = r then { e with waiting := e.waiting - failed.length } else e.rejected failed

theorem title_unpark {answer : Word} (e : Env) (he : e.isFree = false) : (e.unpark answer).title = e.title :=
  title_of_live rfl rfl rfl (by simp [unpark]) he

theorem title_rejected {failed : List (Id × IpcError)} (e : Env) (he : e.isFree = false) :
    (e.rejected failed).title = e.title := by
  unfold rejected
  split
  · exact title_unpark e he
  · rfl

theorem outbox_of_rejected {failed : List (Id × IpcError)} {e : Env} {p : Parcel}
    (h : (e.rejected failed).outbox = some p) : e.outbox = some p := by
  unfold rejected at h
  split at h
  · cases h
  · exact h

theorem rejected_of_not_mem {failed : List (Id × IpcError)} {e : Env} (h : e.id ∉ failed.map Prod.fst) :
    e.rejected failed = e := by
  have hnone : failed.lookup e.id = none := by
    rw [List.lookup_eq_none_iff]
    intro f hf
    simp only [bne_iff_ne]
    exact fun he => h (he ▸ List.mem_map_of_mem hf)
  rw [rejected, hnone]

end Env

namespace Env.Table

variable {t : Table} {r s : Id} {w : Word} {i : Nat}

theorem relieved_eq (ht : t.Indexed) (hne : s ≠ r) : t.relieved r s = t.revise fun e =>
    if e.id = r then { e with waiting := e.waiting - 1 }
    else if e.id = s then { e with outbox := none } else e := by
  rw [relieved, update_eq_revise ht, update_revise ht fun e he => by split <;> rfl]
  refine revise_congr fun _ e _ _ => ?_
  by_cases hs : e.id = s
  · simp [hs, hne]
  · simp only [if_neg hs]

/-- A message is taken over and put into the mailbox of its target, and its sender woken. -/
theorem served_eq {f : Env → Env} (ht : t.Indexed) (hne : s ≠ r)
    (hf : ∀ e, e.isFree = false → (f e).title = e.title) : ((t.relieved r s).update r f).woken s w = t.revise fun e =>
      if e.id = r then f { e with waiting := e.waiting - 1 } else if e.id = s then e.unpark w else e := by
  have hrelieved : ∀ e : Env, e.isFree = false → Env.title (if e.id = r then { e with waiting := e.waiting - 1 }
      else if e.id = s then { e with outbox := none } else e) = e.title := by
    intro e _
    split
    · rfl
    · split <;> rfl
  rw [relieved_eq ht hne, update_revise ht hrelieved, woken, update_revise ht]
  · refine revise_congr fun _ e _ _ => ?_
    by_cases hr : e.id = r
    · have hs : e.id ≠ s := fun hs => hne (hs.symm.trans hr)
      simp only [if_pos hr, if_neg hs]
    · by_cases hs : e.id = s
      · simp [hs, hne, Env.unpark]
      · simp [hr, hs]
  · intro e he
    by_cases hr : e.id = r
    · simp only [if_pos hr]
      exact hf _ he
    · simp only [if_neg hr]
      split <;> rfl

theorem relieved_woken_eq (ht : t.Indexed) (hne : s ≠ r) : (t.relieved r s).woken s w = t.revise fun e =>
    if e.id = r then { e with waiting := e.waiting - 1 } else if e.id = s then e.unpark w else e := by
  have hserved : ((t.relieved r s).update r fun e => e).woken s w = t.revise _ := served_eq ht hne fun _ _ => rfl
  rw [update_same] at hserved
  exact hserved

end Env.Table

namespace Journal

def rejections (j : Journal) (failed : List (Id × IpcError)) : Journal :=
  failed.foldl (fun j f => j.record (.fetchFailed f.1 f.2)) j

end Journal

namespace Kernel

variable {n : Nat} {k k' k₁ k₂ : Kernel} {r s : Id} {R : Env} {p : Parcel} {msg : Message} {cause : IpcError}
  {failed : List (Id × IpcError)} {dstva : Word} {start done count : Nat}

def bounced (s : Id) (cause : IpcError) (k : Kernel) : Kernel :=
  { k with envs := k.envs.woken s cause.code.toWord, journal := k.journal.record (.fetchFailed s cause) }

inductive Bounces (r : Id) : Kernel → List (Id × IpcError) → Kernel → Prop
  | none (k : Kernel) : Bounces r k [] k
  | next {k k₁ k' : Kernel} {s : Id} {p : Parcel} {cause : IpcError} {failed : List (Id × IpcError)} :
      k.envs.Holds s p → p.target = r →
      transfer s r p.toMessage { k with envs := k.envs.relieved r s } = .refused cause k₁ →
      Bounces r (k₁.bounced s cause) failed k' → Bounces r k ((s, cause) :: failed) k'

theorem ne_of_holds (hx : k.envs.Exact) (hs : k.envs.Holds s p) (ht : p.target = r) : s ≠ r := by
  obtain ⟨S, hS, ho⟩ := hs
  rw [← ht]
  exact (hx.counted_for hS ho).1.symm

theorem bounced_eq (hp : Proper n k.envs k.memory) (hne : s ≠ r)
    (h : transfer s r msg { k with envs := k.envs.relieved r s } = .refused cause k₁) :
    ∃ m, k.memory.Spent m ∧ k₁.bounced s cause = { k with
      envs := k.envs.revise fun e =>
        if e.id = r then { e with waiting := e.waiting - 1 }
        else if e.id = s then e.unpark cause.code.toWord else e
      memory := m
      journal := k.journal.record (.fetchFailed s cause) } := by
  have heffect := transfer_effect s r msg (k := { k with envs := k.envs.relieved r s }) (hp.touched touched_relieved)
  obtain ⟨m, rfl, hm⟩ := heffect.of_refused h
  refine ⟨m, hm, ?_⟩
  rw [← relieved_woken_eq hp.intact.table.indexed hne]
  rfl

theorem bounced_fit (hp : Proper n k.envs k.memory) (hx : k.envs.Exact) (hs : k.envs.Holds s p) (ht : p.target = r)
    (h : transfer s r msg { k with envs := k.envs.relieved r s } = .refused cause k₁) :
    Proper n (k₁.bounced s cause).envs (k₁.bounced s cause).memory ∧ (k₁.bounced s cause).envs.Exact := by
  have heffect := transfer_effect s r msg (k := { k with envs := k.envs.relieved r s }) (hp.touched touched_relieved)
  obtain ⟨m, rfl, hm⟩ := heffect.of_refused h
  obtain ⟨S, hS, ho⟩ := hs
  exact ⟨(hp.touched (touched_relieved.trans touched_woken)).spent hm, (hx.relieved hS ho ht).woken⟩

theorem rejecting_cons (hnew : s ∉ failed.map Prod.fst) (e : Env) :
    Env.rejecting r failed (if e.id = r then { e with waiting := e.waiting - 1 }
      else if e.id = s then e.unpark cause.code.toWord else e) = e.rejecting r ((s, cause) :: failed) := by
  by_cases hr : e.id = r
  · simp only [Env.rejecting, if_pos hr, List.length_cons, Nat.sub_sub, Nat.add_comm 1]
  · by_cases he : e.id = s
    · have hunparked : (e.unpark cause.code.toWord).rejected failed = e.unpark cause.code.toWord :=
        Env.rejected_of_not_mem (e := e.unpark cause.code.toWord) (he ▸ hnew)
      have hr' : (e.unpark cause.code.toWord).id ≠ r := hr
      rw [if_neg hr, if_pos he, Env.rejecting, if_neg hr', hunparked, Env.rejecting, if_neg hr, Env.rejected,
        List.lookup_cons, he, beq_self_eq_true]
    · rw [if_neg hr, if_neg he, Env.rejecting, if_neg hr, Env.rejecting, if_neg hr, Env.rejected, Env.rejected,
        List.lookup_cons, beq_false_of_ne he]

/-- What rejections leave, with the failures on demand that they have used up. -/
theorem Bounces.leaves (h : Bounces r k failed k') (hp : Proper n k.envs k.memory) (hx : k.envs.Exact)
    (hn : (failed.map Prod.fst).Nodup) :
    ∃ m, k.memory.Spent m ∧ k' = { k with
      envs := k.envs.revise (Env.rejecting r failed), memory := m, journal := k.journal.rejections failed } := by
  induction h with
  | none k =>
    have hsame : k.envs.revise (Env.rejecting r []) = k.envs := by
      refine (revise_congr fun _ e _ _ => ?_).trans (revise_self k.envs)
      unfold Env.rejecting
      split <;> rfl
    refine ⟨k.memory, .refl _, ?_⟩
    rw [hsame]
    rfl
  | @next k k₁ k' s p cause failed hs ht htransfer _ ih =>
    obtain ⟨hnew, hrest⟩ := List.nodup_cons.mp hn
    have hne := ne_of_holds hx hs ht
    obtain ⟨hp₁, hx₁⟩ := bounced_fit hp hx hs ht htransfer
    obtain ⟨m₁, hm₁, hk₁⟩ := bounced_eq hp hne htransfer
    rw [hk₁] at ih hp₁ hx₁
    obtain ⟨m, hm, rfl⟩ := ih hp₁ hx₁ hrest
    refine ⟨m, hm₁.trans hm, ?_⟩
    dsimp only
    rw [revise_revise fun e he => ?_, revise_congr fun _ e _ _ => rejecting_cons hnew e]
    · rfl
    · split
      · rfl
      · split
        · exact Env.title_unpark e he
        · rfl

/-! The scan finds them in the order of their slots. -/

theorem fetch_idle {i : Nat} (ht : k.envs.Sound) (h : k.envs.parkedAt r i = none) : fetch r i k = .done none k := by
  refine fetch_passes ht fun j e hf hpark hi => ?_
  have hat : k.envs.parkedAt r i = some e.id :=
    parkedAt_eq_some.mpr ⟨e, hi ▸ slot?_of_find? hf, hpark, rfl⟩
  rw [h] at hat
  cases hat

theorem parkedAt_bounced {i : Nat} (hp : Proper n k.envs k.memory) (hne : s ≠ r)
    (h : transfer s r msg { k with envs := k.envs.relieved r s } = .refused cause k₁) (hi : i ≠ s.index) :
    (k₁.bounced s cause).envs.parkedAt r i = k.envs.parkedAt r i := by
  obtain ⟨m, -, hk₁⟩ := bounced_eq hp hne h
  rw [hk₁]
  refine parkedAt_revise fun e hs hl => ?_
  have he : e.id ≠ s := fun he => hi (he ▸ (hp.intact.table.indexed i e hs hl).symm)
  split <;> exact ⟨rfl, rfl⟩

inductive Scanned (r : Id) (k : Kernel) (waiting : List Id) : Option Id → Kernel → Prop
  | starved {failed : List (Id × IpcError)} {k₁ : Kernel} : Bounces r k failed k₁ → waiting = failed.map Prod.fst →
      Scanned r k waiting none k₁
  | served {failed : List (Id × IpcError)} {k₁ k₂ : Kernel} {s : Id} {p : Parcel} {later : List Id} :
      Bounces r k failed k₁ → waiting = failed.map Prod.fst ++ s :: later → k₁.envs.Holds s p → p.target = r →
      transfer s r p.toMessage { k₁ with envs := k₁.envs.relieved r s } = .done () k₂ →
      Scanned r k waiting (some s) { k₂ with envs := k₂.envs.woken s 0 }

theorem Scanned.bounced {waiting : List Id} {found : Option Id} (h : Scanned r (k₁.bounced s cause) waiting found k')
    (hs : k.envs.Holds s p) (ht : p.target = r)
    (htransfer : transfer s r p.toMessage { k with envs := k.envs.relieved r s } = .refused cause k₁) :
    Scanned r k (s :: waiting) found k' := by
  cases h with
  | starved hb hw => exact .starved (.next hs ht htransfer hb) (congrArg (s :: ·) hw)
  | served hb hw hs' ht' hserved => exact .served (.next hs ht htransfer hb) (congrArg (s :: ·) hw) hs' ht' hserved

theorem fetchFrom_scanned (r : Id) (start count done : Nat) (hp : Proper n k.envs k.memory) (hx : k.envs.Exact)
    (hroom : start + done + count ≤ addressLimit) (hcount : done + count ≤ k.envs.capacity) :
    ∃ found k', fetchFrom r start count done k = .done found k' ∧
      Scanned r k (k.envs.parkedAmong r (arc k.envs.capacity start done count)) found k' := by
  induction count generalizing done k with
  | zero => exact ⟨none, k, rfl, .starved (.none k) rfl⟩
  | succ count ih =>
    have hindexed := hp.intact.table.indexed
    have hlt : start + done < addressLimit := by omega
    rw [fetchFrom, if_pos hlt, Action.state_bind, arc_succ, parkedAmong, List.filterMap_cons]
    cases hat : k.envs.parkedAt r ((start + done) % k.envs.capacity) with
    | none =>
      rw [Action.bind_done (fetch_idle hp.intact.table hat)]
      exact ih (done + 1) hp hx (by omega) (by omega)
    | some s =>
      obtain ⟨hi, p, ⟨S, hS, ho⟩, ht⟩ := find?_of_parkedAt hindexed hat
      have hs : k.envs.Holds s p := ⟨S, hS, ho⟩
      have hfetch := fetch_parked hS ho ht
      rw [← hi, Action.bind_apply, hfetch]
      cases htransfer : transfer s r p.toMessage { k with envs := k.envs.relieved r s } with
      | done u k₂ => exact ⟨some s, _, rfl, .served (.none k) rfl hs ht htransfer⟩
      | refused cause k₁ =>
        obtain ⟨hp₁, hx₁⟩ := bounced_fit hp hx hs ht htransfer
        have hne := ne_of_holds hx hs ht
        have hcap : (k₁.bounced s cause).envs.capacity = k.envs.capacity := by
          obtain ⟨m, -, hk₁⟩ := bounced_eq hp hne htransfer
          rw [hk₁, capacity_revise]
        obtain ⟨found, k', hscan, hrest⟩ := ih (done + 1) hp₁ hx₁ (by omega) (by rw [hcap]; omega)
        refine ⟨found, k', hscan, ?_⟩
        have hsame : (k₁.bounced s cause).envs.parkedAmong r (arc k.envs.capacity start (done + 1) count) =
            k.envs.parkedAmong r (arc k.envs.capacity start (done + 1) count) := by
          refine parkedAmong_congr fun i hm => parkedAt_bounced hp hne htransfer fun his => ?_
          exact not_mem_arc (by omega) (hi ▸ his ▸ hm)
        rw [hcap, hsame] at hrest
        exact hrest.bounced hs ht htransfer
      | halted q =>
        have hp' : Proper n (k.envs.relieved r s) k.memory := hp.touched touched_relieved
        exact ((transfer_effect s r p.toMessage (k := { k with envs := k.envs.relieved r s }) hp').of_halted
          htransfer).elim

end Kernel

end Exokernel
