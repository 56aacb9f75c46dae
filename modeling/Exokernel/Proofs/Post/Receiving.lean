import Exokernel.Proofs.Memory.Installing
import Exokernel.Proofs.Post.Scanning
import Exokernel.Proofs.System.Demands

/-!
# A queued receive from end to end

The senders that wait for a receiver are served in the circular order of their slots until a message is handed over.
What the receive leaves of every slot, of memory and of the journal is given for its two ends.
-/

set_option autoImplicit false

namespace Exokernel

open Env (Id Kind Status Message Parcel)
open Env.Table

namespace Kernel

variable {n : Nat} {k k' k₁ k₂ : Kernel} {r s : Id} {R : Env} {p : Parcel} {msg : Message}
  {failed : List (Id × IpcError)} {dstva : Word} {start : Nat}

/-! What a message hands over, seen from the two ends. -/

inductive Brings (m : Memory) (msg : Message) (own other : Option Handle) (dstva : Word) : PageFlags → Memory → Prop
  | bare : utop ≤ msg.srcva.toNat ∨ utop ≤ dstva.toNat → Brings m msg own other dstva .empty m
  | page {a b : Handle} {mapping : Mapping} {m' : Memory} : msg.srcva.toNat < utop → dstva.toNat < utop →
      own = some a → other = some b → m.mapping? a msg.srcva.toNat = some mapping →
      (msg.perm.contains PageFlags.writable = true → mapping.flags.contains PageFlags.writable = true) →
      m.Installed m' b dstva.toNat
        { frame := mapping.frame, flags := msg.perm ||| PageFlags.present ||| PageFlags.user } →
      Brings m msg own other dstva msg.perm m'

theorem offer_of_srcva {offer : Option PageOffer} (h : k.validateSource s msg = .ok offer) :
    offer = none ↔ utop ≤ msg.srcva.toNat := by
  unfold validateSource at h
  split at h
  · next hle =>
    cases h
    exact iff_of_true rfl hle
  · next hlt =>
    refine iff_of_false ?_ hlt
    rintro rfl
    split at h
    · cases h
    · cases hs : k.spaceOf s with
      | error cause => simp [hs, Except.mapError, bind, Except.bind] at h
      | ok space =>
        cases hl : k.memory.lookup space msg.srcva.toNat with
        | error cause => simp [hs, hl, Except.mapError, bind, Except.bind] at h
        | ok found =>
          cases found with
          | none => simp [hs, hl, Except.mapError, bind, Except.bind] at h
          | some mapping =>
            simp only [hs, hl, Except.mapError, bind, Except.bind] at h
            split at h
            · cases h
            · split at h <;> cases h

theorem handOver_brings {S : Env} {offer : Option PageOffer} {space : Option Handle} {perm : PageFlags} {m : Memory}
    (hp : Proper n k.envs k.memory) (hS : k.envs.find? s = some S) (hv : k.validateSource s msg = .ok offer)
    (hh : handOver space dstva offer k.memory = .done perm m) :
    Brings k.memory msg S.space space dstva perm m := by
  rcases handOver_inv hh with ⟨hbare, rfl, rfl⟩ | ⟨o, b, rfl, hd, rfl, rfl, hi⟩
  · exact .bare (hbare.imp_left (offer_of_srcva hv).mp)
  · have hsrc : msg.srcva.toNat < utop := by
      by_contra hle
      cases (offer_of_srcva hv).mpr (Nat.not_lt.mp hle)
    obtain ⟨hperm, x, own, hx, hown, hmapping, hwritable⟩ := validateSource_some hv
    cases find?_unique hS hx
    rw [hperm] at hi ⊢
    exact .page hsrc hd hown rfl hmapping hwritable (Memory.insert_installs hp.intact.memory.pool hp.clear hi)

theorem transfer_inv {u : Unit} (h : transfer s r msg k = .done u k') : ∃ offer R perm m,
    k.validateSource s msg = .ok offer ∧ k.envs.find? r = some R ∧
      handOver R.space R.mailbox.dstva offer k.memory = .done perm m ∧ k' = { k with
        envs := k.envs.update r (delivered s msg.value perm)
        memory := m
        journal := k.journal.record (.delivered s r msg.value perm) } := by
  cases hv : k.validateSource s msg with
  | error cause =>
    rw [transfer, Action.state_bind, hv, Action.lift_error_bind] at h
    cases h
  | ok offer =>
    cases hR : k.envs.find? r with
    | none =>
      rw [transfer, Action.state_bind, hv, Action.lift_ok_bind, readEnv_mapError_bind_none _ hR] at h
      cases h
    | some R =>
      rw [transfer_apply hv hR] at h
      cases hh : handOver R.space R.mailbox.dstva offer k.memory with
      | done perm m =>
        rw [hh] at h
        cases h
        exact ⟨offer, R, perm, m, rfl, rfl, hh, rfl⟩
      | refused cause m =>
        rw [hh] at h
        cases h
      | halted q =>
        rw [hh] at h
        cases h

/-- How a queued receive of `r` from the slot `start` on ends, with the page wanted at `dstva`. -/
inductive Receives (k : Kernel) (r : Id) (R : Env) (dstva : Word) (start : Nat) : ReceiveOutcome → Kernel → Prop
  | blocked {failed : List (Id × IpcError)} {k₁ : Kernel} {m : Memory} :
      k.envs.parkedFrom r start = failed.map Prod.fst →
      Bounces r { k with envs := k.envs.update r (Env.scanning dstva) } failed k₁ →
      k.memory.Spent m →
      Receives k r R dstva start .blocked { k with
        envs := k.envs.revise fun e =>
          if e.id = r then blocking dstva { e with waiting := 0 } else e.rejected failed
        memory := m
        journal := k.journal.rejections failed }
  | received {failed : List (Id × IpcError)} {later : List Id} {s : Id} {S : Env} {p : Parcel} {k₁ k₂ : Kernel}
      {m m' : Memory} {perm : PageFlags} :
      k.envs.parkedFrom r start = failed.map Prod.fst ++ s :: later →
      Bounces r { k with envs := k.envs.update r (Env.scanning dstva) } failed k₁ →
      transfer s r p.toMessage { k₁ with envs := k₁.envs.relieved r s } = .done () k₂ →
      k.envs.find? s = some S → S.outbox = some p →
      k.memory.Spent m → Brings m p.toMessage S.space R.space dstva perm m' →
      Receives k r R dstva start (.received s) { k with
        envs := k.envs.revise fun e =>
          if e.id = r then { e with
            waiting := e.waiting - (failed.length + 1)
            mailbox := { receiving := false, dstva, value := p.value, sender := s, perm } }
          else if e.id = s then e.unpark 0
          else e.rejected failed
        memory := m'
        journal := (k.journal.rejections failed).record (.delivered s r p.value perm) }

def scanned (r : Id) (dstva : Word) (failed : List (Id × IpcError)) (e : Env) : Env :=
  if e.id = r then Env.scanning dstva { e with waiting := e.waiting - failed.length } else e.rejected failed

theorem title_scanned (e : Env) (he : e.isFree = false) : (scanned r dstva failed e).title = e.title := by
  unfold scanned
  split
  · rfl
  · exact Env.title_rejected e he

theorem outbox_of_scanned {e : Env} (h : (scanned r dstva failed e).outbox = some p) : e.outbox = some p := by
  unfold scanned at h
  split at h
  · exact h
  · exact Env.outbox_of_rejected h

theorem rejecting_scanning (ht : k.envs.Indexed) :
    (k.envs.update r (Env.scanning dstva)).revise (Env.rejecting r failed) =
      k.envs.revise (scanned r dstva failed) := by
  rw [update_eq_revise ht, revise_revise]
  · refine revise_congr fun _ e _ _ => ?_
    by_cases hr : e.id = r
    · simp only [scanned, Env.rejecting, Env.scanning, if_pos hr]
    · simp only [scanned, Env.rejecting, if_neg hr]
  · intro e _
    split <;> rfl

/-- A message is handed over after these rejections: what all of it leaves of the table. -/
theorem serving_eq (value : Word) (perm : PageFlags) (ht : k.envs.Indexed) (hne : s ≠ r)
    (hnew : s ∉ failed.map Prod.fst) :
    (((k.envs.revise (scanned r dstva failed)).relieved r s).update r (delivered s value perm)).woken s 0 =
      k.envs.revise fun e =>
        if e.id = r then { e with
          waiting := e.waiting - (failed.length + 1)
          mailbox := { receiving := false, dstva, value, sender := s, perm } }
        else if e.id = s then e.unpark 0
        else e.rejected failed := by
  rw [served_eq ((touched_revise title_scanned).indexed ht) hne title_delivered, revise_revise title_scanned]
  refine revise_congr fun _ e _ hl => ?_
  by_cases hr : e.id = r
  · simp only [scanned, if_pos hr, Env.scanning, delivered, Nat.sub_sub]
  · have hid : (e.rejected failed).id = e.id := (Env.title_eq.mp (Env.title_rejected e hl)).1
    by_cases hs : e.id = s
    · have hsame : e.rejected failed = e := Env.rejected_of_not_mem (hs ▸ hnew)
      simp only [scanned, if_neg hr, hsame, if_pos hs]
    · simp only [scanned, if_neg hr, hid, if_neg hs]

section receives

variable (hp : Proper n k.envs k.memory) (hx : k.envs.Exact) (hR : k.envs.find? r = some R)
  (hb : Bounces r { k with envs := k.envs.update r (Env.scanning dstva) } failed k₁)
include hp hx hR hb

omit hR in
theorem Bounces.scanned_eq (hn : (failed.map Prod.fst).Nodup) : ∃ m, k.memory.Spent m ∧ k₁ = { k with
    envs := k.envs.revise (scanned r dstva failed), memory := m, journal := k.journal.rejections failed } := by
  obtain ⟨m, hm, hk₁⟩ := hb.leaves (hp.touched touched_scanning) (hx.touch fun _ _ => rfl) hn
  refine ⟨m, hm, hk₁.trans ?_⟩
  rw [← rejecting_scanning hp.intact.table.indexed]

omit hp hx hb in
theorem find?_scanned : (k.envs.revise (scanned r dstva failed)).find? r =
    some (Env.scanning dstva { R with waiting := R.waiting - failed.length }) := by
  rw [find?_revise title_scanned, hR, Option.map_some, scanned, if_pos (id_of_find? hR)]

theorem Bounces.receives_blocked (hw : k.envs.parkedFrom r start = failed.map Prod.fst) :
    (∃ R', k₁.envs.find? r = some R') ∧
      Receives k r R dstva start .blocked { k₁ with envs := k₁.envs.update r (blocking dstva) } := by
  have ht := hp.intact.table.indexed
  have hlen : R.waiting = failed.length := by rw [hx.waiting_eq_parkedFrom hR start, hw, List.length_map]
  obtain ⟨m, hm, rfl⟩ := hb.scanned_eq hp hx (hw ▸ nodup_parkedFrom ht)
  refine ⟨⟨_, find?_scanned hR⟩, ?_⟩
  have henvs : (k.envs.revise (scanned r dstva failed)).update r (blocking dstva) = k.envs.revise fun e =>
      if e.id = r then blocking dstva { e with waiting := 0 } else e.rejected failed := by
    rw [update_revise ht title_scanned]
    refine revise_congr fun _ e hs hl => ?_
    by_cases hr : e.id = r
    · cases find?_unique (hr ▸ ht.find?_of_slot? hs hl) hR
      simp only [scanned, if_pos hr, hlen, Nat.sub_self]
      rfl
    · simp only [scanned, if_neg hr]
  rw [henvs]
  exact .blocked hw hb hm

omit hx hb in
theorem transfer_scanned {S : Env} {m : Memory} {u : Unit} (hm : k.memory.Spent m)
    (henvs : k₁.envs = k.envs.revise (scanned r dstva failed)) (hmemory : k₁.memory = m)
    (hS : k.envs.find? s = some S) (hne : s ≠ r)
    (h : transfer s r msg { k₁ with envs := k₁.envs.relieved r s } = .done u k₂) :
    ∃ perm m', Brings m msg S.space R.space dstva perm m' ∧ k₂ = { k₁ with
      envs := (k₁.envs.relieved r s).update r (delivered s msg.value perm)
      memory := m'
      journal := k₁.journal.record (.delivered s r msg.value perm) } := by
  obtain ⟨offer, R₁, perm, m', hv, hR₁, hh, rfl⟩ := transfer_inv h
  refine ⟨perm, m', ?_, rfl⟩
  have htouched : Touched k.envs (k₁.envs.relieved r s) :=
    (henvs ▸ touched_revise title_scanned : Touched k.envs k₁.envs).trans touched_relieved
  obtain ⟨S₁, hS₁, htitle⟩ := htouched.find? hS
  have hrelieved : (k₁.envs.relieved r s).find? r = some _ :=
    find?_update_self Env.title_settled ((find?_update_of_ne Env.title_cleared hne.symm).trans
      ((congrArg (·.find? r) henvs).trans (find?_scanned hR)))
  cases hrelieved.symm.trans hR₁
  have hp₁ : Proper n (k₁.envs.relieved r s) k₁.memory := hmemory ▸ (hp.touched htouched).spent hm
  have hgiven := handOver_brings (k := { k₁ with envs := k₁.envs.relieved r s }) hp₁ hS₁ hv hh
  rw [(Env.title_eq.mp htitle).2.1, hmemory] at hgiven
  exact hgiven

theorem Bounces.receives_message {later : List Id} (hw : k.envs.parkedFrom r start = failed.map Prod.fst ++ s :: later)
    (hs : k₁.envs.Holds s p) (ht : p.target = r)
    (htransfer : transfer s r p.toMessage { k₁ with envs := k₁.envs.relieved r s } = .done () k₂) :
    Receives k r R dstva start (.received s) { k₂ with envs := k₂.envs.woken s 0 } := by
  have hindexed := hp.intact.table.indexed
  have hn : (failed.map Prod.fst ++ s :: later).Nodup := hw ▸ nodup_parkedFrom hindexed
  have hnew : s ∉ failed.map Prod.fst := fun hm => List.disjoint_of_nodup_append hn hm List.mem_cons_self
  obtain ⟨m, hm, hk₁⟩ := hb.scanned_eq hp hx hn.of_append_left
  have henvs₁ : k₁.envs = k.envs.revise (scanned r dstva failed) := congrArg Kernel.envs hk₁
  have hmemory₁ : k₁.memory = m := congrArg Kernel.memory hk₁
  -- The sender is the one that it was before the scan, with its message.
  obtain ⟨S, hS, ho⟩ : k.envs.Holds s p := by
    obtain ⟨S₁, hS₁, ho⟩ := hs
    rw [henvs₁, find?_revise title_scanned] at hS₁
    obtain ⟨S, hS, rfl⟩ := Option.map_eq_some_iff.mp hS₁
    exact ⟨S, hS, outbox_of_scanned ho⟩
  have hne : s ≠ r := ne_of_holds hx ⟨S, hS, ho⟩ ht
  obtain ⟨perm, m', hbrings, hk₂⟩ := transfer_scanned hp hR hm henvs₁ hmemory₁ hS hne htransfer
  have hends := Receives.received hw hb htransfer hS ho hm hbrings
  rw [← serving_eq p.value perm hindexed hne hnew] at hends
  rw [hk₂, hk₁]
  exact hends

end receives

/-- A queued receive of a live environment comes to an end, with everybody who waits for it served in the circular
order of their slots until a message is handed over. Whoever was rejected before runs again with the error and an
empty outbox, the sender of the message runs again with 0, and the others wait on; without a message the receiver is
blocked, and nobody waits any more. Of everything else, only the mapping that came with the message is new, and failures
on demand may have happened. -/
theorem receiveQueued_exact (hp : Proper n k.envs k.memory) (hx : k.envs.Exact) (hR : k.envs.find? r = some R)
    (hd : validateDestination dstva = .ok ()) (hstart : start + k.envs.capacity ≤ addressLimit) :
    (k.envs.parkedFrom r start).Perm (k.envs.parkedOn r) ∧ (k.envs.parkedFrom r start).Nodup ∧
      R.waiting = (k.envs.parkedFrom r start).length ∧
      ∃ outcome k', receiveQueued r dstva start k = .done outcome k' ∧ Receives k r R dstva start outcome k' := by
  have ht := hp.intact.table
  have hlen := hx.waiting_eq_parkedFrom hR start
  have hnodup : (k.envs.parkedFrom r start).Nodup := nodup_parkedFrom ht.indexed
  refine ⟨parkedFrom_perm k.envs r start, hnodup, hlen, ?_⟩
  rcases Nat.eq_zero_or_pos R.waiting with hw | hw
  · have hnone : k.envs.parkedFrom r start = [] := List.eq_nil_of_length_eq_zero (hlen.symm.trans hw)
    obtain ⟨-, hends⟩ := Bounces.receives_blocked hp hx hR
      (.none { k with envs := k.envs.update r (Env.scanning dstva) }) hnone
    refine ⟨.blocked, _, receiveQueued_blocks hd hR hw, ?_⟩
    have hagain : (k.envs.update r (Env.scanning dstva)).update r (blocking dstva) =
        k.envs.update r (blocking dstva) := by
      rw [update_eq_revise ht.indexed, update_revise ht.indexed, update_eq_revise ht.indexed]
      · refine revise_congr fun _ e _ _ => ?_
        by_cases hr : e.id = r <;> simp [hr, blocking, Env.scanning]
      · intro e _
        split <;> rfl
    rw [← hagain]
    exact hends
  · obtain ⟨k₀, hk₀⟩ : ∃ k₀ : Kernel, k₀ = { k with envs := k.envs.update r (Env.scanning dstva) } := ⟨_, rfl⟩
    have hp₀ : Proper n k₀.envs k₀.memory := hk₀ ▸ hp.touched touched_scanning
    have hx₀ : k₀.envs.Exact := hk₀ ▸ hx.touch fun _ _ => rfl
    have hcap : k₀.envs.capacity = k.envs.capacity := hk₀ ▸ capacity_update
    obtain ⟨found, k', hscan, hends⟩ := fetchFrom_scanned r start k₀.envs.capacity 0 hp₀ hx₀
      (by omega) (by omega)
    have hsame : k₀.envs.parkedAmong r (arc k₀.envs.capacity start 0 k₀.envs.capacity) = k.envs.parkedFrom r start := by
      rw [parkedFrom, hcap]
      refine parkedAmong_congr fun i _ => ?_
      rw [hk₀]
      dsimp only
      rw [update_eq_revise ht.indexed]
      refine parkedAt_revise fun e _ _ => ?_
      split <;> exact ⟨rfl, rfl⟩
    rw [hsame] at hends
    rw [hcap, hk₀] at hscan
    cases hends with
    | starved hb hw' =>
      rw [hk₀] at hb
      obtain ⟨⟨R', hR'⟩, hblocked⟩ := hb.receives_blocked hp hx hR hw'
      exact ⟨_, _, receiveQueued_starved hd hR hw hscan hR', hblocked⟩
    | served hb hw' hs htarget htransfer =>
      rw [hk₀] at hb
      exact ⟨_, _, receiveQueued_received hd hR hw hscan, hb.receives_message hp hx hR hw' hs htarget htransfer⟩

def trioConfig : Config := { cpus := 1, capacity := 4, frames := 16, level := .error }

def bothParked : List Demand :=
  [.step (.create .user), .step (.create .user), .step (.create .user),
    .step (.load ⟨0x401⟩ 0x200000 (PageFlags.present ||| PageFlags.user)),
    .call .standard ⟨0⟩ ⟨0x401⟩ 14 #v[0x403, 5, 0x200000, PageFlags.user.bits, 0],
    .call .standard ⟨0⟩ ⟨0x402⟩ 14 #v[0x403, 7, UInt64.ofNat utop, 0, 0], .denyMap]

/-- The page cannot be mapped, and the word is received. -/
theorem receiveQueued_exact_second : ∃ k k' R, k.Reachable ∧ k.envs.Exact ∧ k.envs.find? ⟨0x403⟩ = some R ∧
    R.waiting = 2 ∧ k.envs.parkedFrom ⟨0x403⟩ 1 = [⟨0x401⟩, ⟨0x402⟩] ∧
    receiveQueued ⟨0x403⟩ 0x300000 1 k = .done (.received ⟨0x402⟩) k' ∧
    Receives k ⟨0x403⟩ R 0x300000 1 (.received ⟨0x402⟩) k' := by
  let k := ((boot trioConfig {} {}).toOption.bind (Demand.replay · bothParked)).get (by decide +kernel)
  have hk : k.Reachable := .of_replay (Option.some_get _).symm
  obtain ⟨n, hp⟩ := hk.proper
  have hx : k.envs.Exact := exact_of_toList (by decide +kernel)
  let R := (k.envs.find? ⟨0x403⟩).get (by decide +kernel)
  have hR : k.envs.find? ⟨0x403⟩ = some R := (Option.some_get _).symm
  have hreceived : ((receiveQueued ⟨0x403⟩ 0x300000 1 k).result?.map Prod.fst) = some (.received ⟨0x402⟩) := by
    decide +kernel
  obtain ⟨-, -, hw, outcome, k', hdone, hends⟩ := receiveQueued_exact hp hx hR
    (show validateDestination 0x300000 = .ok () by decide)
    (show 1 + k.envs.capacity ≤ addressLimit by decide +kernel)
  rw [hdone] at hreceived
  cases Option.some.inj hreceived
  exact ⟨k, k', R, hk, hx, hR, by decide +kernel, by decide +kernel, hdone, hends⟩

end Kernel

end Exokernel
