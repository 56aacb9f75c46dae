import Exokernel.Proofs.Kernel.Rotation
import Exokernel.Proofs.Post.Delivery

/-!
# A sender and its receiver

What a queued send and a queued receive do when only these two have to do with each other. A message comes down to one
action on memory, which knows the space of the receiver and where it wants the page; the rest is written into the two
environments.
-/

set_option autoImplicit false

namespace Exokernel

open Env (Id Kind Status Message Parcel)
open Env.Table

namespace Action

variable {σ ε ε' α β : Type} {x : Action σ ε α} {f : α → Action σ ε β} {s s' : σ} {a : α} {e : ε} {p : Panic}

theorem bind_halted (h : x s = .halted p) : (x >>= f) s = .halted p := by rw [bind_apply, h]

theorem attempt_done (h : x s = .done a s') : (x.attempt : Action σ ε' (Except ε α)) s = .done (.ok a) s' := by
  rw [attempt, h]

theorem attempt_refused (h : x s = .refused e s') :
    (x.attempt : Action σ ε' (Except ε α)) s = .done (.error e) s' := by
  rw [attempt, h]

theorem attempt_halted (h : x s = .halted p) : (x.attempt : Action σ ε' (Except ε α)) s = .halted p := by
  rw [attempt, h]

end Action

namespace Env.Table

structure Pair (t : Table) (s r : Id) (S R : Env) (t' : Table) : Prop where
  sender : t'.find? s = some S
  receiver : t'.find? r = some R
  others : ∀ j, j ≠ s → j ≠ r → t'.find? j = t.find? j

def Unawaited (t : Table) (r : Id) : Prop := ∀ j e, t.find? j = some e → e.isParkedOn r = false

theorem unawaited_of_parkedOn {t : Table} {r : Id} (h : t.parkedOn r = []) : t.Unawaited r := by
  intro j e hf
  have hm : e ∈ t.toList := mem_toList.mpr ⟨j.index, slot?_of_find? hf, live_of_find? hf⟩
  rw [parkedOn, List.map_eq_nil_iff, List.filter_eq_nil_iff] at h
  simpa using h e hm

variable {t t' : Table} {s r : Id} {S R : Env} {f : Env → Env}

namespace Pair

theorem refl (hS : t.find? s = some S) (hR : t.find? r = some R) : Pair t s r S R t := ⟨hS, hR, fun _ _ _ => rfl⟩

theorem editSender (h : Pair t s r S R t') (hne : s ≠ r) (hf : ∀ e, e.isFree = false → (f e).title = e.title) :
    Pair t s r (f S) R (t'.update s f) :=
  ⟨find?_update_self hf h.sender, (find?_update_of_ne hf hne.symm).trans h.receiver,
    fun j hs hr => (find?_update_of_ne hf hs).trans (h.others j hs hr)⟩

theorem editReceiver (h : Pair t s r S R t') (hne : s ≠ r) (hf : ∀ e, e.isFree = false → (f e).title = e.title) :
    Pair t s r S (f R) (t'.update r f) :=
  ⟨(find?_update_of_ne hf hne).trans h.sender, find?_update_self hf h.receiver,
    fun j hs hr => (find?_update_of_ne hf hr).trans (h.others j hs hr)⟩

theorem relieved (h : Pair t s r S R t') (hne : s ≠ r) :
    Pair t s r { S with outbox := none } { R with waiting := R.waiting - 1 } (t'.relieved r s) :=
  (h.editSender hne Env.title_cleared).editReceiver hne Env.title_settled

theorem woken (h : Pair t s r S R t') (hne : s ≠ r) (w : Word) :
    Pair t s r { S with context := S.context.setAnswer w, status := .runnable } R (t'.woken s w) :=
  h.editSender hne (Env.title_woken (g := fun e => e.context.setAnswer w))

theorem parked_inv (h : Pair t s r S R t') (ht : t.Unawaited r) (hR : R.isParkedOn r = false) {j : Id} {e : Env}
    (hf : t'.find? j = some e) (hp : e.isParkedOn r = true) : j = s := by
  by_contra hs
  by_cases hr : j = r
  · subst hr
    obtain rfl := find?_unique h.receiver hf
    rw [hR] at hp
    cases hp
  · rw [h.others j hs hr] at hf
    rw [ht j e hf] at hp
    cases hp

theorem unawaited (h : Pair t s r S R t') (ht : t.Unawaited r) (hR : R.isParkedOn r = false)
    (hS : S.isParkedOn r = false) : t'.Unawaited r := by
  intro j e hf
  by_contra hp
  obtain rfl := h.parked_inv ht hR hf (by simpa using hp)
  obtain rfl := find?_unique h.sender hf
  exact hp hS

end Pair

end Env.Table

namespace Kernel

variable {k k' : Kernel} {s r : Id} {S R R' : Env} {msg : Message} {offer : Option PageOffer} {dstva : Word}
  {start count done d index : Nat} {p : Parcel} {cause : IpcError}

def handOver (space : Option Handle) (dstva : Word) : Option PageOffer → Action Memory IpcError PageFlags
  | none => pure .empty
  | some offer =>
    if dstva.toNat < utop then
      match space with
      | none => .refuse .badEnvironment
      | some space => do
        (Memory.insert space offer.mapping.frame dstva.toNat
          (offer.perm ||| PageFlags.present ||| PageFlags.user)).mapError IpcError.ofSpace
        return offer.perm
    else pure .empty

theorem acceptPage_eq (receiver : Env) (offer : Option PageOffer) :
    acceptPage receiver offer = onMemory (handOver receiver.space receiver.mailbox.dstva offer) := by
  funext k
  cases offer with
  | none => rfl
  | some o =>
    rw [acceptPage, handOver.eq_def]
    dsimp only
    split
    · cases receiver.space with
      | none => rfl
      | some space =>
        simp only [onMemory, Action.onPart, Action.bind_apply, Action.mapError]
        cases Memory.insert space o.mapping.frame receiver.mailbox.dstva.toNat
          (o.perm ||| PageFlags.present ||| PageFlags.user) k.memory with
        | done u m => rfl
        | refused cause m => rfl
        | halted p => rfl
    · rfl

/-- No page moves, or the offered one is mapped with the permission that it was offered with. -/
theorem handOver_inv {space : Option Handle} {m m' : Memory} {perm : PageFlags}
    (hh : handOver space dstva offer m = .done perm m') :
    ((offer = none ∨ utop ≤ dstva.toNat) ∧ perm = .empty ∧ m' = m) ∨
      ∃ o b, offer = some o ∧ dstva.toNat < utop ∧ space = some b ∧ perm = o.perm ∧
        Memory.insert b o.mapping.frame dstva.toNat (o.perm ||| PageFlags.present ||| PageFlags.user) m =
          .done () m' := by
  cases offer with
  | none =>
    cases hh
    exact .inl ⟨.inl rfl, rfl, rfl⟩
  | some o =>
    rw [handOver.eq_def] at hh
    dsimp only at hh
    split at hh
    · next hd =>
      cases space with
      | none => cases hh
      | some b =>
        dsimp only at hh
        cases hi : Memory.insert b o.mapping.frame dstva.toNat
          (o.perm ||| PageFlags.present ||| PageFlags.user) m with
        | done u m₁ =>
          rw [Action.bind_apply, Action.mapError, hi] at hh
          cases hh
          exact .inr ⟨o, b, rfl, hd, rfl, rfl, hi⟩
        | refused cause m₁ =>
          rw [Action.bind_apply, Action.mapError, hi] at hh
          cases hh
        | halted q =>
          rw [Action.bind_apply, Action.mapError, hi] at hh
          cases hh
    · next hd =>
      cases hh
      exact .inl ⟨.inr (Nat.not_lt.mp hd), rfl, rfl⟩

theorem transfer_apply (hv : k.validateSource s msg = .ok offer) (hR : k.envs.find? r = some R) :
    transfer s r msg k = match handOver R.space R.mailbox.dstva offer k.memory with
      | .done perm m => .done () { k with
          envs := k.envs.update r (delivered s msg.value perm)
          memory := m
          journal := k.journal.record (.delivered s r msg.value perm) }
      | .refused cause m => .refused cause { k with memory := m }
      | .halted p => .halted p := by
  rw [transfer, Action.state_bind, hv, Action.lift_ok_bind, readEnv_mapError_bind _ hR, acceptPage_eq,
    Action.bind_apply, onMemory, Action.onPart]
  cases handOver R.space R.mailbox.dstva offer k.memory with
  | done perm m => rfl
  | refused cause m => rfl
  | halted p => rfl

/-- Memory that is in order takes a page, or refuses it with no trace but a failure on demand. -/
theorem handOver_effect {n : Nat} (space : Option Handle) (dstva : Word) (hp : Proper n k.envs k.memory)
    (hv : k.validateSource s msg = .ok offer) : (handOver space dstva offer k.memory).Meets (fun _ _ => True)
      (fun _ m => k.memory.Spent m) (fun _ => False) := by
  have heffect : (acceptPage { space, mailbox := { dstva } } offer k).Meets (fun _ _ => True)
      (fun _ k' => ∃ m, k' = { k with memory := m } ∧ k.memory.Spent m) fun _ => False :=
    (acceptPage_effect hp hv).mono (fun _ _ _ => trivial) (fun _ _ h => h) fun _ h => h
  rw [acceptPage_eq, onMemory, Action.onPart] at heffect
  cases hh : handOver space dstva offer k.memory with
  | done perm m => trivial
  | refused cause m =>
    rw [hh] at heffect
    obtain ⟨m', he, hm⟩ := heffect
    cases congrArg Kernel.memory he
    exact hm
  | halted q =>
    rw [hh] at heffect
    exact heffect

theorem handOver_goes_on {n : Nat} {q : Panic} {space : Option Handle} (hp : Proper n k.envs k.memory)
    (hv : k.validateSource s msg = .ok offer) : handOver space dstva offer k.memory ≠ .halted q :=
  fun hh => (handOver_effect space dstva hp hv).of_halted hh

theorem validateSource_congr {S' : Env} (hS : k.envs.find? s = some S) (hS' : k'.envs.find? s = some S')
    (hs : S'.space = S.space) (hm : k'.memory = k.memory) : k'.validateSource s msg = k.validateSource s msg := by
  simp only [validateSource, spaceOf, get_of_find? hS, get_of_find? hS', bind, Except.bind, hs, hm]

theorem resolveTarget_live (ht : k.envs.Sound) (hR : k.envs.find? r = some R) : resolveTarget s r k = .done r k := by
  have hgen := (ht.named _ R (slot?_of_find? hR) (live_of_find? hR)).2.1
  rw [id_of_find? hR] at hgen
  have hlook : k.envs.lookup r (some s) false = .ok R :=
    lookup_unchecked.mpr ⟨by simp [Id.not_isSelf hgen, id_of_find? hR], by rw [id_of_find? hR, hR]⟩
  rw [resolveTarget, Action.state_bind, Env.Table.resolve, hlook]
  exact congrArg (Outcome.done · k) (id_of_find? hR)

/-! A send to somebody else who is live is rejected for its offer, parks, or is handed over at once. -/

section send

variable (ht : k.envs.Sound) (hne : s ≠ r) (hR : k.envs.find? r = some R)
include ht hne hR

theorem sendQueued_rejected (hv : k.validateSource s msg = .error cause) :
    sendQueued s r msg k = .refused cause k := by
  rw [sendQueued, Action.bind_done (resolveTarget_live ht hR), if_neg hne.symm]
  dsimp only
  rw [Action.state_bind, hv, Action.lift_error_bind]

theorem sendQueued_waits (hS : k.envs.find? s = some S) (hv : k.validateSource s msg = .ok offer)
    (hr : R.mailbox.receiving = false) (hroom : R.waiting + 1 < countLimit) :
    sendQueued s r msg k = .done .parked { k with
      envs := (k.envs.update r fun e => { e with waiting := e.waiting + 1 }).update s fun e =>
        { e with outbox := some { msg with target := r }, status := .notRunnable, cpu := none }
      journal := k.journal.record (.parked s r) } := by
  have hS' : (k.envs.update r fun e => { e with waiting := e.waiting + 1 }).find? s = some S :=
    (find?_update_of_ne Env.title_owed hne).trans hS
  rw [sendQueued, Action.bind_done (resolveTarget_live ht hR), if_neg hne.symm]
  dsimp only
  rw [Action.state_bind, hv, Action.lift_ok_bind, readEnv_mapError_bind _ hR, if_neg (by simp [hr]), addWaiting,
    if_pos hroom, updateEnv_bind]
  rw [readEnv_mapError_bind
    (k := { k with envs := k.envs.update r fun e => { e with waiting := e.waiting + 1 } }) _ hS']
  rfl

theorem sendQueued_hands (hv : k.validateSource s msg = .ok offer) (hr : R.mailbox.receiving = true) :
    sendQueued s r msg k = match handOver R.space R.mailbox.dstva offer k.memory with
      | .done perm m => .done .delivered { k with
          envs := (k.envs.update r (delivered s msg.value perm)).update r fun e => { e with status := .runnable }
          memory := m
          journal := k.journal.record (.delivered s r msg.value perm) }
      | .refused cause m => .refused cause { k with memory := m }
      | .halted p => .halted p := by
  rw [sendQueued, Action.bind_done (resolveTarget_live ht hR), if_neg hne.symm]
  dsimp only
  rw [Action.state_bind, hv, Action.lift_ok_bind, readEnv_mapError_bind _ hR, if_pos hr, Action.bind_apply,
    transfer_apply hv hR]
  cases handOver R.space R.mailbox.dstva offer k.memory with
  | done perm m => rfl
  | refused cause m => rfl
  | halted p => rfl

end send

/-! A scan passes over the slots of others and comes to the only sender that waits. -/

theorem takeParked_passes (ht : k.envs.Sound)
    (hp : ∀ j e, k.envs.find? j = some e → e.isParkedOn r = true → j.index ≠ index) :
    takeParked index r k = .done none k := by
  rw [takeParked, Action.state_bind]
  cases hs : k.envs.slot? index with
  | none => rfl
  | some e =>
    have hidle : ¬e.isParkedOn r = true := fun hpark =>
      have hlive := (Env.isParkedOn_iff.mp hpark).1
      hp e.id e (ht.find?_of_slot? hs hlive) hpark (ht.named index e hs hlive).1
    cases ho : e.outbox with
    | none =>
      simp only [ho]
      rfl
    | some p =>
      simp only [ho, if_neg hidle]
      rfl

theorem takeParked_takes (hS : k.envs.find? s = some S) (ho : S.outbox = some p) (hp : p.target = r) :
    takeParked s.index r k =
      .done (some (s, p)) { k with envs := k.envs.update s fun e => { e with outbox := none } } := by
  have hpark : S.isParkedOn r = true := Env.isParkedOn_iff.mpr ⟨live_of_find? hS, p, ho, hp⟩
  rw [takeParked, Action.state_bind, slot?_of_find? hS]
  simp only [ho, if_pos hpark, id_of_find? hS]
  rfl

theorem fetch_passes (ht : k.envs.Sound)
    (hp : ∀ j e, k.envs.find? j = some e → e.isParkedOn r = true → j.index ≠ index) :
    fetch r index k = .done none k := by
  rw [fetch, Action.bind_done (takeParked_passes ht hp)]
  rfl

/-- A fetch of a parked message comes to what its transfer comes to. -/
theorem fetch_parked (hS : k.envs.find? s = some S) (ho : S.outbox = some p) (hp : p.target = r) :
    fetch r s.index k = match transfer s r p.toMessage { k with envs := k.envs.relieved r s } with
      | .done _ k₁ => .done (some s) { k₁ with envs := k₁.envs.woken s 0 }
      | .refused cause k₁ => .done none { k₁ with
          envs := k₁.envs.woken s cause.code.toWord
          journal := k₁.journal.record (.fetchFailed s cause) }
      | .halted p => .halted p := by
  rw [fetch, Action.bind_done (takeParked_takes hS ho hp)]
  simp only
  rw [updateEnv_bind]
  change ((transfer s r p.toMessage).attempt >>= _ : Action Kernel IpcError _)
    { k with envs := k.envs.relieved r s } = _
  cases hx : transfer s r p.toMessage { k with envs := k.envs.relieved r s } with
  | done u k₁ =>
    rw [Action.bind_done (Action.attempt_done hx)]
    rfl
  | refused cause k₁ =>
    rw [Action.bind_done (Action.attempt_refused hx)]
    rfl
  | halted p =>
    rw [Action.bind_halted (Action.attempt_halted hx)]

theorem fetch_takes (hS : k.envs.find? s = some S) (ho : S.outbox = some p) (hp : p.target = r)
    (hR : (k.envs.relieved r s).find? r = some R)
    (hv : ({ k with envs := k.envs.relieved r s } : Kernel).validateSource s p.toMessage = .ok offer) :
    fetch r s.index k = match handOver R.space R.mailbox.dstva offer k.memory with
      | .done perm m => .done (some s) { k with
          envs := ((k.envs.relieved r s).update r (delivered s p.value perm)).woken s 0
          memory := m
          journal := k.journal.record (.delivered s r p.value perm) }
      | .refused cause m => .done none { k with
          envs := (k.envs.relieved r s).woken s cause.code.toWord
          memory := m
          journal := k.journal.record (.fetchFailed s cause) }
      | .halted p => .halted p := by
  rw [fetch_parked hS ho hp, transfer_apply (k := { k with envs := k.envs.relieved r s }) hv hR]
  cases handOver R.space R.mailbox.dstva offer k.memory <;> rfl

theorem fetchFrom_passes (ht : k.envs.Sound) (hu : k.envs.Unawaited r) (hroom : start + done + count ≤ addressLimit) :
    fetchFrom r start count done k = .done none k := by
  induction count generalizing done with
  | zero => rfl
  | succ count ih =>
    have hidle : fetch r ((start + done) % k.envs.capacity) k = .done none k := fetch_passes ht fun j e hf hp => by
      rw [hu j e hf] at hp
      cases hp
    rw [fetchFrom, if_pos (by omega), Action.state_bind, Action.bind_done hidle]
    exact ih (by omega)

/-- A scan that meets the slot of the only sender comes to what the fetch of this slot comes to. -/
theorem fetchFrom_takes (ht : k.envs.Sound) (hsole : ∀ j e, k.envs.find? j = some e → e.isParkedOn r = true → j = s)
    (hrest : ∀ k', fetch r s.index k = .done none k' → k'.envs.Unawaited r)
    (hroom : start + done + count ≤ addressLimit) (hlo : done ≤ d) (hhi : d < done + count)
    (hd : (start + d) % k.envs.capacity = s.index) :
    fetchFrom r start count done k = fetch r s.index k := by
  induction count generalizing done with
  | zero => omega
  | succ count ih =>
    rw [fetchFrom, if_pos (by omega), Action.state_bind]
    by_cases hi : (start + done) % k.envs.capacity = s.index
    · rw [hi, Action.bind_apply]
      cases hx : fetch r s.index k with
      | done found k' =>
        cases found with
        | some sender => rfl
        | none => exact fetchFrom_passes ((fetch_touched ht hx).sound ht) (hrest k' hx) (by omega)
      | refused cause k' => rfl
      | halted p => rfl
    · have hidle : fetch r ((start + done) % k.envs.capacity) k = .done none k := fetch_passes ht fun j e hf hp => by
        rw [hsole j e hf hp]
        exact Ne.symm hi
      have hne : done ≠ d := by
        rintro rfl
        exact hi hd
      rw [Action.bind_done hidle]
      exact ih (by omega) (by omega) (by omega)

theorem receiveQueued_rejected (hd : validateDestination dstva = .error cause) :
    receiveQueued r dstva start k = .refused cause k := by
  rw [receiveQueued, hd, Action.lift_error_bind]

theorem receiveQueued_blocks (hd : validateDestination dstva = .ok ()) (hR : k.envs.find? r = some R)
    (hw : R.waiting = 0) : receiveQueued r dstva start k =
      .done .blocked { k with envs := k.envs.update r (blocking dstva) } := by
  rw [receiveQueued, hd, Action.lift_ok_bind, readEnv_mapError_bind _ hR, if_neg (by omega)]
  exact (Action.bind_done (blockInReceive_apply hR)).trans rfl

/-! With senders waiting a receive comes to what its scan comes to. -/

section scan

variable (hd : validateDestination dstva = .ok ()) (hR : k.envs.find? r = some R) (hw : 0 < R.waiting)
include hd hR hw

theorem receiveQueued_scans : receiveQueued r dstva start k =
    (fetchFrom r start k.envs.capacity 0 >>= fun found => match found with
      | some sender => return .received sender
      | none => do
        blockInReceive r dstva
        return .blocked) { k with envs := k.envs.update r (Env.scanning dstva) } := by
  rw [receiveQueued, hd, Action.lift_ok_bind, readEnv_mapError_bind _ hR, if_pos hw, updateEnv_bind,
    Action.state_bind, capacity_update]
  exact congrFun (congrArg _ (funext fun found => by cases found <;> rfl)) _

theorem receiveQueued_received (hscan : fetchFrom r start k.envs.capacity 0
      { k with envs := k.envs.update r (Env.scanning dstva) } = .done (some s) k') :
    receiveQueued r dstva start k = .done (.received s) k' := by
  rw [receiveQueued_scans hd hR hw, Action.bind_done hscan]
  rfl

theorem receiveQueued_starved (hscan : fetchFrom r start k.envs.capacity 0
      { k with envs := k.envs.update r (Env.scanning dstva) } = .done none k') (hR' : k'.envs.find? r = some R') :
    receiveQueued r dstva start k = .done .blocked { k' with envs := k'.envs.update r (blocking dstva) } := by
  rw [receiveQueued_scans hd hR hw, Action.bind_done hscan]
  exact (Action.bind_done (blockInReceive_apply hR')).trans rfl

theorem receiveQueued_halted {q : Panic} (hscan : fetchFrom r start k.envs.capacity 0
      { k with envs := k.envs.update r (Env.scanning dstva) } = .halted q) :
    receiveQueued r dstva start k = .halted q := by
  rw [receiveQueued_scans hd hR hw, Action.bind_halted hscan]

end scan

/-! One sender waits: its message is handed over, or it wakes with the error. -/

section sole

variable {t : Env.Table} (hpair : Pair t s r S R k.envs) (hu : t.Unawaited r) (ht : k.envs.Sound) (hne : s ≠ r)
  (hR : R.isParkedOn r = false) (ho : S.outbox = some p) (hp : p.target = r)
  (hv : k.validateSource s p.toMessage = .ok offer)
include hpair hne ho hp hv

theorem fetch_ends : match handOver R.space R.mailbox.dstva offer k.memory with
    | .done perm m => ∃ k', fetch r s.index k = .done (some s) k' ∧ k'.memory = m ∧
        Pair t s r { S with outbox := none, context := S.context.setAnswer 0, status := .runnable }
          (delivered s p.value perm { R with waiting := R.waiting - 1 }) k'.envs
    | .refused cause m => ∃ k', fetch r s.index k = .done none k' ∧ k'.memory = m ∧
        Pair t s r { S with outbox := none, context := S.context.setAnswer cause.code.toWord, status := .runnable }
          { R with waiting := R.waiting - 1 } k'.envs
    | .halted q => fetch r s.index k = .halted q := by
  have hrelieved := hpair.relieved hne
  have hv' : ({ k with envs := k.envs.relieved r s } : Kernel).validateSource s p.toMessage = .ok offer :=
    Eq.trans (validateSource_congr hpair.sender hrelieved.sender rfl rfl) hv
  have hfetch := fetch_takes hpair.sender ho hp hrelieved.receiver hv'
  dsimp only at hfetch
  cases hh : handOver R.space R.mailbox.dstva offer k.memory with
  | done perm m =>
    rw [hh] at hfetch
    have hhanded := hrelieved.editReceiver (f := delivered s p.value perm) hne title_delivered
    exact ⟨_, hfetch, rfl, hhanded.woken hne 0⟩
  | refused cause m =>
    rw [hh] at hfetch
    exact ⟨_, hfetch, rfl, hrelieved.woken hne cause.code.toWord⟩
  | halted q =>
    rw [hh] at hfetch
    exact hfetch

include hu ht hR

theorem scan_takes (hstart : start < k.envs.capacity) :
    fetchFrom r start k.envs.capacity 0 k = fetch r s.index k := by
  obtain ⟨d, hlt, hi⟩ := exists_distance start (slot?_lt (slot?_of_find? hpair.sender))
  have hlimit : k.envs.capacity ≤ Env.slotLimit := ht.capacity
  have hroom : start + 0 + k.envs.capacity ≤ addressLimit := by
    simp only [Env.slotLimit, addressLimit] at hlimit ⊢
    omega
  refine fetchFrom_takes ht (fun j e => hpair.parked_inv hu hR) (fun k' hk' => ?_) hroom (Nat.zero_le d) (by omega) hi
  have hends := fetch_ends hpair hne ho hp hv
  rw [hk'] at hends
  split at hends
  · obtain ⟨_, h, -⟩ := hends
    cases h
  · obtain ⟨_, h, -, hleft⟩ := hends
    cases h
    exact hleft.unawaited hu hR (by simp [Env.isParkedOn])
  · cases hends

end sole

/-- A receive that has one sender waiting hands its message over, or wakes it with the error and blocks. -/
theorem receiveQueued_takes {t : Env.Table} (hpair : Pair t s r S R k.envs) (hu : t.Unawaited r) (ht : k.envs.Sound)
    (hne : s ≠ r) (hd : validateDestination dstva = .ok ()) (hstart : start < k.envs.capacity)
    (hw : 0 < R.waiting) (hR : R.isParkedOn r = false) (ho : S.outbox = some p) (hp : p.target = r)
    (hv : k.validateSource s p.toMessage = .ok offer) :
    match handOver R.space dstva offer k.memory with
    | .done perm m => ∃ k', receiveQueued r dstva start k = .done (.received s) k' ∧ k'.memory = m ∧
        Pair t s r { S with outbox := none, context := S.context.setAnswer 0, status := .runnable }
          (delivered s p.value perm (Env.scanning dstva { R with waiting := R.waiting - 1 })) k'.envs
    | .refused cause m => ∃ k', receiveQueued r dstva start k = .done .blocked k' ∧ k'.memory = m ∧
        Pair t s r
          { S with outbox := none, context := S.context.setAnswer cause.code.toWord, status := .runnable }
          (blocking dstva (Env.scanning dstva { R with waiting := R.waiting - 1 })) k'.envs
    | .halted p => receiveQueued r dstva start k = .halted p := by
  obtain ⟨k₁, hk₁⟩ : ∃ k₁ : Kernel, k₁ = { k with envs := k.envs.update r (Env.scanning dstva) } := ⟨_, rfl⟩
  have ht₁ : k₁.envs.Sound := hk₁ ▸ touched_scanning.sound ht
  have hpair₁ : Pair t s r S (Env.scanning dstva R) k₁.envs := hk₁ ▸ hpair.editReceiver hne fun _ _ => rfl
  have hcap : k₁.envs.capacity = k.envs.capacity := by rw [hk₁, capacity_update]
  have hm₁ : k₁.memory = k.memory := by rw [hk₁]
  have hv₁ : k₁.validateSource s p.toMessage = .ok offer :=
    (validateSource_congr hpair.sender hpair₁.sender rfl hm₁).trans hv
  have hscan := scan_takes hpair₁ hu ht₁ hne hR ho hp hv₁ (hcap ▸ hstart)
  have hends := fetch_ends hpair₁ hne ho hp hv₁
  rw [← hscan, hcap, hm₁, hk₁] at hends
  dsimp only [Env.scanning] at hends
  cases hh : handOver R.space dstva offer k.memory with
  | done perm m =>
    rw [hh] at hends
    obtain ⟨k', hx, hm, hhanded⟩ := hends
    exact ⟨k', receiveQueued_received hd hpair.receiver hw hx, hm, hhanded⟩
  | refused cause m =>
    rw [hh] at hends
    obtain ⟨k', hx, hm, hleft⟩ := hends
    exact ⟨_, receiveQueued_starved hd hpair.receiver hw hx hleft.receiver, hm, hleft.editReceiver hne title_blocking⟩
  | halted q =>
    rw [hh] at hends
    exact receiveQueued_halted hd hpair.receiver hw hends

end Kernel

end Exokernel
