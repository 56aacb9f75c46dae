import Exokernel.Proofs.Post.Pairing

/-!
# A send and a receive in either order

A sender parks before its target receives, or finds the target blocked in receive. One order fetches the message out
of an outbox, the other hands it over at once, but each checks the offer against the same space and maps the page once
into the same memory. What is left differs only in who had to wait.
-/

set_option autoImplicit false

namespace Exokernel

open Env (Id Kind Status Message Parcel)
open Env.Table

namespace Env.Table

variable {t t' t₁ t₂ : Table} {s r : Id} {S S₁ S₂ R R₁ R₂ : Env}

theorem Exact.waiting_eq_length {id : Id} {e : Env} (h : t.Exact) (hf : t.find? id = some e) :
    e.waiting = (t.parkedOn id).length := by
  rw [h.count id e hf, parkedCount_eq_length, parkedOn, List.length_map]
  congr 1
  refine List.filter_congr fun x hx => ?_
  obtain ⟨-, -, hlive⟩ := mem_toList.mp hx
  simp [isParkedOn, hlive]

def Blocked (t : Table) (r : Id) : Prop :=
  ∃ e, t.find? r = some e ∧ e.mailbox.receiving = true ∧ e.status = .notRunnable

namespace Pair

theorem posts (h₁ : Pair t s r S₁ R₁ t₁) (h₂ : Pair t s r S₂ R₂ t₂) (hS : S₁.post = S₂.post) (hR : R₁.post = R₂.post)
    (id : Id) : (t₁.find? id).map Env.post = (t₂.find? id).map Env.post := by
  by_cases hs : id = s
  · rw [hs, h₁.sender, h₂.sender, Option.map_some, Option.map_some, hS]
  · by_cases hr : id = r
    · rw [hr, h₁.receiver, h₂.receiver, Option.map_some, Option.map_some, hR]
    · rw [h₁.others id hs hr, h₂.others id hs hr]

theorem blocked_iff (h : Pair t s r S R t') :
    t'.Blocked r ↔ R.mailbox.receiving = true ∧ R.status = .notRunnable := by
  constructor
  · rintro ⟨e, hf, he⟩
    obtain rfl := find?_unique h.receiver hf
    exact he
  · exact fun he => ⟨R, h.receiver, he⟩

end Pair

end Env.Table

namespace Kernel

variable {k k' : Kernel} {s r : Id} {S R : Env} {msg : Message} {offer : Option PageOffer} {dstva : Word} {start : Nat}
  {p : Parcel} {cause : IpcError}

def sendThenReceive (s r : Id) (msg : Message) (dstva : Word) (start : Nat) :
    Action Kernel IpcError (Except IpcError SendOutcome) := do
  let sent ← (sendQueued s r msg).attempt
  let _ ← ((receiveQueued r dstva start).attempt : Action Kernel IpcError (Except IpcError ReceiveOutcome))
  return sent

def receiveThenSend (s r : Id) (msg : Message) (dstva : Word) (start : Nat) :
    Action Kernel IpcError (Except IpcError SendOutcome) := do
  let _ ← ((receiveQueued r dstva start).attempt : Action Kernel IpcError (Except IpcError ReceiveOutcome))
  (sendQueued s r msg).attempt

def learned (s : Id) : Except IpcError SendOutcome → Kernel → Option Int
  | .error cause, _ => some cause.code.toReturn
  | .ok .delivered, _ => some 0
  | .ok .parked, k => (k.envs.find? s).bind fun e =>
    if e.outbox = none ∧ e.status = .runnable then some e.context.answer else none

/-- Two ends of a send of `s` and a receive of `r` are the same but for who had to wait. -/
structure SameEnd (s r : Id) (sent sent' : Except IpcError SendOutcome) (k k' : Kernel) : Prop where
  memory : k.memory = k'.memory
  posts : ∀ id, (k.envs.find? id).map Env.post = (k'.envs.find? id).map Env.post
  answer : learned s sent k = learned s sent' k'
  blocked : k.envs.Blocked r ↔ k'.envs.Blocked r

theorem SameEnd.refl (sent : Except IpcError SendOutcome) (k : Kernel) : SameEnd s r sent sent k k :=
  ⟨rfl, fun _ => rfl, rfl, Iff.rfl⟩

theorem learned_of_resumed {a : Int} (h : k.envs.Resumed s a) : learned s (.ok .parked) k = some a := by
  obtain ⟨e, hf, ho, hs, ha⟩ := h
  rw [learned, hf, Option.bind_some, if_pos ⟨ho, hs⟩, ha]

theorem learned_of_holds (h : k.envs.Holds s p) : learned s (.ok .parked) k = none := by
  obtain ⟨e, hf, ho⟩ := h
  rw [learned, hf, Option.bind_some, if_neg (by simp [ho])]

section same

variable {t : Env.Table} {k₁ k₂ : Kernel} {perm : PageFlags} {value : Word}
  (hS : S.isFree = false) (ho : S.outbox = none) (hm : k₁.memory = k₂.memory)
include hS ho hm

/-- The message was fetched, or handed over to a receiver that blocked for it. -/
theorem SameEnd.handed (hR : R.isFree = false)
    (h₁ : Pair t s r { S with outbox := none, context := S.context.setAnswer 0, status := .runnable, cpu := none }
      (delivered s value perm (Env.scanning dstva R)) k₁.envs)
    (h₂ : Pair t s r S { delivered s value perm (blocking dstva R) with status := .runnable } k₂.envs) :
    learned s (.ok .parked) k₁ = some 0 ∧ SameEnd s r (.ok .parked) (.ok .delivered) k₁ k₂ := by
  have hlearned : learned s (.ok .parked) k₁ = some 0 :=
    learned_of_resumed ⟨_, h₁.sender, rfl, rfl, Context.answer_setAnswer _ _⟩
  have htitle : ({ delivered s value perm (blocking dstva R) with status := .runnable } : Env).title = R.title :=
    Env.title_of_live rfl rfl rfl (by simp) hR
  refine ⟨hlearned, hm, h₁.posts h₂ ?_ ?_, hlearned, ?_⟩
  · exact Env.post_eq.mpr ⟨Env.title_of_live rfl rfl rfl (by simp) hS, rfl, rfl, ho.symm⟩
  · exact Env.post_eq.mpr ⟨htitle.symm, rfl, rfl, rfl⟩
  · rw [h₁.blocked_iff, h₂.blocked_iff]
    simp [delivered]

theorem SameEnd.rejected
    (h₁ : Pair t s r
      { S with outbox := none, context := S.context.setAnswer cause.code.toWord, status := .runnable, cpu := none }
      (blocking dstva R) k₁.envs)
    (h₂ : Pair t s r S (blocking dstva R) k₂.envs) :
    learned s (.ok .parked) k₁ = some cause.code.toReturn ∧ SameEnd s r (.ok .parked) (.error cause) k₁ k₂ := by
  have hanswer : (S.context.setAnswer cause.code.toWord).answer = cause.code.toReturn :=
    (Context.answer_setAnswer _ _).trans (ErrorCode.toInt_toWord _)
  have hlearned : learned s (.ok .parked) k₁ = some cause.code.toReturn :=
    learned_of_resumed ⟨_, h₁.sender, rfl, rfl, hanswer⟩
  refine ⟨hlearned, hm, h₁.posts h₂ ?_ rfl, hlearned, ?_⟩
  · exact Env.post_eq.mpr ⟨Env.title_of_live rfl rfl rfl (by simp) hS, rfl, rfl, ho.symm⟩
  · rw [h₁.blocked_iff, h₂.blocked_iff]

end same

/-- A receive that is refused at once leaves the send to itself. -/
theorem receive_refused_aside (hd : validateDestination dstva = .error cause) :
    sendThenReceive s r msg dstva start k = receiveThenSend s r msg dstva start k := by
  have hrefused : ∀ k, ((receiveQueued r dstva start).attempt : Action Kernel IpcError _) k = .done (.error cause) k :=
    fun k => Action.attempt_refused (receiveQueued_rejected hd)
  rw [receiveThenSend, Action.bind_done (hrefused k), sendThenReceive, Action.bind_apply]
  cases ((sendQueued s r msg).attempt : Action Kernel IpcError _) k with
  | done sent k₁ => exact (Action.bind_done (hrefused k₁)).trans rfl
  | refused cause k₁ => rfl
  | halted q => rfl

section orders

variable (ht : k.envs.Sound) (hne : s ≠ r) (hS : k.envs.find? s = some S) (hR : k.envs.find? r = some R)
  (hw : R.waiting = 0) (hr : R.mailbox.receiving = false)
include ht hne hS hR hw hr

theorem sendQueued_parks_alone (hv : k.validateSource s msg = .ok offer) : ∃ k',
    sendQueued s r msg k = .done .parked k' ∧ k'.memory = k.memory ∧ k'.envs.Sound ∧
    k'.envs.capacity = k.envs.capacity ∧
    Pair k.envs s r { S with outbox := some { msg with target := r }, status := .notRunnable, cpu := none }
      { R with waiting := R.waiting + 1 } k'.envs := by
  have htouch : Touched k.envs ((k.envs.update r fun e => { e with waiting := e.waiting + 1 }).update s fun e =>
      { e with outbox := some { msg with target := r }, status := .notRunnable, cpu := none }) :=
    (touched_update Env.title_owed).trans (touched_update Env.title_parked)
  refine ⟨_, sendQueued_waits ht hne hR hS hv hr (by rw [hw]; decide), rfl, htouch.sound ht, htouch.capacity, ?_⟩
  exact ((Pair.refl hS hR).editReceiver hne Env.title_owed).editSender hne Env.title_parked

theorem sendThenReceive_ends (hu : k.envs.Unawaited r) (hd : validateDestination dstva = .ok ())
    (hstart : start < k.envs.capacity) (hv : k.validateSource s msg = .ok offer) :
    match handOver R.space dstva offer k.memory with
    | .done perm m => ∃ k', sendThenReceive s r msg dstva start k = .done (.ok .parked) k' ∧ k'.memory = m ∧
        Pair k.envs s r
          { S with outbox := none, context := S.context.setAnswer 0, status := .runnable, cpu := none }
          (delivered s msg.value perm (Env.scanning dstva R)) k'.envs
    | .refused cause m => ∃ k', sendThenReceive s r msg dstva start k = .done (.ok .parked) k' ∧ k'.memory = m ∧
        Pair k.envs s r
          { S with
            outbox := none, context := S.context.setAnswer cause.code.toWord, status := .runnable, cpu := none }
          (blocking dstva R) k'.envs
    | .halted q => sendThenReceive s r msg dstva start k = .halted q := by
  obtain ⟨k₁, hsend, hm₁, ht₁, hcap, hpair⟩ := sendQueued_parks_alone ht hne hS hR hw hr hv
  have hv₁ : k₁.validateSource s msg = .ok offer := (validateSource_congr hS hpair.sender rfl hm₁).trans hv
  have htakes := receiveQueued_takes hpair hu ht₁ hne hd (hcap ▸ hstart) (Nat.succ_pos _) (hu r R hR) rfl rfl hv₁
  rw [sendThenReceive, Action.bind_done (Action.attempt_done hsend)]
  simp only [hm₁, Nat.add_sub_cancel] at htakes
  cases hh : handOver R.space dstva offer k.memory with
  | done perm m =>
    simp only [hh] at htakes
    obtain ⟨k', hreceive, hm, hend⟩ := htakes
    exact ⟨k', (Action.bind_done (Action.attempt_done hreceive)).trans rfl, hm, hend⟩
  | refused cause m =>
    simp only [hh] at htakes
    obtain ⟨k', hreceive, hm, hend⟩ := htakes
    exact ⟨k', (Action.bind_done (Action.attempt_done hreceive)).trans rfl, hm, hend⟩
  | halted q =>
    simp only [hh] at htakes
    exact Action.bind_halted (Action.attempt_halted htakes)

omit hr in
theorem receiveThenSend_ends (start : Nat) (hd : validateDestination dstva = .ok ())
    (hv : k.validateSource s msg = .ok offer) :
    match handOver R.space dstva offer k.memory with
    | .done perm m => ∃ k', receiveThenSend s r msg dstva start k = .done (.ok .delivered) k' ∧ k'.memory = m ∧
        Pair k.envs s r S { delivered s msg.value perm (blocking dstva R) with status := .runnable } k'.envs
    | .refused cause m => ∃ k', receiveThenSend s r msg dstva start k = .done (.error cause) k' ∧ k'.memory = m ∧
        Pair k.envs s r S (blocking dstva R) k'.envs
    | .halted q => receiveThenSend s r msg dstva start k = .halted q := by
  obtain ⟨k₁, hk₁⟩ : ∃ k₁ : Kernel, k₁ = { k with envs := k.envs.update r (blocking dstva) } := ⟨_, rfl⟩
  have hpair : Pair k.envs s r S (blocking dstva R) k₁.envs :=
    hk₁ ▸ (Pair.refl hS hR).editReceiver hne title_blocking
  have hm₁ : k₁.memory = k.memory := by rw [hk₁]
  have ht₁ : k₁.envs.Sound := hk₁ ▸ (touched_update title_blocking).sound ht
  have hv₁ : k₁.validateSource s msg = .ok offer := (validateSource_congr hS hpair.sender rfl hm₁).trans hv
  have hhands := sendQueued_hands ht₁ hne hpair.receiver hv₁ rfl
  rw [receiveThenSend, Action.bind_done (Action.attempt_done (receiveQueued_blocks hd hR hw)), ← hk₁]
  rw [hm₁] at hhands
  change sendQueued s r msg k₁ = match handOver R.space dstva offer k.memory with
    | .done perm m => _
    | .refused cause m => _
    | .halted q => _ at hhands
  cases hh : handOver R.space dstva offer k.memory with
  | done perm m =>
    simp only [hh] at hhands
    refine ⟨_, Action.attempt_done hhands, rfl, ?_⟩
    dsimp only
    exact (hpair.editReceiver hne title_delivered).editReceiver hne Env.title_runnable
  | refused cause m =>
    simp only [hh] at hhands
    exact ⟨_, Action.attempt_refused hhands, rfl, hpair⟩
  | halted q =>
    simp only [hh] at hhands
    exact Action.attempt_halted hhands

/-- A refused receive leaves the sender parked, unless its send was refused as well. -/
theorem receive_refused_ends (msg : Message) (start : Nat) (hd : validateDestination dstva = .error cause) :
    ∃ sent k', sendThenReceive s r msg dstva start k = .done sent k' ∧
      receiveThenSend s r msg dstva start k = .done sent k' ∧
      (learned s sent k' = none ↔ ∃ offer, k.validateSource s msg = .ok offer) := by
  have hreceive : ∀ k, receiveQueued r dstva start k = .refused cause k := fun _ => receiveQueued_rejected hd
  rw [← receive_refused_aside hd]
  cases hv : k.validateSource s msg with
  | error cause' =>
    have hsend : sendThenReceive s r msg dstva start k = .done (.error cause') k := by
      rw [sendThenReceive, Action.bind_done (Action.attempt_refused (sendQueued_rejected ht hne hR hv))]
      exact (Action.bind_done (Action.attempt_refused (hreceive k))).trans rfl
    exact ⟨_, k, hsend, hsend, by simp [learned]⟩
  | ok offer =>
    obtain ⟨k₁, hparks, -, -, -, hpair⟩ := sendQueued_parks_alone ht hne hS hR hw hr hv
    have hsend : sendThenReceive s r msg dstva start k = .done (.ok .parked) k₁ := by
      rw [sendThenReceive, Action.bind_done (Action.attempt_done hparks)]
      exact (Action.bind_done (Action.attempt_refused (hreceive k₁))).trans rfl
    have hlearned : learned s (.ok .parked) k₁ = none := learned_of_holds ⟨_, hpair.sender, rfl⟩
    exact ⟨_, k₁, hsend, hsend, by simp [hlearned]⟩

omit hr in
/-- A send that is refused for its offer leaves the receive to itself. -/
theorem send_refused_aside (start : Nat) (hd : validateDestination dstva = .ok ())
    (hv : k.validateSource s msg = .error cause) :
    sendThenReceive s r msg dstva start k =
        .done (.error cause) { k with envs := k.envs.update r (blocking dstva) } ∧
      receiveThenSend s r msg dstva start k =
        .done (.error cause) { k with envs := k.envs.update r (blocking dstva) } := by
  obtain ⟨k₁, hk₁⟩ : ∃ k₁ : Kernel, k₁ = { k with envs := k.envs.update r (blocking dstva) } := ⟨_, rfl⟩
  have hpair : Pair k.envs s r S (blocking dstva R) k₁.envs :=
    hk₁ ▸ (Pair.refl hS hR).editReceiver hne title_blocking
  have ht₁ : k₁.envs.Sound := hk₁ ▸ (touched_update title_blocking).sound ht
  have hv₁ : k₁.validateSource s msg = .error cause :=
    (validateSource_congr hS hpair.sender rfl (by rw [hk₁])).trans hv
  have hblocks : receiveQueued r dstva start k = .done .blocked k₁ := hk₁ ▸ receiveQueued_blocks hd hR hw
  rw [← hk₁]
  constructor
  · rw [sendThenReceive, Action.bind_done (Action.attempt_refused (sendQueued_rejected ht hne hR hv))]
    exact (Action.bind_done (Action.attempt_done hblocks)).trans rfl
  · rw [receiveThenSend, Action.bind_done (Action.attempt_done hblocks)]
    exact Action.attempt_refused (sendQueued_rejected ht₁ hne hpair.receiver hv₁)

end orders

/-- In either order memory ends as the same, and so does what everybody has sent, been sent or waits for. The sender
learns the same, at once or when it is resumed, or waits in both orders because the receive was refused. The receiver
is blocked in both orders or in neither. -/
theorem send_receive_commute (ht : k.envs.Sound)
    (hexact : ∀ id e, k.envs.find? id = some e → e.waiting = (k.envs.parkedOn id).length) (hne : s ≠ r)
    (hS : k.envs.find? s = some S) (ho : S.outbox = none) (hR : k.envs.find? r = some R)
    (hr : R.mailbox.receiving = false) (hu : k.envs.parkedOn r = []) (msg : Message) (dstva : Word)
    (hstart : start < k.envs.capacity) :
    (∃ p, sendThenReceive s r msg dstva start k = .halted p ∧ receiveThenSend s r msg dstva start k = .halted p ∧
      ∀ n, ¬Proper n k.envs k.memory) ∨
    ∃ sent sent' k₁ k₂, sendThenReceive s r msg dstva start k = .done sent k₁ ∧
      receiveThenSend s r msg dstva start k = .done sent' k₂ ∧ SameEnd s r sent sent' k₁ k₂ ∧
      (learned s sent k₁ = none ↔ validateDestination dstva ≠ .ok () ∧ ∃ offer, k.validateSource s msg = .ok offer) ∧
      (R.status ≠ .notRunnable → ((k₁.envs.find? r).map Env.status = some .notRunnable ↔
        (k₂.envs.find? r).map Env.status = some .notRunnable)) := by
  have hw : R.waiting = 0 := by rw [hexact r R hR, hu, List.length_nil]
  have hu' : k.envs.Unawaited r := unawaited_of_parkedOn hu
  cases hd : validateDestination dstva with
  | error cause =>
    obtain ⟨sent, k', hsend, hreceive, hlearned⟩ :=
      receive_refused_ends ht hne hS hR hw hr msg start hd
    exact .inr ⟨sent, sent, k', k', hsend, hreceive, .refl sent k', by simpa using hlearned, fun _ => Iff.rfl⟩
  | ok u =>
    cases hv : k.validateSource s msg with
    | error cause =>
      obtain ⟨hsend, hreceive⟩ := send_refused_aside ht hne hS hR hw start hd hv
      exact .inr ⟨_, _, _, _, hsend, hreceive, .refl _ _, by simp [learned], fun _ => Iff.rfl⟩
    | ok offer =>
      have hsend := sendThenReceive_ends ht hne hS hR hw hr hu' hd hstart hv
      have hreceive := receiveThenSend_ends ht hne hS hR hw start hd hv
      cases hh : handOver R.space dstva offer k.memory with
      | done perm m =>
        simp only [hh] at hsend hreceive
        obtain ⟨k₁, hk₁, hm₁, hpair₁⟩ := hsend
        obtain ⟨k₂, hk₂, hm₂, hpair₂⟩ := hreceive
        obtain ⟨hlearned, hend⟩ :=
          SameEnd.handed (live_of_find? hS) ho (hm₁.trans hm₂.symm) (live_of_find? hR) hpair₁ hpair₂
        refine .inr ⟨_, _, k₁, k₂, hk₁, hk₂, hend, by simp [hlearned], fun hs => ?_⟩
        rw [hpair₁.receiver, hpair₂.receiver]
        simpa [delivered, Env.scanning] using hs
      | refused cause m =>
        simp only [hh] at hsend hreceive
        obtain ⟨k₁, hk₁, hm₁, hpair₁⟩ := hsend
        obtain ⟨k₂, hk₂, hm₂, hpair₂⟩ := hreceive
        obtain ⟨hlearned, hend⟩ := SameEnd.rejected (live_of_find? hS) ho (hm₁.trans hm₂.symm) hpair₁ hpair₂
        refine .inr ⟨_, _, k₁, k₂, hk₁, hk₂, hend, by simp [hlearned], fun _ => ?_⟩
        rw [hpair₁.receiver, hpair₂.receiver]
      | halted q =>
        simp only [hh] at hsend hreceive
        exact .inl ⟨q, hsend, hreceive, fun n hp => handOver_goes_on hp hv hh⟩

def deniedPage : List TableOp :=
  [.edit .denyAlloc, .edit (.allocPage ⟨1⟩ 0x1000 (.present ||| .user)), .allocate .self .user, .allocate .self .user]

/-- The page needs a frame for the page table of its receiver, and there is none. -/
theorem send_receive_commute_denied : ∃ past k sent sent' k₁ k₂, TableHistory threeSlots past k ∧
    sendThenReceive ⟨0x401⟩ ⟨0x400⟩ { value := 5, srcva := 0x1000, perm := .user } 0x2000 2 k = .done sent k₁ ∧
    receiveThenSend ⟨0x401⟩ ⟨0x400⟩ { value := 5, srcva := 0x1000, perm := .user } 0x2000 2 k = .done sent' k₂ ∧
    SameEnd ⟨0x401⟩ ⟨0x400⟩ sent sent' k₁ k₂ ∧ learned ⟨0x401⟩ sent k₁ = some IpcError.outOfMemory.code.toReturn := by
  let msg : Message := { value := 5, srcva := 0x1000, perm := .user }
  let k := (TableOp.replay threeSlots deniedPage).get (by decide +kernel)
  obtain ⟨past, hpast, -⟩ := TableHistory.of_replay (k := k) (Option.some_get _).symm
  obtain ⟨ht, hx⟩ := hpast.counted (counted_ofCapacity 3)
  have hsender : (k.envs.find? ⟨0x401⟩).map Env.outbox = some none := by decide +kernel
  have hreceiver : (k.envs.find? ⟨0x400⟩).map (fun e => e.mailbox.receiving) = some false := by decide +kernel
  obtain ⟨S, hS, ho⟩ := Option.map_eq_some_iff.mp hsender
  obtain ⟨R, hR, hr⟩ := Option.map_eq_some_iff.mp hreceiver
  have hdenied : (sendThenReceive ⟨0x401⟩ ⟨0x400⟩ msg 0x2000 2 k).result?.map (fun r => learned ⟨0x401⟩ r.1 r.2) =
      some (some IpcError.outOfMemory.code.toReturn) := by decide +kernel
  obtain ⟨⟨sent, k₁⟩, hresult, hlearned⟩ := Option.map_eq_some_iff.mp hdenied
  have hsend := Outcome.result?_eq_some hresult
  have hboth := send_receive_commute ht (fun id e => hx.waiting_eq_length) (by decide) hS ho hR hr
    (by decide +kernel) msg 0x2000 (by decide +kernel : 2 < k.envs.capacity)
  rcases hboth with ⟨q, hq, -⟩ | ⟨_, sent', _, k₂, hsent, hreceive, hend, -⟩
  · cases hsend.symm.trans hq
  · cases hsend.symm.trans hsent
    exact ⟨past, k, sent, sent', k₁, k₂, hpast, hsend, hreceive, hend, hlearned⟩

end Kernel

end Exokernel
