import Exokernel.Proofs.Env.Integrity
import Exokernel.Proofs.Syscall.Effect

/-!
# Table operations over any memory

Environments may be created, destroyed and sent messages while somebody edits their address spaces at will, takes
them away or hands them out twice. Whatever memory looks like, an operation that does not panic leaves the table in
one of a few ways. A queued receive is followed from fetch to fetch.
-/

set_option autoImplicit false

namespace Exokernel

open Env (Id Kind Status Message Parcel)
open Env.Table

def TableOp.Fair (k : Kernel) : TableOp → Prop
  | sendQueued caller _ _ => ∃ e, k.envs.find? caller = some e ∧ e.outbox = none
  | _ => True

def TableOp.Takes (op : TableOp) (k k' : Kernel) : Prop := op.Fair k ∧ ∃ new, op.run k = .ok (new, k')

inductive TableHistory (k₀ : Kernel) : List (Kernel × TableOp) → Kernel → Prop
  | start : TableHistory k₀ [] k₀
  | step {past : List (Kernel × TableOp)} {k k' : Kernel} {op : TableOp} :
      TableHistory k₀ past k → op.Takes k k' → TableHistory k₀ ((k, op) :: past) k'

instance (k : Kernel) : (op : TableOp) → Decidable (op.Fair k)
  | .sendQueued caller _ _ =>
    decidable_of_iff ((k.envs.find? caller).any fun e => e.outbox = none) (by simp [TableOp.Fair, Option.any_eq_true])
  | .allocate .. | .free _ | .destroy .. | .setStatus .. | .transfer .. | .trySend .. | .receive .. | .receiveQueued ..
  | .dispatch .. | .edit _ => .isTrue trivial

def TableOp.replay (k₀ : Kernel) : List TableOp → Option Kernel
  | [] => some k₀
  | op :: earlier =>
    match TableOp.replay k₀ earlier with
    | some k => if op.Fair k then (op.run k).toOption.map Prod.snd else none
    | none => none

theorem TableHistory.of_replay {k₀ k : Kernel} {ops : List TableOp} (h : TableOp.replay k₀ ops = some k) :
    ∃ past, TableHistory k₀ past k ∧ past.map Prod.snd = ops := by
  induction ops generalizing k with
  | nil =>
    cases h
    exact ⟨[], .start, rfl⟩
  | cons op earlier ih =>
    rw [TableOp.replay] at h
    cases hr : TableOp.replay k₀ earlier with
    | none =>
      rw [hr] at h
      cases h
    | some k₁ =>
      simp only [hr, Option.ite_none_right_eq_some, Option.map_eq_some_iff] at h
      obtain ⟨hfair, ⟨new, k'⟩, hrun, rfl⟩ := h
      obtain ⟨past, hpast, hops⟩ := ih hr
      have hdone : op.run k₁ = .ok (new, k') := by
        cases hx : op.run k₁ with
        | error p => rw [hx] at hrun; cases hrun
        | ok r => rw [hx] at hrun; cases hrun; rfl
      exact ⟨(k₁, op) :: past, .step hpast ⟨hfair, new, hdone⟩, by rw [List.map_cons, hops]⟩

inductive Kernel.Amid (caller : Id) (dstva : Word) (start : Nat) (k : Kernel) : (done : Nat) → Kernel → Prop
  | opened {e : Env} : k.envs.find? caller = some e → 0 < e.waiting →
      Amid caller dstva start k 0 { k with envs := k.envs.update caller (Env.scanning dstva) }
  | fetched {done : Nat} {k₁ k₂ : Kernel} : Amid caller dstva start k done k₁ → done < k.envs.capacity →
      start + done < addressLimit → Kernel.fetch caller ((start + done) % k₁.envs.capacity) k₁ = .done none k₂ →
      Amid caller dstva start k (done + 1) k₂

namespace Kernel

variable {ε ε' α β : Type} {k k₁ : Kernel} {id caller sender target : Env.Id} {e : Env} {msg : Message} {dstva : Word}
  {start done : Nat}

def Aside (x : Action Kernel ε α) : Prop :=
  ∀ k, (x k).Meets (fun _ k' => k'.envs = k.envs) (fun _ k' => k'.envs = k.envs) fun _ => True

theorem aside_onMemory (x : Action Memory ε α) : Aside (onMemory x) := by
  intro k
  apply Action.meets_onPart
  cases x k.memory with
  | done a m => exact rfl
  | refused e m => exact rfl
  | halted p => trivial

theorem Aside.mapError {x : Action Kernel ε α} (hx : Aside x) (g : ε → ε') : Aside (x.mapError g) := fun k =>
  Action.meets_mapError (hx k)

theorem Aside.bind_pure {x : Action Kernel ε α} (hx : Aside x) (b : β) : Aside (do let _ ← x; return b) := fun k =>
  Action.meets_bind (hx k) fun _ _ h => h

theorem aside_acceptPage (receiver : Env) (offer : Option PageOffer) : Aside (acceptPage receiver offer) := by
  cases offer with
  | none => exact fun _ => rfl
  | some o =>
    intro k
    rw [acceptPage]
    split
    · cases receiver.space with
      | none => exact rfl
      | some space => exact (aside_onMemory _).mapError _ |>.bind_pure _ k
    · exact rfl

/-- A transfer delivers, or leaves every environment as it was. -/
theorem transfer_turnover (sender target : Env.Id) (msg : Message) (k : Kernel) : (transfer sender target msg k).Meets
    (fun _ k' => ∃ receiver perm, k.envs.find? target = some receiver ∧
      k'.envs = k.envs.update target (delivered sender msg.value perm))
    (fun _ k' => k'.envs = k.envs) (fun _ => True) := by
  rw [transfer, Action.state_bind]
  cases k.validateSource sender msg with
  | error cause => exact rfl
  | ok offer =>
    rw [Action.lift_ok_bind]
    cases hf : k.envs.find? target with
    | none =>
      rw [readEnv_mapError_bind_none _ hf]
      exact rfl
    | some receiver =>
      rw [readEnv_mapError_bind _ hf]
      refine Action.meets_bind (aside_acceptPage receiver offer k) fun perm k₁ h₁ => ?_
      refine ⟨receiver, perm, rfl, ?_⟩
      rw [← h₁]
      rfl

theorem surrender_turnover (hf : k.envs.find? id = some e) : ((do
      let e ← readEnv id
      if let some owned := e.space then
        if let .error _ ← (onMemory (Memory.destroy owned)).attempt then record (.spaceGone id)
      record (.freed id e.runs)
      setEnvs fun t => t.vacate id.index : Action Kernel EnvError Unit) k).Meets
    (fun _ k' => k'.envs = k.envs.vacate id.index) (fun _ _ => False) (fun _ => True) := by
  rw [readEnv_bind hf]
  cases e.space with
  | none => exact rfl
  | some owned =>
    refine Action.meets_attempt_bind (aside_onMemory (Memory.destroy owned) k) (fun _ k₂ h₂ => ?_) fun _ k₂ h₂ => ?_
    · exact congrArg (Env.Table.vacate · id.index) h₂
    · exact congrArg (Env.Table.vacate · id.index) h₂

/-- A live environment is released, whether or not its space is still there. -/
theorem free_turnover (hf : k.envs.find? id = some e) : (free id k).Meets
    (fun _ k' => k'.envs = k.envs.released id e) (fun _ _ => False) (fun _ => True) := by
  have h₁ := touched_withdrawn k.envs id e.outbox
  obtain ⟨e₁, hf₁, -⟩ := h₁.find? hf
  have h₂ := h₁.trans (touched_settledFor (k.envs.withdrawn id e.outbox) id)
  obtain ⟨e₂, hf₂, -⟩ := h₂.find? hf
  rw [free, readEnv_bind hf, Action.bind_done (withdraw_apply id e k), readEnv_bind hf₁, released]
  rw [settledFor, hf₁] at hf₂ ⊢
  simp only [Option.map_some, Option.getD_some] at hf₂ ⊢
  by_cases hw : 0 < e₁.waiting
  · rw [if_pos hw] at hf₂
    rw [if_pos hw, if_pos hw,
      Action.bind_done (wakeSenders_apply id { k with envs := k.envs.withdrawn id e.outbox })]
    exact surrender_turnover (k := { k with envs := _, journal := _ }) hf₂
  · rw [if_neg hw] at hf₂
    rw [if_neg hw, if_neg hw]
    exact surrender_turnover (k := { k with envs := _ }) hf₂

/-- The message of the slot that a fetch looks at is transferred or rejected, if it waits for the caller. -/
theorem fetch_turnover (caller : Env.Id) (index : Nat) (ht : k.envs.Sound) : (fetch caller index k).Meets
    (fun r k' => (r = none ∧ k' = k) ∨ ∃ sender e p, k.envs.find? sender = some e ∧ e.outbox = some p ∧
      p.target = caller ∧ match r with
        | none => ∃ cause k₁, transfer sender caller p.toMessage { k with envs := k.envs.relieved caller sender } =
            .refused cause k₁ ∧ k'.envs = (k.envs.relieved caller sender).woken sender cause.code.toWord
        | some s => s = sender ∧ ∃ perm, k'.envs =
            ((k.envs.relieved caller sender).update caller (delivered sender p.value perm)).woken sender 0)
    (fun _ _ => False) (fun _ => True) := by
  rcases takeParked_cases index ht with htake | ⟨sender, e, p, htake, he, hpark, ho⟩
  · rw [fetch, Action.bind_done htake]
    exact .inl ⟨rfl, rfl⟩
  · have hcaller := target_of_parkedOn hpark ho
    rw [fetch, Action.bind_done htake]
    simp only
    rw [updateEnv_bind]
    have htransfer := transfer_turnover sender caller p.toMessage { k with envs := k.envs.relieved caller sender }
    refine Action.meets_attempt_bind (htransfer.and (Outcome.meets_self _)).halting (fun _ k₁ h₁ => ?_)
      fun cause k₁ h₁ => ?_
    · obtain ⟨⟨receiver, perm, -, henvs⟩, -⟩ := h₁
      exact .inr ⟨sender, e, p, he, ho, hcaller, rfl, perm, congrArg (Env.Table.woken · sender 0) henvs⟩
    · obtain ⟨henvs, hx⟩ := h₁
      exact .inr ⟨sender, e, p, he, ho, hcaller, cause, k₁, hx,
        congrArg (Env.Table.woken · sender cause.code.toWord) henvs⟩

theorem fetch_touched {index : Nat} {r : Option Env.Id} (ht : k.envs.Sound) (h : fetch caller index k = .done r k₁) :
    Touched k.envs k₁.envs := by
  rcases (fetch_turnover caller index ht).of_done h with ⟨-, rfl⟩ | ⟨sender, e, p, -, -, -, hr⟩
  · exact .refl _
  · cases r with
    | none =>
      obtain ⟨cause, _, -, he⟩ := hr
      rw [he]
      exact touched_relieved.trans touched_woken
    | some s =>
      obtain ⟨-, perm, he⟩ := hr
      rw [he]
      exact touched_relieved.trans (touched_delivered.trans touched_woken)

theorem touched_scanning {t : Env.Table} : Touched t (t.update caller (Env.scanning dstva)) :=
  touched_update fun _ _ => rfl

theorem Amid.touched (ht : k.envs.Sound) (h : Amid caller dstva start k done k₁) : Touched k.envs k₁.envs := by
  induction h with
  | opened => exact touched_scanning
  | fetched _ _ _ hfetch ih => exact ih.trans (fetch_touched (ih.sound ht) hfetch)

/-- A scan goes from fetch to fetch until one succeeds. -/
theorem fetchFrom_turnover (count : Nat) (hcount : done + count = k.envs.capacity) (ht : k.envs.Sound)
    (h : Amid caller dstva start k done k₁) : (fetchFrom caller start count done k₁).Meets
      (fun r k' => match r with
        | none => Amid caller dstva start k k.envs.capacity k'
        | some s => ∃ done k₂, Amid caller dstva start k done k₂ ∧
            fetch caller ((start + done) % k₂.envs.capacity) k₂ = .done (some s) k')
      (fun _ _ => False) (fun _ => True) := by
  induction count generalizing done k₁ with
  | zero =>
    rw [Nat.add_zero] at hcount
    subst hcount
    exact h
  | succ count ih =>
    rw [fetchFrom]
    split
    · next hstart =>
      rw [Action.state_bind, Action.bind_apply]
      cases hx : fetch caller ((start + done) % k₁.envs.capacity) k₁ with
      | done r k₂ =>
        cases r with
        | some s => exact ⟨done, k₁, h, hx⟩
        | none => exact ih (by omega) (h.fetched (by omega) hstart hx)
      | refused cause k₂ => exact (fetch_turnover caller _ ((h.touched ht).sound ht)).of_refused hx
      | halted p => trivial
    · trivial

/-- A queued receive blocks its caller after failed fetches, or ends with the first fetch that succeeds. -/
theorem receiveQueued_turnover (caller : Env.Id) (dstva : Word) (start : Nat) (ht : k.envs.Sound) :
    (receiveQueued caller dstva start k).Meets
      (fun r k' => match r with
        | .blocked => ∃ e k₁, k.envs.find? caller = some e ∧
            (k₁ = k ∧ e.waiting = 0 ∨ Amid caller dstva start k k.envs.capacity k₁) ∧
            k'.envs = k₁.envs.update caller (blocking dstva)
        | .received s => ∃ done k₁, Amid caller dstva start k done k₁ ∧
            fetch caller ((start + done) % k₁.envs.capacity) k₁ = .done (some s) k')
      (fun _ k' => k' = k) (fun _ => True) := by
  rw [receiveQueued]
  cases validateDestination dstva with
  | error cause => exact rfl
  | ok u =>
    rw [Action.lift_ok_bind]
    cases hf : k.envs.find? caller with
    | none =>
      rw [readEnv_mapError_bind_none _ hf]
      exact rfl
    | some e =>
      rw [readEnv_mapError_bind _ hf]
      have hblock : ∀ k₁, Touched k.envs k₁.envs → ∃ k', (do
            blockInReceive caller dstva
            return ReceiveOutcome.blocked : Action Kernel IpcError ReceiveOutcome) k₁ = .done .blocked k' ∧
            k'.envs = k₁.envs.update caller (blocking dstva) := by
        intro k₁ h₁
        obtain ⟨e₁, hf₁, -⟩ := h₁.find? hf
        rw [Action.bind_done (blockInReceive_apply hf₁)]
        exact ⟨_, rfl, rfl⟩
      by_cases hw : 0 < e.waiting
      · rw [if_pos hw, updateEnv_bind, Action.state_bind, capacity_update]
        have hopen : Amid caller dstva start k 0 { k with envs := k.envs.update caller (Env.scanning dstva) } :=
          .opened hf hw
        refine Action.meets_bind (fetchFrom_turnover _ (Nat.zero_add _) ht hopen).unrefused fun r k₁ h₁ => ?_
        cases r with
        | some s => exact h₁
        | none =>
          obtain ⟨k', hd, he⟩ := hblock k₁ (h₁.touched ht)
          simp only [hd]
          exact ⟨e, k₁, rfl, .inr h₁, he⟩
      · rw [if_neg hw]
        obtain ⟨k', hd, he⟩ := hblock k (.refl _)
        simp only [hd]
        exact ⟨e, k, rfl, .inl ⟨rfl, by omega⟩, he⟩

end Kernel

def Env.post (e : Env) : (Id × Option Handle × Bool × Option Nat) × Env.Mailbox × Nat × Option Parcel :=
  (e.title, e.mailbox, e.waiting, e.outbox)

theorem Env.post_eq {e e' : Env} : e'.post = e.post ↔
    e'.title = e.title ∧ e'.mailbox = e.mailbox ∧ e'.waiting = e.waiting ∧ e'.outbox = e.outbox := by
  simp [Env.post]

structure SamePost (t t' : Env.Table) : Prop where
  head : t'.freeHead = t.freeHead
  live : t'.live = t.live
  posts : ∀ i, (t'.slot? i).map Env.post = (t.slot? i).map Env.post

namespace SamePost

variable {t t' t'' : Env.Table} {id : Id} {e e' : Env} {f : Env → Env}

theorem refl (t : Env.Table) : SamePost t t := ⟨rfl, rfl, fun _ => rfl⟩

theorem of_eq (h : t' = t) : SamePost t t' := by
  rw [h]
  exact refl t

theorem symm (h : SamePost t t') : SamePost t' t := ⟨h.head.symm, h.live.symm, fun i => (h.posts i).symm⟩

theorem trans (h : SamePost t t') (h' : SamePost t' t'') : SamePost t t'' :=
  ⟨h'.head.trans h.head, h'.live.trans h.live, fun i => (h'.posts i).trans (h.posts i)⟩

theorem touched (h : SamePost t t') : Touched t t' := by
  refine ⟨h.head, h.live, fun i => ?_⟩
  have hi := congrArg (Option.map Prod.fst) (h.posts i)
  rwa [Option.map_map, Option.map_map] at hi

theorem find? (h : SamePost t t') (hf : t.find? id = some e) : ∃ e', t'.find? id = some e' ∧ e'.post = e.post :=
  find?_of_slots (fun _ _ he => (Env.post_eq.mp he).1) h.posts hf

theorem update (hf : ∀ e, e.isFree = false → (f e).post = e.post) : SamePost t (t.update id f) := by
  refine ⟨freeHead_update, live_update, fun i => ?_⟩
  cases h : t.find? id with
  | none => rw [update_of_none h]
  | some e =>
    rw [slot?_update h]
    split
    · next hi =>
      rw [hi, slot?_of_find? h]
      exact congrArg some (hf e (live_of_find? h))
    · rfl

theorem status {status : Status} {g : Env → Option Cpu} (hs : status ≠ .free) :
    SamePost t (t.update id fun e => { e with status, cpu := g e }) :=
  update fun _ hf => Env.post_eq.mpr ⟨Env.title_of_live rfl rfl rfl hs hf, rfl, rfl, rfl⟩

theorem runnable : SamePost t (t.update id fun e => { e with status := .runnable }) :=
  update fun e hf => Env.post_eq.mpr ⟨Env.title_runnable e hf, rfl, rfl, rfl⟩

theorem dying : SamePost t (t.update id fun e => { e with status := .dying }) :=
  update fun e hf => Env.post_eq.mpr ⟨Env.title_dying e hf, rfl, rfl, rfl⟩

theorem dispatch (last : Option Id) (c : Cpu) (id : Id) :
    SamePost t ((Kernel.madeRoom t last id).update id (Kernel.promoted c)) := by
  have hpromoted : ∀ t : Env.Table, SamePost t (t.update id (Kernel.promoted c)) := fun t =>
    update fun e hf => Env.post_eq.mpr ⟨Kernel.title_promoted hf, rfl, rfl, rfl⟩
  have hdemoted : ∀ e : Env, (Kernel.demoted e).post = e.post := by
    intro e
    refine Env.post_eq.mpr ⟨Kernel.title_demoted e, ?_⟩
    unfold Kernel.demoted
    split
    · exact ⟨rfl, rfl, rfl⟩
    · exact ⟨rfl, rfl, rfl⟩
  cases last with
  | none => exact hpromoted t
  | some last =>
    by_cases h : last ≠ id
    · simp only [Kernel.madeRoom, if_pos h]
      exact (update fun e _ => hdemoted e).trans (hpromoted _)
    · simp only [Kernel.madeRoom, if_neg h]
      exact hpromoted t

end SamePost

namespace TableOp

def frees? : TableOp → Option Id
  | free id | destroy id _ | setStatus id .free => some id
  | _ => none

def sends? : TableOp → Option (Id × Message)
  | transfer sender _ msg | trySend sender _ msg | sendQueued sender _ msg => some (sender, msg)
  | _ => none

end TableOp

inductive Turnover (k : Kernel) : TableOp → Kernel → Prop
  | aside {op : TableOp} {k' : Kernel} : SamePost k.envs k'.envs → Turnover k op k'
  | allocated {parent : Id} {kind : Kind} {index : Nat} {space : Handle} {k' : Kernel} :
      k.envs.freeHead = some index → k'.envs = (k.envs.occupy index parent kind space).2 →
      Turnover k (.allocate parent kind) k'
  | released {op : TableOp} {id : Id} {e : Env} {k' : Kernel} : op.frees? = some id → k.envs.find? id = some e →
      k'.envs = k.envs.released id e → Turnover k op k'
  | delivered {op : TableOp} {sender target : Id} {msg : Message} {receiver : Env} {perm : PageFlags} {k' : Kernel} :
      op.sends? = some (sender, msg) → k.envs.find? target = some receiver →
      SamePost (k.envs.update target (Kernel.delivered sender msg.value perm)) k'.envs → Turnover k op k'
  | parked {caller target : Id} {msg : Message} {receiver e : Env} {k' : Kernel} :
      Kernel.sendQueued caller target msg k = .done .parked k' →
      k.envs.lookup target (some caller) false = .ok receiver → receiver.id ≠ caller →
      k.envs.find? caller = some e → e.outbox = none →
      k'.envs = ((k.envs.update receiver.id fun e => { e with waiting := e.waiting + 1 }).update caller fun e =>
        { e with outbox := some { msg with target := receiver.id }, status := .notRunnable, cpu := none }) →
      Turnover k (.sendQueued caller target msg) k'
  | blocked {caller : Id} {dstva : Word} {k' : Kernel} : k'.envs = k.envs.update caller (Kernel.blocking dstva) →
      Turnover k (.receive caller dstva) k'
  | starved {caller : Id} {dstva : Word} {start : Nat} {e : Env} {k₁ k' : Kernel} :
      Kernel.receiveQueued caller dstva start k = .done .blocked k' → k.envs.find? caller = some e →
      (k₁ = k ∧ e.waiting = 0 ∨ k.Amid caller dstva start k.envs.capacity k₁) →
      k'.envs = k₁.envs.update caller (Kernel.blocking dstva) → Turnover k (.receiveQueued caller dstva start) k'
  | fetched {caller sender : Id} {dstva : Word} {start done : Nat} {k₁ k' : Kernel} :
      Kernel.receiveQueued caller dstva start k = .done (.received sender) k' → k.Amid caller dstva start done k₁ →
      Kernel.fetch caller ((start + done) % k₁.envs.capacity) k₁ = .done (some sender) k' →
      Turnover k (.receiveQueued caller dstva start) k'

namespace Kernel

variable {k : Kernel} {id caller sender target : Env.Id} {e : Env} {msg : Message} {dstva : Word}

theorem turnover_still {op : TableOp} {k' : Kernel} (h : k'.envs = k.envs) : Turnover k op k' :=
  .aside (.of_eq h)

abbrev Turns {ε α : Type} (x : Action Kernel ε α) (op : TableOp) (k : Kernel) : Prop :=
  (x k).Meets (fun _ => Turnover k op) (fun _ => Turnover k op) fun _ => True

theorem turns_free (op : TableOp) (hop : op.frees? = some id) : Turns (free id) op k := by
  cases hf : k.envs.find? id with
  | none =>
    rw [Turns, free_none hf]
    exact turnover_still rfl
  | some e =>
    exact (free_turnover hf).mono (fun _ _ h => .released hop hf h) (fun _ _ h => h.elim) fun _ h => h

theorem turns_destroy (id : Env.Id) (cpu : Cpu) : Turns (destroy id cpu) (.destroy id cpu) k := by
  cases hf : k.envs.find? id with
  | none =>
    rw [Turns, destroy, readEnv_bind_none hf]
    exact turnover_still rfl
  | some e =>
    by_cases he : Elsewhere cpu e
    · obtain ⟨j, hd⟩ := destroy_elsewhere hf he
      rw [Turns, hd]
      exact .aside .dying
    · rw [Turns, destroy, readEnv_bind hf, if_neg he]
      exact Action.meets_bind (turns_free _ rfl) fun _ _ h => h

theorem turns_setStatus (id : Env.Id) (status : Status) : Turns (setStatus id status) (.setStatus id status) k := by
  by_cases hs : status = .free
  · subst hs
    rw [Turns, setStatus, if_pos rfl]
    exact turns_free _ rfl
  · cases hf : k.envs.find? id with
    | none =>
      rw [Turns, setStatus, if_neg hs, readEnv_bind_none hf]
      exact turnover_still rfl
    | some e =>
      rw [Turns, setStatus_done hf hs]
      exact .aside (.status hs)

theorem turns_allocate (parent : Env.Id) (kind : Kind) : Turns (allocate parent kind) (.allocate parent kind) k := by
  rw [Turns, allocate, Action.state_bind]
  cases hfree : k.envs.freeHead with
  | none => exact turnover_still rfl
  | some index =>
    have hc := (aside_onMemory Memory.create).mapError (fun _ => EnvError.outOfMemory) k
    refine Action.meets_bind (hc.mono (fun _ _ h => h) (fun _ _ h => turnover_still h) fun _ h => h)
      fun space k₁ h₁ => ?_
    refine .allocated hfree (show _ = (k.envs.occupy index parent kind space).2 from ?_)
    rw [← h₁]
    rfl

theorem turns_transfer (sender target : Env.Id) (msg : Message) :
    Turns (transfer sender target msg) (.transfer sender target msg) k := by
  refine (transfer_turnover sender target msg k).mono (fun _ _ h => ?_) (fun _ _ h => turnover_still h) fun _ h => h
  obtain ⟨receiver, perm, hf, he⟩ := h
  exact .delivered rfl hf (SamePost.of_eq he)

theorem turns_deliver {op : TableOp} (hop : op.sends? = some (sender, msg)) :
    Turns (do
      transfer sender target msg
      updateEnv target fun e => { e with status := .runnable } : Action Kernel IpcError Unit) op k := by
  refine Action.meets_bind ((transfer_turnover sender target msg k).mono (fun _ _ h => h)
    (fun _ _ h => turnover_still h) fun _ h => h) fun _ k₁ h₁ => ?_
  obtain ⟨receiver, perm, hf, he⟩ := h₁
  refine .delivered hop hf (show SamePost (k.envs.update target (delivered sender msg.value perm)) _ from ?_)
  rw [← he]
  exact .runnable

theorem turns_trySend (caller target : Env.Id) (msg : Message) :
    Turns (trySend caller target msg) (.trySend caller target msg) k := by
  refine Action.meets_bind ((resolveTarget_effect caller target k).mono (fun _ _ h => h)
    (fun _ _ h => ?_) fun _ h => h.elim) fun t k₁ h₁ => ?_
  · obtain ⟨m, c, rfl, -⟩ := h
    exact turnover_still rfl
  · obtain ⟨rfl, e, hl, rfl⟩ := h₁
    rw [Action.state_bind]
    cases k₁.validateSource caller msg with
    | error cause => exact turnover_still rfl
    | ok offer =>
      rw [Action.lift_ok_bind, readEnv_mapError_bind _ (lookup_found hl)]
      cases e.mailbox.receiving with
      | false => exact turnover_still rfl
      | true => exact turns_deliver rfl

theorem turns_receive (caller : Env.Id) (dstva : Word) : Turns (receive caller dstva) (.receive caller dstva) k := by
  rw [Turns, receive]
  cases validateDestination dstva with
  | error cause => exact turnover_still rfl
  | ok u =>
    rw [Action.lift_ok_bind]
    cases hf : k.envs.find? caller with
    | none =>
      rw [blockInReceive, readEnv_mapError_bind_none _ hf]
      exact turnover_still rfl
    | some e =>
      rw [blockInReceive_apply hf]
      exact .blocked rfl

/-- A queued send delivers, or parks its caller. -/
theorem sendQueued_turnover (target : Env.Id) (msg : Message) (hf : k.envs.find? caller = some e) :
    (sendQueued caller target msg k).Meets
      (fun r k' => match r with
        | .delivered => Turnover k (.sendQueued caller target msg) k'
        | .parked => ∃ receiver, k.envs.lookup target (some caller) false = .ok receiver ∧ receiver.id ≠ caller ∧
            k'.envs = ((k.envs.update receiver.id fun e => { e with waiting := e.waiting + 1 }).update caller fun e =>
              { e with outbox := some { msg with target := receiver.id }, status := .notRunnable, cpu := none }))
      (fun _ => Turnover k (.sendQueued caller target msg)) (fun _ => True) := by
  refine Action.meets_bind ((resolveTarget_effect caller target k).mono (fun _ _ h => h)
    (fun _ _ h => ?_) fun _ h => h.elim) fun t k₁ h₁ => ?_
  · obtain ⟨m, c, rfl, -⟩ := h
    exact turnover_still rfl
  · obtain ⟨rfl, receiver, hl, rfl⟩ := h₁
    by_cases hne : receiver.id = caller
    · simp only [if_pos hne]
      exact turnover_still rfl
    · simp only [if_neg hne]
      rw [Action.state_bind]
      cases k₁.validateSource caller msg with
      | error cause => exact turnover_still rfl
      | ok offer =>
        rw [Action.lift_ok_bind, readEnv_mapError_bind _ (lookup_found hl)]
        cases receiver.mailbox.receiving with
        | true =>
          rw [if_pos rfl, ← bind_assoc]
          exact Action.meets_bind (turns_deliver rfl) fun _ _ h => h
        | false =>
          simp only [Bool.false_eq_true, if_false]
          rw [addWaiting]
          split
          · rw [updateEnv_bind]
            have hf₁ : (k₁.envs.update receiver.id fun e => { e with waiting := e.waiting + 1 }).find? caller =
                some e := (find?_update_of_ne Env.title_owed (Ne.symm hne)).trans hf
            rw [readEnv_mapError_bind (k := { k₁ with envs := k₁.envs.update receiver.id fun e =>
              { e with waiting := e.waiting + 1 } }) _ hf₁]
            exact ⟨receiver, hl, hne, rfl⟩
          · trivial

theorem turns_sendQueued (target : Env.Id) (msg : Message) (hf : k.envs.find? caller = some e) (ho : e.outbox = none) :
    Turns (sendQueued caller target msg) (.sendQueued caller target msg) k := by
  refine ((sendQueued_turnover target msg hf).and (Outcome.meets_self _)).mono (fun r k' h => ?_) (fun _ _ h => h.1)
    fun _ _ => trivial
  obtain ⟨h, hx⟩ := h
  cases r with
  | delivered => exact h
  | parked =>
    obtain ⟨receiver, hl, hne, he⟩ := h
    exact .parked hx hl hne hf ho he

theorem turns_receiveQueued (dstva : Word) (start : Nat) (ht : k.envs.Sound) :
    Turns (receiveQueued caller dstva start) (.receiveQueued caller dstva start) k := by
  refine ((receiveQueued_turnover caller dstva start ht).and (Outcome.meets_self _)).mono (fun r k' h => ?_)
    (fun _ k' h => turnover_still (congrArg _ h.1)) fun _ _ => trivial
  obtain ⟨h, hx⟩ := h
  cases r with
  | blocked =>
    obtain ⟨e, k₁, hf, hk, he⟩ := h
    exact .starved hx hf hk he
  | received s =>
    obtain ⟨done, k₁, hk, hfetch⟩ := h
    exact .fetched hx hk hfetch

end Kernel

namespace TableOp

variable {k k' : Kernel} {op : TableOp} {new : Option Id}

theorem turnover_of_quiet {ε α : Type} {x : Action Kernel ε α} (hx : Kernel.Turns x op k)
    (h : quiet (x k) = .ok (new, k')) : Turnover k op k' := (quiet_eq hx h).2

/-- Whatever memory looks like, an operation has one of these effects on the table. -/
theorem Takes.turnover (h : op.Takes k k') (ht : k.envs.Sound) : Turnover k op k' := by
  obtain ⟨hop, new, h⟩ := h
  cases op with
  | allocate parent kind =>
    have hx := Kernel.turns_allocate (k := k) parent kind
    simp only [run] at h
    cases hr : Kernel.allocate parent kind k with
    | done id k₁ =>
      rw [hr] at h
      cases h
      exact hx.of_done hr
    | refused e k₁ =>
      rw [hr] at h
      cases h
      exact hx.of_refused hr
    | halted p =>
      rw [hr] at h
      cases h
  | free id => exact turnover_of_quiet (Kernel.turns_free _ rfl) h
  | destroy id cpu => exact turnover_of_quiet (Kernel.turns_destroy id cpu) h
  | setStatus id status => exact turnover_of_quiet (Kernel.turns_setStatus id status) h
  | transfer sender target message => exact turnover_of_quiet (Kernel.turns_transfer sender target message) h
  | trySend caller target message => exact turnover_of_quiet (Kernel.turns_trySend caller target message) h
  | receive caller dstva => exact turnover_of_quiet (Kernel.turns_receive caller dstva) h
  | sendQueued caller target message =>
    obtain ⟨e, hf, ho⟩ := hop
    exact turnover_of_quiet (Kernel.turns_sendQueued target message hf ho) h
  | receiveQueued caller dstva start => exact turnover_of_quiet (Kernel.turns_receiveQueued dstva start ht) h
  | dispatch cpu id =>
    simp only [run, Kernel.dispatch_apply] at h
    cases h
    exact .aside (.dispatch _ cpu id)
  | edit op =>
    simp only [run] at h
    cases hr : op.run k.memory with
    | error p =>
      rw [hr] at h
      cases h
    | ok m =>
      rw [hr] at h
      cases h
      exact .aside (.refl _)

end TableOp

end Exokernel
