import Exokernel.Proofs.Syscall.Serving

/-!
# What system calls do

A call that is done has had one of a few effects on environments and memory; a call that is refused has had none.
What holds of all calls is read off this list, case by case.
-/

set_option autoImplicit false

namespace Exokernel

open Env (Id Kind Status Message Parcel)
open Env.Table

namespace Call

def isQuiet : Call → Bool
  | puts .. | getc | self | yield | scan => true
  | _ => false

def message? : Call → Option (Id × Message)
  | trySend target m | sendQueued target m => some (target, m)
  | _ => none

def receives? : Call → Option Word
  | receive dstva | receiveQueued dstva => some dstva
  | _ => none

end Call

def Destroys (t : Env.Table) (caller : Id) (e : Env) : Call → Prop
  | .puts .. => t.find? caller = some e
  | .destroy id => t.lookup id (some caller) true = .ok e
  | .setStatus id status => (status = .free ∨ status = .dying) ∧ t.lookup id (some caller) true = .ok e
  | _ => False

def Env.scanning (dstva : Word) (e : Env) : Env := { e with mailbox := { e.mailbox with receiving := true, dstva } }

inductive Effect (cpu : Cpu) (caller : Id) (t : Env.Table) (m : Memory) : Call → Env.Table → Memory → Prop
  | quiet {call : Call} : call.isQuiet = true → Effect cpu caller t m call t m
  | marked {call : Call} {e : Env} : Destroys t caller e call → Kernel.Elsewhere cpu e →
      Effect cpu caller t m call (t.update e.id fun e => { e with status := .dying }) m
  | freed {call : Call} {e : Env} {h : Handle} {m' : Memory} : Destroys t caller e call →
      ¬Kernel.Elsewhere cpu e → e.space = some h → Memory.destroy h m = .done () m' →
      Effect cpu caller t m call (t.released e.id e) m'
  | forked {parent : Env} {index : Nat} {space : Handle} {m' : Memory} :
      t.find? caller = some parent → t.freeHead = some index → Memory.create m = .done space m' →
      Effect cpu caller t m .fork
        ((t.occupy index caller .user space).2.update (t.occupy index caller .user space).1 fun e =>
          { e with context := parent.context.setAnswer 0, status := .notRunnable }) m'
  | reset {id : Id} {status : Status} {e : Env} : t.lookup id (some caller) true = .ok e →
      ¬(status = .free ∨ status = .dying) → ¬(e.status = .running ∧ e.cpu ≠ some cpu) →
      Effect cpu caller t m (.setStatus id status)
        (t.update e.id fun e => { e with status, cpu := if status = .running then e.cpu else none }) m
  | allocated {id : Id} {va : Word} {perm : PageFlags} {e : Env} {h : Handle} {m' : Memory} :
      t.lookup id (some caller) true = .ok e → e.space = some h →
      Memory.allocPage h va.toNat perm m = .done () m' → Effect cpu caller t m (.allocPage id va perm) t m'
  | mapped {src dst : Id} {srcva dstva : Word} {perm : PageFlags} {s d : Env} {hs hd : Handle} {entry : Mapping}
      {m' : Memory} : t.lookup src (some caller) true = .ok s → t.lookup dst (some caller) true = .ok d →
      s.space = some hs → d.space = some hd → m.mapping? hs srcva.toNat = some entry →
      (perm.contains PageFlags.writable = true → entry.flags.contains PageFlags.writable = true) →
      Memory.insert hd entry.frame dstva.toNat perm m = .done () m' →
      Effect cpu caller t m (.mapPage src srcva dst dstva perm) t m'
  | unmapped {id : Id} {va : Word} {e : Env} {h : Handle} {r : Option Mapping} {m' : Memory} :
      t.lookup id (some caller) true = .ok e → e.space = some h →
      Memory.remove h va.toNat m = .done r m' → Effect cpu caller t m (.unmapPage id va) t m'
  | entered {id : Id} {entry : Word} {e : Env} : t.lookup id (some caller) true = .ok e →
      Effect cpu caller t m (.setUpcall id entry) (t.update e.id fun e => { e with upcall := entry }) m
  | sent {call : Call} {target : Id} {msg : Message} {receiver : Env} {perm : PageFlags} {m' : Memory} :
      call.message? = some (target, msg) → t.lookup target (some caller) false = .ok receiver →
      receiver.mailbox.receiving = true → Kernel.Handed t m caller receiver msg perm m' →
      Effect cpu caller t m call
        ((t.update receiver.id (Kernel.delivered caller msg.value perm)).update receiver.id fun e =>
          { e with status := .runnable }) m'
  | parked {target : Id} {msg : Message} {receiver : Env} : t.lookup target (some caller) false = .ok receiver →
      receiver.id ≠ caller → receiver.mailbox.receiving = false →
      Effect cpu caller t m (.sendQueued target msg)
        ((t.update receiver.id fun e => { e with waiting := e.waiting + 1 }).update caller fun e =>
          { e with outbox := some { msg with target := receiver.id }, status := .notRunnable, cpu := none }) m
  | blocked {call : Call} {dstva : Word} : call.receives? = some dstva →
      Effect cpu caller t m call (t.update caller (Kernel.blocking dstva)) m
  | starved {dstva : Word} {t' : Env.Table} {m' : Memory} :
      Kernel.Fetches caller (t.update caller (Env.scanning dstva)) m t' m' →
      Effect cpu caller t m (.receiveQueued dstva) (t'.update caller (Kernel.blocking dstva)) m'
  | fetched {dstva : Word} {sender : Id} {t' : Env.Table} {m' : Memory} :
      Kernel.Fetched caller (t.update caller (Env.scanning dstva)) m sender t' m' →
      Effect cpu caller t m (.receiveQueued dstva) t' m'

variable {n : Nat} {k k' : Kernel} {t : Env.Table} {m : Memory} {cpu : Cpu} {caller target id : Id} {e : Env}
  {call : Call} {msg : Message}

theorem lookup_unchecked_eq (t : Env.Table) (id caller : Id) :
    t.lookup id (some caller) false = t.get (if id.isSelf then caller else id) := by
  unfold Env.Table.lookup
  cases id.isSelf with
  | true => cases hg : t.get caller <;> simp [hg, bind, Except.bind]
  | false => cases hg : t.get id <;> simp [hg, bind, Except.bind]

theorem lookup_unchecked : t.lookup id (some caller) false = .ok e ↔
    (if id.isSelf then caller else id) = e.id ∧ t.find? e.id = some e := by
  rw [lookup_unchecked_eq]
  generalize (if id.isSelf then caller else id) = j
  constructor
  · intro h
    cases hf : t.find? j with
    | none =>
      rw [get_of_find?_none hf] at h
      cases h
    | some y =>
      rw [get_of_find? hf] at h
      cases h
      exact ⟨(id_of_find? hf).symm, by rw [id_of_find? hf, hf]⟩
  · rintro ⟨rfl, hf⟩
    exact get_of_find? hf

theorem lookup_found {checked : Bool} (h : t.lookup id (some caller) checked = .ok e) : t.find? e.id = some e := by
  cases checked with
  | true => exact (lookup_spec h).1
  | false => exact (lookup_unchecked.mp h).2

/-- Whoever cannot be found, and whoever must not be named, is no environment to the caller. -/
theorem lookup_error {checked : Bool} {cause : EnvError} (h : t.lookup id (some caller) checked = .error cause) :
    cause = .badEnvironment := by
  have hget : ∀ j, t.get j = .error cause → cause = .badEnvironment := fun j hj => by
    unfold Env.Table.get at hj
    split at hj
    · cases hj
    · exact (Except.error.inj hj).symm
  cases checked with
  | false => exact hget _ (lookup_unchecked_eq t id caller ▸ h)
  | true =>
    rw [lookup_eq] at h
    cases hg : t.get (if id.isSelf then caller else id) with
    | error cause' =>
      rw [hg] at h
      cases h
      exact hget _ hg
    | ok y =>
      rw [hg] at h
      simp only [Except.bind] at h
      split at h
      · cases h
      · exact (Except.error.inj h).symm

theorem resolve_cases (t : Env.Table) (id caller : Id) (checked : Bool) :
    (∃ e, t.lookup id (some caller) checked = .ok e ∧ t.resolve id (some caller) checked = .ok e.id) ∨
      (¬∃ e, t.lookup id (some caller) checked = .ok e) ∧
        t.resolve id (some caller) checked = .error .badEnvironment := by
  rw [Env.Table.resolve]
  cases hl : t.lookup id (some caller) checked with
  | ok e => exact .inl ⟨e, rfl, rfl⟩
  | error cause =>
    obtain rfl := lookup_error hl
    refine .inr ⟨?_, rfl⟩
    rintro ⟨_, h⟩
    cases h

theorem Destroys.spec (h : Destroys t caller e call) :
    t.find? e.id = some e ∧ (e.id = caller ∨ e.parent = caller) := by
  cases call with
  | puts va count =>
    have hid := id_of_find? h
    exact ⟨hid ▸ h, .inl hid⟩
  | destroy id => exact lookup_spec h
  | setStatus id status => exact lookup_spec h.2
  | _ => exact h.elim

def Overcounts (t : Env.Table) (caller : Id) (p : Panic) : Call → Prop
  | .sendQueued target _ => p = .addOverflow ∧
      ∃ receiver, t.lookup target (some caller) false = .ok receiver ∧ countLimit ≤ receiver.waiting + 1
  | _ => False

theorem Overcounts.addOverflow {p : Panic} (h : Overcounts t caller p call) : p = .addOverflow := by
  cases call with
  | sendQueued => exact h.1
  | _ => exact h.elim

abbrev Performed (cpu : Cpu) (caller : Id) (k : Kernel) (call : Call) (k' : Kernel) : Prop :=
  Effect cpu caller k.envs k.memory call k'.envs k'.memory

namespace Kernel

theorem onMemory_mapError_effect {α ε ε' : Type} {x : Action Memory ε α} {g : ε → ε'}
    (hx : (x k.memory).Meets (fun _ _ => True) (fun _ m => k.memory.Spent m) fun _ => False) :
    ((onMemory x).mapError g k).Meets (fun a k' => ∃ m, x k.memory = .done a m ∧ k' = { k with memory := m })
      (fun _ k' => Untouched k k') (fun _ => False) := by
  apply Action.meets_mapError
  apply Action.meets_onPart
  cases hm : x k.memory with
  | done a m => exact ⟨m, rfl, rfl⟩
  | refused cause m => exact untouched_of_spent (hx.of_refused hm)
  | halted p => exact hx.of_halted hm

theorem authorize_effect (caller id : Env.Id) (k : Kernel) :
    (authorize caller id k).Meets
      (fun target k' => k' = k ∧ ∃ e, k.envs.lookup id (some caller) true = .ok e ∧ target = e.id)
      (fun _ k' => Untouched k k') (fun _ => False) := by
  rcases authorize_cases caller id k with ⟨e, hl, hd⟩ | ⟨cause, hd⟩
  · rw [hd]
    exact ⟨rfl, e, hl, rfl⟩
  · rw [hd]
    exact .refl k

theorem spaceOf_of_find? {h : Handle} (hf : k.envs.find? id = some e) (hs : e.space = some h) :
    k.spaceOf id = .ok h := by
  rw [spaceOf, get_of_find? hf]
  simp only [bind, Except.bind, hs]

theorem spaceFor_done {h : Handle} (hf : k.envs.find? id = some e) (hs : e.space = some h) :
    spaceFor id k = .done h k := by
  rw [spaceFor, Action.state_bind, spaceOf_of_find? hf hs]
  rfl

theorem spaceFor_effect (hf : k.envs.find? id = some e) :
    (spaceFor id k).Meets (fun h k' => k' = k ∧ e.space = some h) (fun _ k' => Untouched k k') (fun _ => False) := by
  rw [spaceFor, Action.state_bind, spaceOf, get_of_find? hf]
  cases hs : e.space with
  | none =>
    simp only [bind, Except.bind, hs, Except.mapError]
    exact .refl k
  | some h =>
    simp only [bind, Except.bind, hs, Except.mapError]
    exact ⟨rfl, rfl⟩

/-- Resolving an id to a space that the caller may edit. -/
theorem destroyFor_effect (cpu : Cpu) (j : Journal) (hp : Proper n k.envs k.memory)
    (hd : Destroys k.envs caller e call) :
    (destroyFor cpu caller e.id { k with journal := j }).Meets (fun _ => Performed cpu caller k call)
      (fun _ k' => Untouched k k') (fun _ => False) := by
  obtain ⟨hf, -⟩ := hd.spec
  rw [destroyFor, record_bind]
  generalize Journal.record _ _ = j
  by_cases he : Elsewhere cpu e
  · obtain ⟨j', hx⟩ := destroy_elsewhere (k := { k with journal := j }) hf he
    rw [Action.mapError_bind_done hx]
    exact .marked hd he
  · obtain ⟨m, j', hx, h, hs, hm⟩ := destroy_here (k := { k with journal := j }) hp.intact hf he
    rw [Action.mapError_bind_done hx]
    exact .freed hd he hs hm

theorem puts_effect {va count : Word} (hp : Proper n k.envs k.memory) (hc : k.envs.find? caller = some e) :
    (puts cpu caller va.toNat count.toNat k).Meets (fun _ => Performed cpu caller k (.puts va count))
      (fun _ => Untouched k) (fun _ => False) := by
  rw [puts]
  refine Action.meets_bind (spaceFor_effect hc) fun space k₁ ⟨h₁, _⟩ => ?_
  subst h₁
  refine Action.meets_attempt_bind (checkUser_effect space va.toNat count.toNat hp.intact.memory) (fun _ k₂ h₂ => ?_)
    fun fault k₂ h₂ => ?_
  · obtain ⟨rfl, hr⟩ := h₂
    obtain ⟨console, hd⟩ := copyOut_apply (ε := CallError) space 0 hp.intact.memory hr
    simp only
    rw [Action.bind_done hd]
    exact .quiet rfl
  · subst h₂
    simp only
    rw [record_bind]
    generalize k₂.journal.record _ = j
    have hd : Destroys k₂.envs caller e (.puts va count) := hc
    have hx := destroyFor_effect cpu j hp hd
    rw [id_of_find? hc] at hx
    exact hx

theorem forkEnv_effect (hp : Proper n k.envs k.memory) (hc : k.envs.find? caller = some e) :
    (forkEnv caller k).Meets (fun _ => Performed cpu caller k .fork) (fun _ => Untouched k) (fun _ => False) := by
  rw [forkEnv, readEnv_mapError_bind _ hc]
  refine Action.meets_bind (Action.meets_mapError ((allocate_effect hp).mono (fun _ _ h => h) (fun _ k' h => ?_)
    fun _ h => h)) fun child k₁ h₁ => ?_
  · obtain ⟨m, rfl, hm⟩ := h
    exact untouched_of_spent hm
  · obtain ⟨index, space, m, j, hfree, hm, rfl, rfl⟩ := h₁
    rw [updateEnv_bind, record_bind]
    exact .forked hc hfree hm

theorem changeStatus_effect {status : Status} (hp : Proper n k.envs k.memory) :
    (changeStatus cpu caller id status k).Meets (fun _ => Performed cpu caller k (.setStatus id status))
      (fun _ => Untouched k) (fun _ => False) := by
  rw [changeStatus]
  refine Action.meets_bind (authorize_effect caller id k) fun target k₁ h₁ => ?_
  obtain ⟨rfl, e, hl, rfl⟩ := h₁
  have hf := lookup_found hl
  by_cases hfree : status = .free ∨ status = .dying
  · simp only [if_pos hfree]
    exact destroyFor_effect cpu k₁.journal hp ⟨hfree, hl⟩
  · simp only [if_neg hfree]
    rw [readEnv_mapError_bind _ hf]
    by_cases hr : e.status = .running ∧ e.cpu ≠ some cpu
    · simp only [if_pos hr]
      exact .refl k₁
    · simp only [if_neg hr]
      rw [Action.mapError_bind_done (setStatus_done hf fun h => hfree (.inl h))]
      exact .reset hl hfree hr

theorem allocPage_effect {va : Word} {perm : PageFlags} (hp : Proper n k.envs k.memory) :
    (allocPage caller id va.toNat perm k).Meets (fun _ => Performed cpu caller k (.allocPage id va perm))
      (fun _ => Untouched k) (fun _ => False) := by
  refine Action.meets_bind (authorize_effect caller id k) fun target k₁ h₁ => ?_
  obtain ⟨rfl, e, hl, rfl⟩ := h₁
  refine Action.meets_bind (spaceFor_effect (lookup_found hl)) fun space k₁ ⟨h₁, hs⟩ => ?_
  subst h₁
  have hx := Memory.allocPage_effect space va.toNat perm hp.intact.memory hp.clear
  refine Action.meets_bind (onMemory_mapError_effect ((hx.and (Memory.balanced_allocPage hp.intact.memory)).mono
    (fun _ _ _ => trivial) (fun _ _ h => h.1) fun _ h => hp.intact.not_crowded h.2)) fun _ k₂ h₂ => ?_
  obtain ⟨m, hm, rfl⟩ := h₂
  exact .allocated hl hs hm

theorem mapPage_effect {src dst : Env.Id} {srcva dstva : Word} {perm : PageFlags} (hp : Proper n k.envs k.memory) :
    (mapPage caller src srcva.toNat dst dstva.toNat perm k).Meets
      (fun _ => Performed cpu caller k (.mapPage src srcva dst dstva perm)) (fun _ => Untouched k)
      (fun _ => False) := by
  refine Action.meets_bind (authorize_effect caller src k) fun _ k₁ h₁ => ?_
  obtain ⟨rfl, s, hls, rfl⟩ := h₁
  refine Action.meets_bind (authorize_effect caller dst k₁) fun _ k₁ h₁ => ?_
  obtain ⟨rfl, d, hld, rfl⟩ := h₁
  refine Action.meets_bind (spaceFor_effect (lookup_found hls)) fun srcSpace k₁ ⟨h₁, hs⟩ => ?_
  subst h₁
  refine Action.meets_bind (spaceFor_effect (lookup_found hld)) fun dstSpace k₁ ⟨h₁, hd⟩ => ?_
  subst h₁
  rw [Action.state_bind]
  cases hlook : k₁.memory.lookup srcSpace srcva.toNat with
  | error cause => exact .refl k₁
  | ok found =>
    cases found with
    | none => exact .refl k₁
    | some entry =>
      simp only [Except.mapError, Action.ofExcept_ok_bind]
      split
      · exact .refl k₁
      · split
        · exact .refl k₁
        · next hw =>
          have hx := Memory.insert_effect dstSpace entry.frame dstva.toNat perm hp.intact.memory.pool hp.clear
          have hu := Memory.Settled.used_of_mapping? hp.intact.memory (Memory.mapping?_of_lookup hlook)
          refine Action.meets_bind (onMemory_mapError_effect ((hx.and (Memory.balanced_insert hp.intact.memory hu)).mono
            (fun _ _ _ => trivial) (fun _ _ h => h.1) fun _ h => hp.intact.not_crowded h.2)) fun _ k₂ h₂ => ?_
          obtain ⟨m, hm, rfl⟩ := h₂
          refine .mapped hls hld hs hd (Memory.mapping?_of_lookup hlook) (fun hperm => ?_) hm
          simpa [hperm] using hw

theorem unmapPage_effect {va : Word} (hp : Proper n k.envs k.memory) :
    (unmapPage caller id va k).Meets (fun _ => Performed cpu caller k (.unmapPage id va)) (fun _ => Untouched k)
      (fun _ => False) := by
  rw [unmapPage]
  refine Action.meets_bind (authorize_effect caller id k) fun target k₁ h₁ => ?_
  obtain ⟨rfl, e, hl, rfl⟩ := h₁
  unfold Call.pageArgument
  split
  · rw [Action.lift_ok_bind]
    refine Action.meets_bind (spaceFor_effect (lookup_found hl)) fun space k₁ ⟨h₁, hs⟩ => ?_
    subst h₁
    have hx := Memory.remove_effect space va.toNat hp.intact.memory hp.clear
    refine Action.meets_bind (onMemory_mapError_effect (hx.mono (fun _ _ _ => trivial) (fun _ _ h => ?_)
      fun _ h => h.elim)) fun r k₂ h₂ => ?_
    · rw [h]
      exact .refl _
    · obtain ⟨m, hm, rfl⟩ := h₂
      exact .unmapped hl hs hm
  · rw [Action.lift_error_bind]
    exact .refl k₁

theorem setUpcall_effect {entry : Word} :
    (setUpcall caller id entry k).Meets (fun _ => Performed cpu caller k (.setUpcall id entry))
      (fun _ => Untouched k) (fun _ => False) := by
  refine Action.meets_bind (authorize_effect caller id k) fun target k₁ h₁ => ?_
  obtain ⟨rfl, e, hl, rfl⟩ := h₁
  rw [updateEnv_bind]
  exact .entered hl

theorem scan_effect (hc : k.envs.find? caller = some e) :
    (scan caller k).Meets (fun _ => Performed cpu caller k .scan) (fun _ => Untouched k) (fun _ => False) := by
  refine Action.meets_bind (spaceFor_effect hc) fun space k₁ ⟨h₁, _⟩ => ?_
  subst h₁
  rw [Action.state_bind]
  cases k₁.memory.mappings space with
  | error cause => exact .refl k₁
  | ok found =>
    simp only [Except.mapError, Action.ofExcept_ok_bind]
    rw [Action.bind_done (forM_record found (fun x => Event.mapped caller x.1 x.2) k₁)]
    exact .quiet rfl

theorem resolveTarget_effect (caller target : Env.Id) (k : Kernel) :
    (resolveTarget caller target k).Meets
      (fun id k' => k' = k ∧ ∃ e, k.envs.lookup target (some caller) false = .ok e ∧ id = e.id)
      (fun _ => Untouched k) (fun _ => False) := by
  rw [resolveTarget, Action.state_bind, Env.Table.resolve]
  cases hl : k.envs.lookup target (some caller) false with
  | ok e => exact ⟨rfl, e, rfl, rfl⟩
  | error cause => exact .refl k

theorem transfer_performed (cpu : Cpu) (call : Call) {receiver : Env} (hp : Proper n k.envs k.memory)
    (hcall : call.message? = some (target, msg)) (hl : k.envs.lookup target (some caller) false = .ok receiver)
    (hr : receiver.mailbox.receiving = true) :
    (transfer caller receiver.id msg k).Meets
      (fun _ k' => Performed cpu caller k call
        { k' with envs := k'.envs.update receiver.id fun e => { e with status := .runnable } })
      (fun _ => Untouched k) (fun _ => False) := by
  refine (transfer_effect caller receiver.id msg hp).mono (fun _ k' h => ?_) (fun _ k' h => ?_) fun _ h => h
  · obtain ⟨y, perm, m, j, hy, hm, rfl⟩ := h
    obtain rfl := find?_unique (lookup_found hl) hy
    exact .sent hcall hl hr hm
  · obtain ⟨m, rfl, hm⟩ := h
    exact untouched_of_spent hm

theorem trySend_effect (hp : Proper n k.envs k.memory) :
    (trySend caller target msg k).Meets (fun _ => Performed cpu caller k (.trySend target msg))
      (fun _ => Untouched k) (fun _ => False) := by
  refine Action.meets_bind (resolveTarget_effect caller target k) fun _ k₁ h₁ => ?_
  obtain ⟨rfl, receiver, hl, rfl⟩ := h₁
  rw [Action.state_bind]
  cases k₁.validateSource caller msg with
  | error cause => exact .refl k₁
  | ok offer =>
    rw [Action.lift_ok_bind, readEnv_mapError_bind _ (lookup_found hl)]
    cases hr : receiver.mailbox.receiving with
    | false => exact .refl k₁
    | true => exact Action.meets_bind (transfer_performed cpu (.trySend target msg) hp rfl hl hr) fun _ _ h => h

theorem receive_effect {dstva : Word} (hc : k.envs.find? caller = some e) :
    (receive caller dstva k).Meets (fun _ => Performed cpu caller k (.receive dstva)) (fun _ => Untouched k)
      (fun _ => False) := by
  rw [receive]
  cases validateDestination dstva with
  | error cause => exact .refl k
  | ok u =>
    rw [Action.lift_ok_bind, blockInReceive_apply hc]
    exact .blocked rfl

theorem sendQueued_effect (hp : Proper n k.envs k.memory) (hc : k.envs.find? caller = some e) :
    (sendQueued caller target msg k).Meets (fun _ => Performed cpu caller k (.sendQueued target msg))
      (fun _ => Untouched k) (fun p => Overcounts k.envs caller p (.sendQueued target msg)) := by
  refine Action.meets_bind ((resolveTarget_effect caller target k).mono (fun _ _ h => h) (fun _ _ h => h)
    fun _ h => h.elim) fun _ k₁ h₁ => ?_
  obtain ⟨rfl, receiver, hl, rfl⟩ := h₁
  by_cases hne : receiver.id = caller
  · simp only [if_pos hne]
    exact .refl k₁
  · simp only [if_neg hne]
    rw [Action.state_bind]
    cases k₁.validateSource caller msg with
    | error cause => exact .refl k₁
    | ok offer =>
      rw [Action.lift_ok_bind, readEnv_mapError_bind _ (lookup_found hl)]
      cases hr : receiver.mailbox.receiving with
      | true =>
        simp only [if_true]
        refine Action.meets_bind ((transfer_performed cpu (.sendQueued target msg) hp rfl hl hr).mono
          (fun _ _ h => h) (fun _ _ h => h) fun _ h => h.elim) fun _ k₂ h₂ => ?_
        rw [updateEnv_bind]
        exact h₂
      | false =>
        simp only [Bool.false_eq_true, if_false]
        rw [addWaiting]
        split
        · rw [updateEnv_bind]
          have hc₁ : (k₁.envs.update receiver.id fun e => { e with waiting := e.waiting + 1 }).find? caller =
              some e := by
            rw [find?_update, if_neg (Ne.symm hne), hc]
            exact fun _ _ => rfl
          rw [readEnv_mapError_bind (k := { k₁ with envs := k₁.envs.update receiver.id fun e =>
            { e with waiting := e.waiting + 1 } }) _ hc₁]
          exact .parked hl hne hr
        · next hfull => exact ⟨rfl, receiver, hl, Nat.not_lt.mp hfull⟩

theorem receiveQueued_effect (cpu : Cpu) (dstva : Word) {start : Nat} (hstart : start ≤ Env.slotLimit)
    (hp : Proper n k.envs k.memory) (hc : k.envs.find? caller = some e) :
    (receiveQueued caller dstva start k).Meets (fun _ => Performed cpu caller k (.receiveQueued dstva))
      (fun _ k' => k' = k) (fun _ => False) := by
  rw [receiveQueued]
  cases validateDestination dstva with
  | error cause => exact rfl
  | ok u =>
    rw [Action.lift_ok_bind, readEnv_mapError_bind _ hc]
    by_cases hw : 0 < e.waiting
    · rw [if_pos hw, updateEnv_bind, Action.state_bind]
      have htouch : Touched k.envs (k.envs.update caller (Env.scanning dstva)) := touched_update fun _ _ => rfl
      have hp₁ : Proper n { k with envs := k.envs.update caller (Env.scanning dstva) }.envs k.memory :=
        hp.touched htouch
      have hcap := hp₁.intact.table.capacity
      have hroom : start + 0 + (k.envs.update caller (Env.scanning dstva)).capacity ≤ addressLimit := by
        simp only [Env.slotLimit, addressLimit] at *
        omega
      refine Action.meets_bind (fetchFrom_effect caller start _ 0 hroom hp₁
        ⟨_, _, ⟨k.journal, rfl⟩, .none⟩).unrefused fun r k₂ h₂ => ?_
      obtain ⟨t, m, ⟨j, rfl⟩, hr⟩ := h₂
      cases r with
      | some sender => exact .fetched hr
      | none =>
        obtain ⟨y, hy, -⟩ := (htouch.trans hr.touched).find? hc
        simp only
        rw [Action.bind_done (blockInReceive_apply (k := { k with envs := t, memory := m, journal := j }) hy)]
        exact .starved hr
    · rw [if_neg hw]
      simp only
      rw [Action.bind_done (blockInReceive_apply hc)]
      exact .blocked rfl

theorem receiveFor_effect {dstva : Word} (hp : Proper n k.envs k.memory) (hc : k.envs.find? caller = some e) :
    (receiveFor caller dstva k).Meets (fun _ => Performed cpu caller k (.receiveQueued dstva))
      (fun _ => Untouched k) (fun _ => False) := by
  rw [receiveFor, Action.state_bind]
  have hread : (readCycles : Action Kernel CallError Word) k =
      .done k.cycles.read.1 { k with cycles := k.cycles.read.2 } := rfl
  rw [Action.bind_done hread]
  have hstart : k.cycles.read.1.toNat % max k.envs.capacity 1 ≤ Env.slotLimit := by
    have hcap := hp.intact.table.capacity
    have hmod := Nat.mod_lt k.cycles.read.1.toNat (show 0 < max k.envs.capacity 1 by omega)
    simp only [Env.slotLimit] at *
    omega
  have hx := receiveQueued_effect cpu dstva (k := { k with cycles := k.cycles.read.2 }) hstart hp hc
  refine Action.meets_bind (Action.meets_mapError (hx.mono (fun _ _ h => h) (fun _ k' h => ?_) fun _ h => h))
    fun r k' h => ?_
  · subst h
    exact ⟨k.memory, _, rfl, .refl _, .inr rfl⟩
  · cases r with
    | received sender => exact h
    | blocked => exact h

/-- A call that is done has one of the effects, and a call that is refused has none. -/
theorem perform_effect (hp : Proper n k.envs k.memory) (hc : k.envs.find? caller = some e) :
    (perform cpu caller call k).Meets (fun _ => Performed cpu caller k call) (fun _ => Untouched k)
      (fun p => Overcounts k.envs caller p call) := by
  cases call with
  | puts va count => exact puts_effect hp hc
  | getc => exact .quiet rfl
  | self => exact .quiet rfl
  | destroy id =>
    refine Action.meets_bind (authorize_effect caller id k) fun _ k₁ h₁ => ?_
    obtain ⟨rfl, e, hl, rfl⟩ := h₁
    exact destroyFor_effect cpu k₁.journal hp hl
  | yield => exact .quiet rfl
  | fork => exact forkEnv_effect hp hc
  | setStatus id status => exact changeStatus_effect hp
  | allocPage id va perm => exact allocPage_effect hp
  | mapPage src srcva dst dstva perm => exact mapPage_effect hp
  | unmapPage id va => exact unmapPage_effect hp
  | setUpcall id entry => exact setUpcall_effect
  | scan => exact scan_effect hc
  | trySend target msg =>
    exact Action.meets_bind (Action.meets_mapError (trySend_effect hp)) fun _ _ h => h
  | receive dstva => exact Action.meets_bind (Action.meets_mapError (receive_effect hc)) fun _ _ h => h
  | sendQueued target msg =>
    exact Action.meets_bind (Action.meets_mapError (sendQueued_effect hp hc)) fun _ _ h => h
  | receiveQueued dstva => exact receiveFor_effect hp hc

theorem callSystem_effect (table : CallTable) (number : Word) (a : Arguments) (hp : Proper n k.envs k.memory)
    (hc : k.envs.find? caller = some e) :
    (callSystem table cpu caller number a k).Meets
      (fun _ k' => ∃ call, table.decode number a = .ok call ∧ Performed cpu caller k call k') (fun _ => Untouched k)
      (fun p => ∃ call, table.decode number a = .ok call ∧ Overcounts k.envs caller p call) := by
  rw [callSystem]
  cases hd : table.decode number a with
  | error cause => exact .refl k
  | ok call =>
    exact (perform_effect hp hc).mono (fun _ _ h => ⟨call, rfl, h⟩) (fun _ _ h => h) fun _ h => ⟨call, rfl, h⟩

end Kernel

section proper

variable {t' : Env.Table} {m' : Memory}

theorem touched_status {status : Status} {g : Env → Option Cpu} (hs : status ≠ .free) :
    Touched t (t.update id fun e => { e with status, cpu := g e }) :=
  touched_update fun _ he => Env.title_of_live rfl rfl rfl hs he

theorem touched_context {g : Env → Context} : Touched t (t.update id fun e => { e with context := g e }) :=
  touched_update fun _ _ => rfl

theorem touched_scanning {dstva : Word} : Touched t (t.update caller (Env.scanning dstva)) :=
  touched_update fun _ _ => rfl

theorem find?_scanning {dstva : Word} {j : Id} (hj : j ≠ caller) :
    (t.update caller (Env.scanning dstva)).find? j = t.find? j :=
  find?_update_of_ne (f := Env.scanning dstva) (fun _ _ => rfl) hj

/-- Who lives after a call: those who lived before it, but for one that it frees, and but for a child that it forks. -/
theorem Effect.population (h : Effect cpu caller t m call t' m') : Touched t t' ∨
    (∃ e, t.find? e.id = some e ∧ t' = t.released e.id e) ∨
    ∃ index space, ∃ parent : Env, ∃ m₁, t.freeHead = some index ∧ Memory.create m = .done space m₁ ∧
      t' = (t.occupy index caller .user space).2.update (t.occupy index caller .user space).1 fun e =>
        { e with context := parent.context.setAnswer 0, status := .notRunnable } := by
  cases h with
  | quiet => exact .inl (.refl t)
  | marked => exact .inl (touched_update Env.title_dying)
  | freed hd => exact .inr (.inl ⟨_, hd.spec.1, rfl⟩)
  | forked _ hfree hm => exact .inr (.inr ⟨_, _, _, _, hfree, hm, rfl⟩)
  | reset _ hs _ => exact .inl (touched_status fun h => hs (.inl h))
  | allocated => exact .inl (.refl t)
  | mapped => exact .inl (.refl t)
  | unmapped => exact .inl (.refl t)
  | entered => exact .inl (touched_update fun _ _ => rfl)
  | sent => exact .inl (Kernel.touched_delivered.trans (touched_update Env.title_runnable))
  | parked => exact .inl (Touched.trans (touched_update Env.title_owed) (touched_update Env.title_parked))
  | blocked => exact .inl (touched_update Kernel.title_blocking)
  | starved hf => exact .inl (touched_scanning.trans (hf.touched.trans (touched_update Kernel.title_blocking)))
  | fetched hf => exact .inl (touched_scanning.trans hf.touched)

/-- Whatever a call does, environments and spaces still fit together. -/
theorem Effect.proper (hp : Proper n t m) (h : Effect cpu caller t m call t' m') : Proper n t' m' := by
  cases h with
  | quiet => exact hp
  | marked => exact hp.touched (touched_update Env.title_dying)
  | freed hd _ hs hm => exact hp.released hd.spec.1 hs hm
  | forked _ hfree hm => exact (hp.occupied hfree hm).touched (touched_update Env.title_suspended)
  | reset _ hs _ => exact hp.touched (touched_status fun h => hs (.inl h))
  | allocated _ _ hm => exact hp.allocated hm
  | mapped _ _ _ _ he _ hm => exact hp.inserted (Memory.Settled.used_of_mapping? hp.intact.memory he) hm
  | unmapped _ _ hm => exact hp.removed hm
  | entered => exact hp.touched (touched_update fun _ _ => rfl)
  | sent _ _ _ hh => exact (hh.proper hp).touched (Kernel.touched_delivered.trans (touched_update Env.title_runnable))
  | parked => exact hp.touched (Touched.trans (touched_update Env.title_owed) (touched_update Env.title_parked))
  | blocked => exact hp.touched (touched_update Kernel.title_blocking)
  | starved hf => exact (hf.proper (hp.touched touched_scanning)).touched (touched_update Kernel.title_blocking)
  | fetched hf => exact hf.proper (hp.touched touched_scanning)

end proper

end Exokernel
