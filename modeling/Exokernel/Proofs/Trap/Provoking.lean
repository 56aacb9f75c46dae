import Exokernel.Proofs.Trap.Passing

/-!
# Calls of roused programs

A roused program that receives while it runs may send to itself. The delivery makes it runnable in the middle of its
own call, and the way out of the kernel finds nobody to resume. One that was roused while it was parked calls
receive first; it is then receiving with a message of its own still parked.
-/

set_option autoImplicit false

namespace Exokernel

open Env (Id Kind Status Message)
open Env.Table

def Context.making (call : Call) : Context := Context.setCall {} call.number call.arguments

def Call.sendSelf : Call := .trySend .self { value := 0, srcva := UInt64.ofNat utop, perm := .empty }

def Call.receiveAny : Call := .receive (UInt64.ofNat utop)

variable {ε : Type} {n : Nat} {b : Seats} {c : Cpu} {caller id j : Id} {k : Kernel} {e y : Env} {t : Env.Table}
  {x : Option Id} {dstva : Word}

theorem call?_sendSelf : (Context.making .sendSelf).call? = some .sendSelf := by decide

theorem call?_receiveAny : (Context.making .receiveAny).call? = some .receiveAny := by decide

theorem call?_rouse (h : id.generation < Env.generationLimit) :
    (Context.making (.setStatus id .runnable)).call? = some (.setStatus id .runnable) := by
  have hid : Call.envArgument id.toWord = .ok id := by rw [Call.envArgument, Env.Id.ofWord?_toWord h]
  have hdec : CallTable.standard.decode (Context.making (.setStatus id .runnable)).callNumber
      (Context.making (.setStatus id .runnable)).callArguments = .ok (.setStatus id .runnable) := by
    show (do return Call.setStatus (← Call.envArgument id.toWord) (← Call.statusArgument Status.runnable.toWord) :
      Except CallError Call) = _
    rw [hid]
    rfl
  have hnumber : (Context.making (.setStatus id .runnable)).number = Trap.systemCall := rfl
  rw [Context.call?, if_pos hnumber, hdec]
  rfl

namespace Kernel

/-- Somebody who receives while it runs can deliver to itself, and is runnable then. -/
theorem trySend_self (msg : Message) (hf : k.envs.find? caller = some e) (hr : e.mailbox.receiving = true)
    (hm : utop ≤ msg.srcva.toNat) :
    ∃ k₁ e', trySend caller .self msg k = .done () k₁ ∧ k₁.envs.find? caller = some e' ∧ e'.status = .runnable := by
  have hresolve : resolveTarget caller .self k = .done caller k := by
    have hl : k.envs.lookup .self (some caller) false = .ok e := by
      simp [Env.Table.lookup, Env.Id.isSelf, Env.Id.self, get_of_find? hf, bind, Except.bind]
    rw [resolveTarget, Action.state_bind, Env.Table.resolve, hl, ← id_of_find? hf]
    rfl
  have hsource : k.validateSource caller msg = .ok none := by
    rw [validateSource]
    simp only [if_pos hm]
    rfl
  have htransfer : transfer caller caller msg k = .done ()
      { k with
        envs := k.envs.update caller (delivered caller msg.value .empty)
        journal := k.journal.record (.delivered caller caller msg.value .empty) } := by
    rw [transfer, Action.state_bind, hsource, Action.lift_ok_bind, readEnv_mapError_bind _ hf]
    rfl
  have hblind : ¬(!e.mailbox.receiving) = true := by rw [hr]; decide
  have hsend : trySend caller .self msg k = .done ()
      { k with
        envs := (k.envs.update caller (delivered caller msg.value .empty)).update caller
          fun e => { e with status := .runnable }
        journal := k.journal.record (.delivered caller caller msg.value .empty) } := by
    rw [trySend, Action.bind_done hresolve, Action.state_bind, hsource, Action.lift_ok_bind, readEnv_mapError_bind _ hf]
    simp only [if_neg hblind]
    rw [Action.bind_done htransfer]
    rfl
  refine ⟨_, { delivered caller msg.value .empty e with status := .runnable }, hsend, ?_, rfl⟩
  show ((k.envs.update caller (delivered caller msg.value .empty)).update caller
    fun e => { e with status := .runnable }).find? caller = _
  rw [find?_update Env.title_runnable, if_pos rfl, find?_update title_delivered, if_pos rfl, hf]
  rfl

theorem perform_sendSelf (hf : k.envs.find? caller = some e) (hr : e.mailbox.receiving = true) :
    ∃ k₁ e', perform c caller .sendSelf k = .done { reschedule := false } k₁ ∧ k₁.envs.find? caller = some e' ∧
      e'.status = .runnable := by
  have hm : utop ≤ (UInt64.ofNat utop).toNat := by decide
  obtain ⟨k₁, e', hsend, hf₁, hs₁⟩ := trySend_self ⟨0, UInt64.ofNat utop, .empty⟩ hf hr hm
  refine ⟨k₁, e', ?_, hf₁, hs₁⟩
  have hmap : ((trySend caller .self ⟨0, UInt64.ofNat utop, .empty⟩).mapError CallError.ipc) k = .done () k₁ := by
    rw [Action.mapError, hsend]
  rw [Call.sendSelf, perform, Action.bind_done hmap]
  rfl

/-- A program that receives while it runs panics the kernel when it sends to itself. -/
theorem trap_sendSelf (h : Orderly n k b x) (hb : b c = some caller) (hst : Stays c caller k)
    (hf : k.envs.find? caller = some e) (hr : e.mailbox.receiving = true) :
    ∃ ctx, (trap c (.making .sendSelf) : Action Kernel ε (Exit × Context)) k = .halted (.resumeNotRunning ctx) := by
  obtain ⟨y, hrun, hid, hy⟩ := runningOn_of_seat h hb
  obtain rfl := hid
  obtain ⟨z, hz, hs, -⟩ := hst
  obtain rfl := find?_unique hy hz
  obtain rfl := find?_unique hf hy
  have hf₀ : (k.saved e.id (.making .sendSelf)).envs.find? e.id = some { e with context := .making .sendSelf } :=
    find?_saved hf
  obtain ⟨k₁, e', hd, hf₁, hs₁⟩ := perform_sendSelf (c := c) hf₀ hr
  have hf₂ : (k₁.answered e.id).envs.find? e.id = some { e' with context := e'.context.setAnswer 0 } := by
    rw [find?_answered, if_pos rfl, hf₁]
    rfl
  exact ⟨_, (trap_of_perform rfl hrun hs call?_sendSelf hd).trans (leave_runnable _ hf₂ hs₁)⟩

def put (k : Kernel) (id : Env.Id) (dstva : Word) : Kernel :=
  Kernel.answered { k with envs := k.envs.update id (blocking dstva) } id

theorem find?_put_self (dstva : Word) (hf : k.envs.find? id = some e) : (k.put id dstva).envs.find? id =
    some { blocking dstva e with context := (blocking dstva e).context.setAnswer 0 } := by
  rw [put, find?_answered, if_pos rfl]
  show ((k.envs.update id (blocking dstva)).find? id).map _ = _
  rw [find?_update title_blocking, if_pos rfl, hf]
  rfl

theorem find?_put_of_ne (hne : j ≠ id) : (k.put id dstva).envs.find? j = k.envs.find? j := by
  rw [put, find?_answered, if_neg hne]
  show (k.envs.update id (blocking dstva)).find? j = _
  rw [find?_update title_blocking, if_neg hne]

theorem perform_receiveAny (hf : k.envs.find? caller = some e) : perform c caller .receiveAny k =
    .done { reschedule := true } { k with envs := k.envs.update caller (blocking (UInt64.ofNat utop)) } := by
  have hva : validateDestination (UInt64.ofNat utop) = .ok () := by decide
  have hreceive : ((receive caller (UInt64.ofNat utop)).mapError CallError.ipc) k =
      .done () { k with envs := k.envs.update caller (blocking (UInt64.ofNat utop)) } := by
    rw [Action.mapError, receive, hva, Action.lift_ok_bind, blockInReceive_apply hf]
  rw [Call.receiveAny, perform, Action.bind_done hreceive]
  rfl

/-- After an exempt program has blocked, its CPU goes toward anybody who can run. -/
theorem reschedule_put (live : Context) (dstva : Word) (h : Orderly n k b (some caller)) (hb : b c = some caller)
    (hc : c.index < k.current.size) (hf : k.envs.find? caller = some e) (hke : e.kind ≠ .idle)
    (hy : k.envs.find? id = some y) (hr : y.status = .runnable) (hk : y.kind ≠ .idle) (hne : id ≠ caller) :
    ∃ j ctx k',
      (reschedule c live : Action Kernel ε (Exit × Context)) (k.put caller dstva) = .done (.resume j, ctx) k' ∧
      Orderly n k' (Function.update b c (some j)) (some caller) ∧ Stays c j k' ∧ k'.current.size = k.current.size ∧
      Rested (k.put caller dstva).envs k'.envs ∧ (j = id ∨ k'.envs.find? id = some y) := by
  have hself := find?_put_self dstva hf
  have hy₁ : (k.put caller dstva).envs.find? id = some y := (find?_put_of_ne hne).trans hy
  have ho : Orderly n (k.put caller dstva) (Function.update b c none) (some caller) :=
    orderly_answered (h.blocked hb hf hke)
  have hs : LastHere (k.put caller dstva) (Function.update b c none) c := by
    intro i z hl hz hrun
    have hl' : k.currentOf c = some i := hl
    obtain rfl := h.last_of_seat hl' hb
    obtain rfl := find?_unique hself hz
    cases hrun
  obtain ⟨d, hd, hi⟩ := exists_distance ((k.put caller dstva).scanStart c) (slot?_lt (slot?_of_find? hy₁))
  obtain ⟨j, ctx, hdone, ho', hst, hrest, hcase⟩ := reschedule_toward (ε := ε) live ho hs hc hy₁ hr hk hd hi
  rw [Function.update_idem] at ho'
  exact ⟨j, ctx, _, hdone, ho', hst, Array.size_setIfInBounds, hrest, hcase.imp_right And.left⟩

/-- An exempt program that calls receive is blocked whatever it has parked. -/
theorem trap_receiveAny (h : Orderly n k b (some caller)) (hb : b c = some caller) (hst : Stays c caller k)
    (hc : c.index < k.current.size) (hf : k.envs.find? caller = some e) (hy : k.envs.find? id = some y)
    (hr : y.status = .runnable) (hk : y.kind ≠ .idle) :
    ∃ j ctx k', (trap c (.making .receiveAny) : Action Kernel ε (Exit × Context)) k = .done (.resume j, ctx) k' ∧
      Orderly n k' (Function.update b c (some j)) (some caller) ∧ Stays c j k' ∧ k'.current.size = k.current.size ∧
      (∃ e', k'.envs.find? caller = some e' ∧ e'.status = .notRunnable ∧ e'.mailbox.receiving = true ∧
        e'.parent = e.parent ∧ e'.kind = e.kind) ∧ (j = id ∨ k'.envs.find? id = some y) := by
  obtain ⟨z, hrun, hid, hz⟩ := runningOn_of_seat h hb
  obtain rfl := find?_unique hf hz
  obtain rfl := hid
  obtain ⟨z, hz, hs, -, hke⟩ := hst
  obtain rfl := find?_unique hf hz
  have hne : id ≠ e.id := by
    rintro rfl
    obtain rfl := find?_unique hf hy
    rw [hs] at hr
    cases hr
  have hf₀ : (k.saved e.id (.making .receiveAny)).envs.find? e.id = some { e with context := .making .receiveAny } :=
    find?_saved hf
  have hy₀ : (k.saved e.id (.making .receiveAny)).envs.find? id = some y := (find?_saved_of_ne hne).trans hy
  have h₀ : Orderly n (k.saved e.id (.making .receiveAny)) b (some e.id) := orderly_saved h
  obtain ⟨j, ctx, k', hdone, ho, hstj, hsize, hrest, hcase⟩ :=
    reschedule_put (ε := ε) (.making .receiveAny) (UInt64.ofNat utop) h₀ hb hc hf₀ hke hy₀ hr hk hne
  obtain ⟨e', hf', hrest'⟩ := hrest.find? (find?_put_self _ hf₀)
  have hthere : ¬(((k.saved e.id (.making .receiveAny)).put e.id (UInt64.ofNat utop)).envs.find? e.id).isNone =
      true := by
    simp [find?_put_self _ hf₀]
  refine ⟨j, ctx, k', ?_, ho, hstj, hsize, ⟨e', hf', ?_, ?_⟩, hcase⟩
  · refine (trap_of_perform rfl hrun hs call?_receiveAny (perform_receiveAny hf₀)).trans ?_
    show leave c e.id _ true ((k.saved e.id (.making .receiveAny)).put e.id (UInt64.ofNat utop)) = _
    rw [leave, Action.state_bind]
    simp only [if_neg hthere, if_true]
    exact hdone
  · have hs' := status_of_resting hrest'
    change _ = Status.notRunnable at hs'
    split at hs'
    · cases hs'
    · exact hs'
  · obtain ⟨-, hparent, hkind, hmail, -⟩ := parts_of_resting hrest'
    exact ⟨hmail, hparent, hkind⟩

end Kernel

end Exokernel
