import Exokernel.Proofs.User.Calls

/-!
# Programs and the kernel mean the same call

A part of a program that makes a single call packs it into registers, traps, and reads the signed word that the kernel
leaves in its place. The kernel performs the very call that was packed, unless a word of it is refused, and the program
comes to the result of the call: to its value, or to the code of its error. Ids among the values are good arguments of
later calls.
-/

set_option autoImplicit false

namespace Exokernel

open Env (Id)
open Env.Table

/-- The parts of a program that make a single call, and what they come to when they are told its result. -/
inductive Program.Wraps : {α : Type} → Program α → Call → (Except ErrorCode Word → α) → Prop where
  | issue (c : Call) : Wraps (Program.issue c).run c id
  | perform (c : Call) : Wraps (Program.perform c).run c (Except.map fun _ => ())
  | self : Wraps Program.self .self fun
      | .ok w => .ofWord w
      | .error code => .ofWord code.toWord
  | yield : Wraps Program.yield .yield fun _ => ()
  | getc : Wraps Program.getc .getc fun
      | .ok w => if w = 0 then none else some w.toUInt8
      | .error _ => none
  | fork : Wraps Program.fork.run .fork (Except.map .ofWord)

/-- It packs the call, and reads the word in which the result is encoded. -/
theorem Program.Wraps.makes {α : Type} {p : Program α} {c : Call} {f : Except ErrorCode Word → α} (h : p.Wraps c f) :
    ∃ next, p = .call c.number c.arguments next ∧
      ∀ r : Except CallError Word, (∀ w, r = .ok w → w.toNat < ErrorCode.valueLimit) →
        next (CallError.encode r).toInt64.toInt = .done (f (r.mapError CallError.code)) := by
  cases h with
  | issue => exact ⟨_, rfl, fun r hr => congrArg done (ErrorCode.check_encode hr)⟩
  | yield => exact ⟨_, rfl, fun _ _ => rfl⟩
  | perform | getc | fork =>
    refine ⟨_, rfl, fun r hr => ?_⟩
    rw [← ErrorCode.check_encode hr]
    generalize (CallError.encode r).toInt64.toInt = answer
    beta_reduce
    cases ErrorCode.check answer <;> rfl
  | self =>
    refine ⟨_, rfl, fun r _ => ?_⟩
    rw [ofInt_toInt]
    cases r <;> rfl

namespace Call

/-- Calls with an address that is judged only when they are performed: a page to unmap, or a page to send or to receive
that is below `utop`, is not an aligned user page. -/
def Misplaced : Call → Prop
  | unmapPage _ va => isUserPage va.toNat = false
  | trySend _ m | sendQueued _ m => m.srcva.toNat < utop ∧ aligned m.srcva.toNat = false
  | receive dstva | receiveQueued dstva => dstva.toNat < utop ∧ aligned dstva.toNat = false
  | _ => False

def Resolves (t : Env.Table) (caller : Id) : Call → Prop
  | unmapPage id _ => ∃ e, t.lookup id (some caller) true = .ok e
  | trySend target _ | sendQueued target _ => ∃ e, t.lookup target (some caller) false = .ok e
  | _ => True

end Call

namespace Kernel

variable {n : Nat} {k k' : Kernel} {cpu : Cpu} {caller id : Env.Id} {e : Env} {live ctx : Context} {c : Call}
  {result : Except CallError Reply} {r : Reply}

section misplaced

theorem authorize_tells : (authorize caller id k).Meets
    (fun _ _ => ∃ e, k.envs.lookup id (some caller) true = .ok e)
    (fun cause _ => ((∃ e, k.envs.lookup id (some caller) true = .ok e) → cause.code = .invalidArgument) ∧
      ((¬∃ e, k.envs.lookup id (some caller) true = .ok e) → cause.code = .badEnvironment)) fun _ => False := by
  rw [authorize, Action.state_bind]
  rcases resolve_cases k.envs id caller true with ⟨e, hl, hr⟩ | ⟨hno, hr⟩
  · rw [hr]
    exact ⟨e, hl⟩
  · rw [hr]
    exact ⟨fun h => absurd h hno, fun _ => rfl⟩

theorem resolveTarget_tells : (resolveTarget caller id k).Meets
    (fun _ _ => ∃ e, k.envs.lookup id (some caller) false = .ok e)
    (fun cause _ => ((∃ e, k.envs.lookup id (some caller) false = .ok e) → cause.code = .invalidArgument) ∧
      ((¬∃ e, k.envs.lookup id (some caller) false = .ok e) → cause.code = .badEnvironment)) fun _ => False := by
  rw [resolveTarget, Action.state_bind]
  rcases resolve_cases k.envs id caller false with ⟨e, hl, hr⟩ | ⟨hno, hr⟩
  · rw [hr]
    exact ⟨e, hl⟩
  · rw [hr]
    exact ⟨fun h => absurd h hno, fun _ => rfl⟩

theorem validateSource_misplaced {m : Env.Message} (h : m.srcva.toNat < utop ∧ aligned m.srcva.toNat = false) :
    k.validateSource caller m = .error .invalidArgument := by
  rw [validateSource, if_neg (by omega), if_pos (by simp [h.2])]
  rfl

theorem validateDestination_misplaced {dstva : Word} (h : dstva.toNat < utop ∧ aligned dstva.toNat = false) :
    validateDestination dstva = .error .invalidArgument := by
  rw [validateDestination, if_pos (by simp [h])]

/-- A misplaced call is refused, for its address if its id resolves. -/
theorem perform_misplaced (h : c.Misplaced) : (perform cpu caller c k).Meets (fun _ _ => False)
    (fun cause _ => (c.Resolves k.envs caller → cause.code = .invalidArgument) ∧
      (¬c.Resolves k.envs caller → cause.code = .badEnvironment)) fun _ => False := by
  cases c with
  | unmapPage id va =>
    have hva : isUserPage va.toNat = false := h
    refine Action.meets_bind authorize_tells fun target k₁ hyes => ?_
    rw [Call.pageArgument, hva]
    exact ⟨fun _ => rfl, fun hno => absurd hyes hno⟩
  | trySend target m =>
    have hm : m.srcva.toNat < utop ∧ aligned m.srcva.toNat = false := h
    refine Action.meets_bind (P := fun _ _ => False) (Action.meets_mapError ?_) fun _ _ h => h.elim
    refine Action.meets_bind resolveTarget_tells fun target k₁ hyes => ?_
    rw [Action.state_bind, validateSource_misplaced hm]
    exact ⟨fun _ => rfl, fun hno => absurd hyes hno⟩
  | sendQueued target m =>
    have hm : m.srcva.toNat < utop ∧ aligned m.srcva.toNat = false := h
    refine Action.meets_bind (P := fun _ _ => False) (Action.meets_mapError ?_) fun _ _ h => h.elim
    refine Action.meets_bind resolveTarget_tells fun target k₁ hyes => ?_
    by_cases hne : target = caller
    · simp only [if_pos hne]
      exact ⟨fun _ => rfl, fun hno => absurd hyes hno⟩
    · simp only [if_neg hne]
      rw [Action.state_bind, validateSource_misplaced hm]
      exact ⟨fun _ => rfl, fun hno => absurd hyes hno⟩
  | receive dstva =>
    have hdst : dstva.toNat < utop ∧ aligned dstva.toNat = false := h
    rw [perform, receive, validateDestination_misplaced hdst]
    exact ⟨fun _ => rfl, fun hno => absurd trivial hno⟩
  | receiveQueued dstva =>
    have hdst : dstva.toNat < utop ∧ aligned dstva.toNat = false := h
    have hread : (readCycles : Action Kernel CallError Word) k =
        .done k.cycles.read.1 { k with cycles := k.cycles.read.2 } := rfl
    rw [perform, receiveFor, Action.state_bind, Action.bind_done hread]
    refine Action.meets_bind (P := fun _ _ => False) (Action.meets_mapError ?_) fun _ _ h => h.elim
    rw [receiveQueued, validateDestination_misplaced hdst]
    exact ⟨fun _ => rfl, fun hno => absurd trivial hno⟩
  | _ => exact h.elim

end misplaced

structure CallServed (cpu : Cpu) (e : Env) (live : Context) (k : Kernel) (result : Except CallError Reply)
    (k' : Kernel) : Prop where
  trapped : live.number = Trap.systemCall
  performed : ∃ k₁, ((callSystem .standard cpu e.id live.callNumber live.callArguments).attempt :
    Action Kernel Empty _) (k.saved e.id live) = .done result k₁
  handled : ∃ again, (handle cpu { e with context := live } : Action Kernel Empty Bool) (k.saved e.id live) =
    .done again k'

section serves

/-- The result is encoded into the answer register of the caller. -/
theorem CallServed.replied (h : CallServed cpu e live k result k') :
    ∃ k₁ : Kernel, k' = k₁.replied e.id (CallError.encode (result.map Reply.value)) ∧
      ∀ r, result = .ok r → callSystem .standard cpu e.id live.callNumber live.callArguments (k.saved e.id live) =
        .done r k₁ := by
  obtain ⟨ht, ⟨k₂, hperformed⟩, ⟨again, hhandled⟩⟩ := h
  rw [handle_system ht] at hhandled
  rw [Action.attempt] at hperformed
  cases hd : callSystem .standard cpu e.id live.callNumber live.callArguments (k.saved e.id live) with
  | done r k₁ =>
    rw [hd] at hperformed
    cases hperformed
    rw [callTrap_done (e := { e with context := live }) hd] at hhandled
    cases hhandled
    exact ⟨_, rfl, fun r' hr => by rw [Except.ok.inj hr]⟩
  | refused cause k₁ =>
    rw [hd] at hperformed
    cases hperformed
    rw [callTrap_refused (e := { e with context := live }) hd, rebuked_eq] at hhandled
    cases hhandled
    exact ⟨_, rfl, fun _ hr => by cases hr⟩
  | halted p =>
    rw [hd] at hperformed
    cases hperformed

theorem CallServed.answer (h : CallServed cpu e live k result k') (hctx : k'.contextOf e.id = some ctx) :
    ctx.answer = (CallError.encode (result.map Reply.value)).toInt64.toInt := by
  obtain ⟨k₁, rfl, -⟩ := h.replied
  rw [contextOf_replied] at hctx
  obtain ⟨c, -, rfl⟩ := Option.map_eq_some_iff.mp hctx
  exact Context.answer_setAnswer ..

variable (hp : Proper n k.envs k.memory) (hf : k.envs.find? e.id = some e)
include hp

theorem CallServed.value_lt (h : CallServed cpu e live k result k') :
    ∀ w, result.map Reply.value = .ok w → w.toNat < ErrorCode.valueLimit := by
  obtain ⟨k₁, -, hdone⟩ := h.replied
  intro w hw
  cases result with
  | error cause => cases hw
  | ok r =>
    cases hw
    have hp₁ : Proper n (k.saved e.id live).envs k.memory := hp.touched touched_context
    exact (callSystem_answers hp₁).of_done (hdone r rfl)

include hf

/-- A call is served, unless it finds no room to count one more sender. -/
theorem served_or_overcounts (ht : live.number = Trap.systemCall) : (∃ result k', CallServed cpu e live k result k') ∨
    ∃ c, CallTable.standard.decode live.callNumber live.callArguments = .ok c ∧
      Overcounts (k.saved e.id live).envs e.id .addOverflow c := by
  have hp₁ : Proper n (k.saved e.id live).envs k.memory := hp.touched touched_context
  cases hd : callSystem .standard cpu e.id live.callNumber live.callArguments (k.saved e.id live) with
  | done r k₁ =>
    refine .inl ⟨.ok r, k₁.replied e.id r.value, ht, ⟨k₁, by rw [Action.attempt, hd]⟩, r.reschedule, ?_⟩
    rw [handle_system ht]
    exact callTrap_done (e := { e with context := live }) hd
  | refused cause k₁ =>
    refine .inl ⟨.error cause, k₁.rebuked e.id live.callNumber cause, ht, ⟨k₁, by rw [Action.attempt, hd]⟩, false, ?_⟩
    rw [handle_system ht]
    exact callTrap_refused (e := { e with context := live }) hd
  | halted p =>
    obtain ⟨c, hdec, hover⟩ := (callSystem_effect .standard _ _ hp₁ (find?_saved hf)).of_halted hd
    obtain rfl := hover.addOverflow
    exact .inr ⟨c, hdec, hover⟩

theorem CallServed.sound (h : CallServed cpu e live k (.ok r) k') : k'.envs.Sound := by
  obtain ⟨k₁, rfl, hdone⟩ := h.replied
  have hp₁ : Proper n (k.saved e.id live).envs k.memory := hp.touched touched_context
  obtain ⟨c, -, heffect⟩ := (callSystem_effect _ _ _ hp₁ (find?_saved hf)).of_done (hdone r rfl)
  exact ((heffect.proper hp₁).touched touched_context).intact.table

end serves

/-- The word `w` stands for a live environment that `caller` may name: a program reads it as the id of that
environment, packs the id as the same word, and the kernel decodes and authorizes it. -/
structure Accepts (k : Kernel) (caller id : Env.Id) (w : Word) : Prop where
  read : Env.Id.ofWord w = id
  packed : id.toWord = w
  decoded : Call.envArgument w = .ok id
  live : (k.envs.find? id).isSome = true
  authorized : authorize caller id k = .done id k

section accepts

theorem accepts_of_kin (ht : k.envs.Sound) (hf : k.envs.find? id = some e) (hk : id = caller ∨ e.parent = caller) :
    k.Accepts caller id id.toWord := by
  have hid := id_of_find? hf
  have hgen := (ht.named _ e (slot?_of_find? hf) (live_of_find? hf)).2.2
  rw [hid] at hgen
  have hauth := authorize_of_lookup (lookup_of_kin ht hf (hk.imp hid.trans fun h => h))
  rw [hid] at hauth
  refine ⟨Env.Id.ofWord_toWord id, rfl, ?_, by rw [hf]; rfl, hauth⟩
  rw [Call.envArgument, Env.Id.ofWord?_toWord hgen]

variable (hp : Proper n k.envs k.memory) (hf : k.envs.find? e.id = some e) (h : CallServed cpu e live k (.ok r) k')
include hp hf h

theorem CallServed.self (hdec : CallTable.standard.decode live.callNumber live.callArguments = .ok .self) :
    k'.Accepts e.id e.id r.value := by
  have ht := h.sound hp hf
  obtain ⟨k₁, rfl, hdone⟩ := h.replied
  have hsys := hdone r rfl
  rw [callSystem, hdec, Action.lift_ok_bind] at hsys
  cases hsys
  obtain ⟨y, hy, -⟩ := find?_of_records ((records_replied.trans records_saved).symm ▸ records_of_find? hf)
  exact accepts_of_kin ht hy (.inl rfl)

/-- Who makes a child gets the id of the child. -/
theorem CallServed.fork (hdec : CallTable.standard.decode live.callNumber live.callArguments = .ok .fork) :
    ∃ child y, k.envs.find? child = none ∧ k'.envs.find? child = some y ∧ y.parent = e.id ∧
      k'.Accepts e.id child r.value := by
  have ht := h.sound hp hf
  obtain ⟨k₁, rfl, hdone⟩ := h.replied
  have hsys := hdone r rfl
  rw [callSystem, hdec, Action.lift_ok_bind] at hsys
  have hp₁ : Proper n (k.saved e.id live).envs k.memory := hp.touched touched_context
  obtain ⟨index, space, hfree, -, hr, hrecords⟩ := (forkEnv_answer hp₁ (find?_saved hf)).of_done hsys
  have hnone := find?_occupy_fresh hp₁.intact.table hfree e.id .user space
  generalize Env.Table.occupy _ index e.id .user space = o at *
  have hborn : (k₁.replied e.id r.value).envs.records o.1 = some (newborn o.1 e.id space) := by
    rw [records_replied, hrecords, Function.update_self]
  obtain ⟨y, hy, hbare⟩ := find?_of_records hborn
  have hparent : y.parent = e.id := congrArg Env.parent hbare
  refine ⟨o.1, y, ?_, hy, hparent, ?_⟩
  · have hold : k.envs.records o.1 = none := by
      rw [← records_saved, Env.Table.records, hnone]
      rfl
    exact Option.map_eq_none_iff.mp hold
  · rw [hr]
    exact accepts_of_kin ht hy (.inr hparent)

end accepts

/-- In every state that is reached, a live environment `e` and the kernel mean the same by a call.

Every part of a program that makes a call packs it into registers from which the kernel decodes that call, with the
same ids, addresses, values, status and permission, or rejects it for its first word that stands for nothing; and it
comes to the value that the handler returned, or to the code of its error. Addresses that are judged by the handler are
refused there. Whatever the registers are, the word in the answer register is read as a value just if the handler
returned that value, and as the code of an error just if the handler failed with that code. The ids that `self` and
`fork` return are live, are read as themselves and are accepted as arguments, as is every child of `e` later on. -/
theorem calls_mean_the_same (cpu : Cpu) (hk : k.Reachable) (hf : k.envs.find? e.id = some e) :
    (∀ {α : Type} {p : Program α} {c : Call} {f : Except ErrorCode Word → α}, p.Wraps c f →
      ∃ next, p = .call c.number c.arguments next ∧ ∀ ctx live : Context, live = ctx.setCall c.number c.arguments →
        live.number = Trap.systemCall ∧
        (CallTable.standard.decode live.callNumber live.callArguments = match c.rejection? with
          | some cause => .error cause
          | none => .ok c) ∧
        (∀ k₀, callSystem .standard cpu e.id live.callNumber live.callArguments k₀ = match c.rejection? with
          | some cause => .refused cause k₀
          | none => perform cpu e.id c k₀) ∧
        ∀ result k' ctx', k.CallServed cpu e live result k' → k'.contextOf e.id = some ctx' →
          next ctx'.answer = .done (f ((result.map Reply.value).mapError CallError.code))) ∧
    (∀ c : Call, c.Misplaced → ∀ k₀, ∃ cause k', perform cpu e.id c k₀ = .refused cause k' ∧
      (c.Resolves k₀.envs e.id → cause.code = .invalidArgument) ∧
      (¬c.Resolves k₀.envs e.id → cause.code = .badEnvironment)) ∧
    (∀ live : Context, live.number = Trap.systemCall →
      ((∃ result k', k.CallServed cpu e live result k') ∨
        ∃ c, CallTable.standard.decode live.callNumber live.callArguments = .ok c ∧
          Overcounts (k.saved e.id live).envs e.id .addOverflow c) ∧
      ∀ result k', k.CallServed cpu e live result k' →
        (∀ ctx, k'.contextOf e.id = some ctx →
          ErrorCode.check ctx.answer = (result.map Reply.value).mapError CallError.code) ∧
        ∀ r, result = .ok r →
          (CallTable.standard.decode live.callNumber live.callArguments = .ok .self → k'.Accepts e.id e.id r.value) ∧
          (CallTable.standard.decode live.callNumber live.callArguments = .ok .fork →
            ∃ child y, k.envs.find? child = none ∧ k'.envs.find? child = some y ∧ y.parent = e.id ∧
              k'.Accepts e.id child r.value)) ∧
    ∀ id y, k.envs.find? id = some y → id = e.id ∨ y.parent = e.id → k.Accepts e.id id id.toWord := by
  obtain ⟨n, hp⟩ := hk.proper
  refine ⟨fun {_ _ c _} hw => ?_, fun c hm k₀ => (perform_misplaced hm).refused, fun live hn => ⟨?_, ?_⟩,
    fun id y hy hkin => ?_⟩
  · obtain ⟨next, hpack, hread⟩ := hw.makes
    refine ⟨next, hpack, fun ctx live hlive => ?_⟩
    obtain rfl := hlive
    refine ⟨rfl, ?_, fun k₀ => ?_, fun result k' ctx' hs hctx => ?_⟩
    · rw [Context.callArguments_setCall, Context.callNumber_setCall]
      exact c.decode_packed
    · rw [callSystem_setCall]
      exact callSystem_packed
    · rw [hs.answer hctx]
      exact hread _ (hs.value_lt hp)
  · exact served_or_overcounts hp hf hn
  · refine fun result k' hs => ⟨fun ctx hctx => ?_, fun r hr => ?_⟩
    · rw [hs.answer hctx]
      exact ErrorCode.check_encode (hs.value_lt hp)
    · subst hr
      exact ⟨hs.self hp hf, hs.fork hp hf⟩
  · exact accepts_of_kin hp.intact.table hy hkin

def alone : Kernel := (Demand.step (.create .user)).next pairBooted

theorem reachable_alone : alone.Reachable := by
  have hboot : boot pairConfig {} {} = .ok pairBooted := by decide +kernel
  exact (Reachable.boot hboot).next (r := .step (.create .user)) trivial (by decide +kernel)

/-- The program forks and is told the id of its child, which it may then name; and it asks for an address to be unmapped
that is not aligned. -/
theorem calls_mean_the_same_alone : ∃ e r k' ctx next,
    alone.envs.find? ⟨0x401⟩ = some e ∧ e.id = ⟨0x401⟩ ∧
    alone.CallServed ⟨0⟩ e (Context.setCall {} Call.fork.number Call.fork.arguments) (.ok r) k' ∧
    k'.contextOf ⟨0x401⟩ = some ctx ∧ Program.fork.run = .call Call.fork.number Call.fork.arguments next ∧
    next ctx.answer = .done (.ok ⟨0x402⟩) ∧ k'.Accepts ⟨0x401⟩ ⟨0x402⟩ r.value ∧
    (∃ cause k₁, perform ⟨0⟩ ⟨0x401⟩ (.unmapPage ⟨0x401⟩ 0x1001) alone = .refused cause k₁ ∧
      cause.code = .invalidArgument) ∧
    alone.Accepts ⟨0x401⟩ ⟨0x401⟩ 0x401 := by
  let e := (alone.envs.find? ⟨0x401⟩).get (by decide +kernel)
  have hf : alone.envs.find? ⟨0x401⟩ = some e := (Option.some_get _).symm
  have hid : e.id = ⟨0x401⟩ := id_of_find? hf
  obtain ⟨hwraps, hmisplaced, hserved, hkin⟩ := calls_mean_the_same (e := e) ⟨0⟩ reachable_alone (hid.symm ▸ hf)
  let live := Context.setCall {} Call.fork.number Call.fork.arguments
  have hdec : CallTable.standard.decode live.callNumber live.callArguments = .ok .fork := rfl
  obtain ⟨hresult, htells⟩ := hserved live rfl
  obtain ⟨result, k', hs⟩ := hresult.resolve_right (by
    rintro ⟨c, hc, hover⟩
    rw [hdec] at hc
    cases hc
    exact hover)
  have hvalue : ((callSystem .standard ⟨0⟩ e.id live.callNumber live.callArguments)
      (alone.saved e.id live)).result?.map (fun x => x.1.value) = some 0x402 := by decide +kernel
  have hleft : ((handle ⟨0⟩ { e with context := live } : Action Kernel Empty Bool)
      (alone.saved e.id live)).result?.bind (fun x => x.2.contextOf e.id) ≠ none := by decide +kernel
  obtain ⟨⟨r, k₁⟩, hd, hr⟩ := Option.map_eq_some_iff.mp hvalue
  obtain rfl : result = .ok r := by
    obtain ⟨k₂, hperformed⟩ := hs.performed
    rw [Action.attempt, Outcome.result?_eq_some hd] at hperformed
    cases hperformed
    rfl
  have hr' : r.value = 0x402 := hr
  obtain ⟨again, hhandled⟩ := hs.handled
  rw [hhandled] at hleft
  obtain ⟨ctx, hctx⟩ := Option.ne_none_iff_exists'.mp hleft
  obtain ⟨next, hpack, hreads⟩ := hwraps .fork
  have hnext : next ctx.answer = .done (.ok (.ofWord r.value)) := (hreads {} live rfl).2.2.2 _ _ ctx hs hctx
  obtain ⟨child, y, -, -, -, haccepts⟩ := ((htells _ _ hs).2 r rfl).2 hdec
  obtain rfl : child = ⟨0x402⟩ := by
    rw [← haccepts.read, hr']
    rfl
  obtain ⟨n, hp⟩ := reachable_alone.proper
  obtain ⟨cause, k₂, hrefused, hcode, -⟩ := hmisplaced (.unmapPage ⟨0x401⟩ 0x1001) rfl alone
  refine ⟨e, r, k', ctx, next, hf, hid, hs, hid ▸ hctx, hpack, ?_, hid ▸ haccepts, ?_, ?_⟩
  · rw [hnext, hr']
    rfl
  · exact ⟨cause, k₂, hid ▸ hrefused, hcode ⟨e, lookup_of_kin hp.intact.table hf (.inl rfl)⟩⟩
  · have hself := hkin ⟨0x401⟩ e hf (.inl hid.symm)
    rw [hid] at hself
    exact hself

end Kernel

end Exokernel
