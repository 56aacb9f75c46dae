import Exokernel.Proofs.Syscall.Answers
import Exokernel.Proofs.Syscall.Words
import Exokernel.Proofs.User.Drive

/-!
# Calls of a program that runs undisturbed

A call that the kernel performs leaves its answer with its caller, who goes on; a call that it refuses changes nothing
but registers and failures on demand that have happened. The answer tells the two apart.
-/

set_option autoImplicit false

namespace Exokernel

open Env (Id)

namespace Env.Table

variable {t : Table} {id : Id} {e r : Env} {f : Env → Env} {g : Env → Context} {index : Nat}

def bare (e : Env) : Env := { e with context := {} }

def records (t : Table) (id : Id) : Option Env := (t.find? id).map bare

theorem records_of_find? (h : t.find? id = some e) : t.records id = some (bare e) := by
  rw [records, h]
  rfl

theorem find?_of_records (h : t.records id = some r) : ∃ e, t.find? id = some e ∧ bare e = r :=
  Option.map_eq_some_iff.mp h

theorem records_context : (t.update id fun e => { e with context := g e }).records = t.records := by
  funext j
  rw [records, find?_update Env.title_context]
  split
  · next hj =>
    rw [hj, records, Option.map_map]
    rfl
  · rfl

theorem records_update (htitle : ∀ e, e.isFree = false → (f e).title = e.title) (hf : ∀ e, bare (f e) = f (bare e)) :
    (t.update id f).records = Function.update t.records id ((t.records id).map f) := by
  funext j
  rw [records, find?_update htitle]
  by_cases hj : j = id
  · subst hj
    rw [if_pos rfl, Function.update_self, records, Option.map_map, Option.map_map, Function.comp_def, Function.comp_def]
    simp only [hf]
  · rw [if_neg hj, Function.update_of_ne hj, records]

def newborn (child parent : Id) (space : Handle) : Env :=
  bare { Env.fresh child parent .user space with status := .notRunnable }

theorem records_forked {parent : Id} {space : Handle} {context : Context} (ht : t.Sound)
    (hfree : t.freeHead = some index) :
    ((t.occupy index parent .user space).2.update (t.occupy index parent .user space).1 fun e =>
      { e with context, status := .notRunnable }).records =
    Function.update t.records (t.occupy index parent .user space).1
      (some (newborn (t.occupy index parent .user space).1 parent space)) := by
  funext j
  rw [records, find?_update Env.title_suspended, find?_occupy ht hfree, find?_occupy ht hfree, if_pos rfl]
  by_cases hj : j = (t.occupy index parent .user space).1
  · rw [if_pos hj, hj, Function.update_self]
    rfl
  · rw [if_neg hj, if_neg hj, Function.update_of_ne hj]
    rfl

end Env.Table

namespace Kernel

variable {k k₁ : Kernel} {id : Env.Id} {e : Env} {cpu : Cpu} {ctx : Context} {w : Word}

theorem records_saved : (k.saved id ctx).envs.records = k.envs.records := Env.Table.records_context

theorem records_replied : (k.replied id w).envs.records = k.envs.records := Env.Table.records_context

theorem callSystem_of_decode {c : Call} (h : CallTable.standard.decode c.number c.arguments = .ok c) :
    callSystem .standard cpu id c.number c.arguments k = perform cpu id c k := by
  rw [callSystem, h, Action.lift_ok_bind]

theorem callSystem_packed {c : Call} : callSystem .standard cpu id c.number c.arguments k =
    match c.rejection? with
    | some cause => .refused cause k
    | none => perform cpu id c k := by
  rw [callSystem, Call.decode_packed]
  cases c.rejection? with
  | some cause => rfl
  | none => rfl

theorem perform_of_callSystem {c : Call} {r : Reply}
    (h : callSystem .standard cpu id c.number c.arguments k = .done r k₁) : perform cpu id c k = .done r k₁ := by
  rw [callSystem_packed] at h
  cases hr : c.rejection? with
  | some cause =>
    rw [hr] at h
    cases h
  | none =>
    rw [hr] at h
    exact h

/-- A fork that is done answers with the id of the child that it made. -/
theorem forkEnv_answer {n : Nat} {k : Kernel} (hp : Proper n k.envs k.memory) (hc : k.envs.find? id = some e) :
    (forkEnv id k).Meets
      (fun r k' => ∃ index space, k.envs.freeHead = some index ∧ Memory.create k.memory = .done space k'.memory ∧
        r.value = (k.envs.occupy index id .user space).1.toWord ∧
        k'.envs.records = Function.update k.envs.records (k.envs.occupy index id .user space).1
          (some (Env.Table.newborn (k.envs.occupy index id .user space).1 id space)))
      (fun _ _ => True) (fun _ => True) := by
  rw [forkEnv, readEnv_mapError_bind _ hc]
  refine Action.meets_bind (Action.meets_mapError ((allocate_effect hp).mono (fun _ _ h => h) (fun _ _ _ => trivial)
    fun _ _ => trivial)) fun child k₁ h₁ => ?_
  obtain ⟨index, space, m, j, hfree, hm, rfl, rfl⟩ := h₁
  rw [updateEnv_bind, record_bind]
  exact ⟨index, space, hfree, hm, rfl, Env.Table.records_forked hp.intact.table hfree⟩

end Kernel

namespace Simulation.Machine

variable {n : Nat} {cpu : Cpu} {id : Env.Id} {m m' m'' : Machine} {c : Call} {e : Env} {r : Reply} {k₁ : Kernel}

structure Beside (m m' : Machine) : Prop where
  envs : m'.kernel.envs.records = m.kernel.envs.records
  touched : Env.Table.Touched m.kernel.envs m'.kernel.envs
  handlers : m'.handlers = m.handlers

theorem Beside.trans (h : Beside m m') (h' : Beside m' m'') : Beside m m'' :=
  ⟨h'.envs.trans h.envs, h.touched.trans h'.touched, h'.handlers.trans h.handlers⟩

section take

variable (hf : m.kernel.envs.find? id = some e)
include hf

theorem take_calling : (m.calling c).take cpu id =
    match (Kernel.callTrap cpu { e with context := m.live.setCall c.number c.arguments } : Action Kernel Empty Bool)
      (m.kernel.saved id (m.calling c).live) with
    | .done false kernel => (kernel.contextOf id).map fun live => { m with kernel, live }
    | _ => none := by
  have hf' : (m.calling c).kernel.envs.find? id = some e := hf
  rw [take, hf']
  simp only
  rw [Kernel.handle_system rfl]
  rfl

theorem take_done (hdec : CallTable.standard.decode c.number c.arguments = .ok c)
    (hd : Kernel.perform cpu id c (m.kernel.saved id (m.calling c).live) = .done r k₁) (hr : r.reschedule = false) :
    (m.calling c).take cpu id =
      ((k₁.contextOf id).map fun ctx => ctx.setAnswer r.value).map fun live =>
        { m with kernel := k₁.replied id r.value, live } := by
  obtain rfl := Env.Table.id_of_find? hf
  have hsys := (Kernel.callSystem_of_decode hdec).trans hd
  rw [← Kernel.callSystem_setCall m.live] at hsys
  rw [take_calling hf, Kernel.callTrap_done (e := { e with context := m.live.setCall c.number c.arguments }) hsys, hr]
  simp only
  rw [Kernel.contextOf_replied]

/-- A call that is done and changes memory alone, in front of what its program does next. -/
theorem costs_call {memory : Memory} (hdec : CallTable.standard.decode c.number c.arguments = .ok c)
    (hd : Kernel.perform cpu id c (m.kernel.saved id (m.calling c).live) =
      .done {} { m.kernel.saved id (m.calling c).live with memory }) :
    ∃ m', Costs cpu id (Program.perform c).run m 1 (.ok ()) m' ∧ m.Beside m' ∧ m'.kernel.memory = memory ∧
      m'.live.sp = m.live.sp := by
  have htake := take_done hf hdec hd rfl
  have hctx : ({ m.kernel.saved id (m.calling c).live with memory } : Kernel).contextOf id =
      some (m.calling c).live := by
    rw [Kernel.contextOf]
    show ((m.kernel.saved id (m.calling c).live).envs.find? id).map _ = _
    rw [Kernel.find?_saved hf]
    rfl
  rw [hctx] at htake
  refine ⟨_, costs_perform htake (?_ : _ = Except.ok (0 : Word)), ⟨?_, ?_, rfl⟩, rfl, rfl⟩
  · show ErrorCode.check ((m.calling c).live.setAnswer 0).answer = .ok 0
    rw [Context.answer_setAnswer]
    rfl
  · exact Kernel.records_replied.trans Kernel.records_saved
  · exact touched_context.trans touched_context

end take

/-- A call that its program goes on from was done, or it was refused and changed nothing else. -/
theorem take_cases (hp : Proper n m.kernel.envs m.kernel.memory) (h : (m.calling c).take cpu id = some m') :
    ∃ (e : Env) (k₁ : Kernel) (w : Word) (ctx : Context), m.kernel.envs.find? id = some e ∧
      m' = { m with kernel := k₁.replied id w, live := ctx.setAnswer w } ∧
      ((∃ r, Kernel.perform cpu id c (m.kernel.saved id (m.calling c).live) = .done r k₁ ∧ w = r.value) ∨
        ∃ cause : CallError, k₁.envs.records = m.kernel.envs.records ∧ Env.Table.Touched m.kernel.envs k₁.envs ∧
          m.kernel.memory.Spent k₁.memory ∧ w = cause.code.toWord) := by
  cases hf : m.kernel.envs.find? id with
  | none =>
    have hf' : (m.calling c).kernel.envs.find? id = none := hf
    rw [take, hf'] at h
    cases h
  | some e =>
    obtain rfl := Env.Table.id_of_find? hf
    -- The program goes on with its saved context and the answer there.
    have hleft : ∀ (k₁ : Kernel) (w : Word), ((k₁.replied e.id w).contextOf e.id).map
        (fun live => { m with kernel := k₁.replied e.id w, live }) = some m' →
        ∃ ctx : Context, m' = { m with kernel := k₁.replied e.id w, live := ctx.setAnswer w } := by
      intro k₁ w h
      rw [Kernel.contextOf_replied] at h
      obtain ⟨live, hlive, rfl⟩ := Option.map_eq_some_iff.mp h
      obtain ⟨ctx, -, rfl⟩ := Option.map_eq_some_iff.mp hlive
      exact ⟨ctx, rfl⟩
    have hp₁ : Proper n (m.kernel.saved e.id (m.calling c).live).envs m.kernel.memory := hp.touched touched_context
    rw [take_calling hf] at h
    cases hd : Kernel.callSystem .standard cpu e.id (m.calling c).live.callNumber (m.calling c).live.callArguments
        (m.kernel.saved e.id (m.calling c).live) with
    | done r k₁ =>
      rw [Kernel.callTrap_done (e := { e with context := m.live.setCall c.number c.arguments }) hd] at h
      cases hr : r.reschedule with
      | true =>
        rw [hr] at h
        cases h
      | false =>
        rw [hr] at h
        obtain ⟨ctx, rfl⟩ := hleft k₁ r.value h
        rw [calling, Kernel.callSystem_setCall] at hd
        exact ⟨e, k₁, r.value, ctx, rfl, rfl, .inl ⟨r, Kernel.perform_of_callSystem hd, rfl⟩⟩
    | refused cause k₁ =>
      obtain ⟨memory, cycles, rfl, hs, -⟩ :=
        (Kernel.callSystem_effect .standard _ _ hp₁ (Kernel.find?_saved hf)).of_refused hd
      rw [Kernel.callTrap_refused (e := { e with context := m.live.setCall c.number c.arguments }) hd,
        Kernel.rebuked_eq] at h
      obtain ⟨ctx, rfl⟩ := hleft _ _ h
      exact ⟨e, _, _, ctx, rfl, rfl, .inr ⟨cause, Kernel.records_saved, touched_context, hs, rfl⟩⟩
    | halted p =>
      rw [Kernel.callTrap_halted (e := { e with context := m.live.setCall c.number c.arguments }) hd] at h
      cases h

/-- A call that answers with nothing had its effect if it comes back with success, and none if it comes back with an
error. -/
theorem yields_valueless {Q : Unit → Machine → Prop} {E : ErrorCode → Machine → Prop}
    (hp : Proper n m.kernel.envs m.kernel.memory) (hc : c.asks = false)
    (hQ : ∀ t t₁ m', t.records = m.kernel.envs.records → Proper n t m.kernel.memory →
      Effect cpu id t m.kernel.memory c t₁ m'.kernel.memory → m'.kernel.envs.records = t₁.records →
      m'.handlers = m.handlers → Proper n m'.kernel.envs m'.kernel.memory → Q () m')
    (hE : ∀ code m', m.Beside m' → m.kernel.memory.Spent m'.kernel.memory → E code m') :
    Yields cpu id (Program.perform c).run m (either Q E) := by
  refine yields_perform fun m' h => ?_
  obtain ⟨e, k₁, w, ctx, hf, rfl, hcase⟩ := take_cases hp h
  have hanswer : (ctx.setAnswer w).answer = w.toInt64.toInt := Context.answer_setAnswer ..
  simp only [hanswer]
  rcases hcase with ⟨r, hd, rfl⟩ | ⟨cause, hrecords, ht, hs, rfl⟩
  · have hp₁ : Proper n (m.kernel.saved id (m.calling c).live).envs m.kernel.memory := hp.touched touched_context
    have heffect := (Kernel.perform_effect hp₁ (Kernel.find?_saved hf)).of_done hd
    rw [show r.value = 0 from (Kernel.perform_valueless hc).of_done hd]
    exact hQ _ _ _ Kernel.records_saved hp₁ heffect Kernel.records_replied rfl
      ((heffect.proper hp₁).touched touched_context)
  · rw [ErrorCode.toInt_toWord, ErrorCode.check_toReturn]
    exact hE _ _ ⟨Kernel.records_replied.trans hrecords, ht.trans touched_context, rfl⟩ hs

/-- A fork that comes back with an id has made the child of that id; one that comes back with an error has made none. -/
theorem yields_fork {Q : Env.Id → Machine → Prop} {E : ErrorCode → Machine → Prop}
    (hp : Proper n m.kernel.envs m.kernel.memory)
    (hQ : ∀ child space m', m.kernel.envs.records child = none → child.isSelf = false →
      Memory.create m.kernel.memory = .done space m'.kernel.memory →
      m'.kernel.envs.records =
        Function.update m.kernel.envs.records child (some (Env.Table.newborn child id space)) →
      m'.handlers = m.handlers → Proper n m'.kernel.envs m'.kernel.memory → Q child m')
    (hE : ∀ code m', m.Beside m' → m.kernel.memory.Spent m'.kernel.memory → E code m') :
    Yields cpu id Program.fork.run m (either Q E) := by
  refine Yields.bind_part (Q := fun w => Q (.ofWord w)) (yields_issue fun m' h => ?_) fun _ _ hq => yields_done hq
  obtain ⟨e, k₁, w, ctx, hf, rfl, hcase⟩ := take_cases hp h
  have hanswer : (ctx.setAnswer w).answer = w.toInt64.toInt := Context.answer_setAnswer ..
  simp only [hanswer]
  have hp₁ : Proper n (m.kernel.saved id (m.calling .fork).live).envs m.kernel.memory := hp.touched touched_context
  rcases hcase with ⟨r, hd, rfl⟩ | ⟨cause, hrecords, ht, hs, rfl⟩
  · obtain ⟨index, space, hfree, hm, hr, hrecords⟩ :=
      (Kernel.forkEnv_answer hp₁ (Kernel.find?_saved hf)).of_done hd
    have heffect := (Kernel.perform_effect hp₁ (Kernel.find?_saved hf)).of_done hd
    obtain ⟨-, hpos, hlt⟩ := Env.Table.occupy_id hp₁.intact.table hfree id .user space
    have hnone := Env.Table.find?_occupy_fresh hp₁.intact.table hfree id .user space
    generalize Env.Table.occupy _ index id .user space = o at *
    rw [hr, ErrorCode.check_word (ErrorCode.toWord_lt_valueLimit _)]
    show Q (.ofWord o.1.toWord) _
    rw [Env.Id.ofWord_toWord]
    refine hQ o.1 space _ ?_ (Env.Id.not_isSelf hpos) hm ?_ rfl ((heffect.proper hp₁).touched touched_context)
    · rw [← Kernel.records_saved, Env.Table.records, hnone]
      rfl
    · rw [Kernel.records_replied, hrecords, Kernel.records_saved]
  · rw [ErrorCode.toInt_toWord, ErrorCode.check_toReturn]
    exact hE _ _ ⟨Kernel.records_replied.trans hrecords, ht.trans touched_context, rfl⟩ hs

end Simulation.Machine

end Exokernel
