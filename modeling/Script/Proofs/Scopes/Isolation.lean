import Script.Proofs.Lockstep.Renaming
import Script.Proofs.Sessions

/-!
# What evaluation does not see

Evaluation depends on the part of the heap that it can reach, and on nothing else.  What it cannot
reach it leaves as it was, and where this part is the same up to a renaming of frames and
identities, it does the same (`evaluation_isolated`).  In particular a program that runs in a new
global scope cannot tell what the session has been used for before.
-/

namespace Script

/-- What can be seen of values from outside is the same: their types, their display forms, and which
number they are. -/
structure Value.LooksLike (v v' : Value) : Prop where
  typeName : v.typeName = v'.typeName
  display : v.display = v'.display
  number : ∀ n, v = .number n ↔ v' = .number n

theorem Value.Match.looksLike {m : Matching} {v v' : Value} (h : v.Match m v') :
    v.LooksLike v' where
  typeName := h.typeName
  display := h.display
  number n := by cases h <;> simp

/-- Both outcomes are values that are alike, or the same failure at the same place. -/
inductive SameOutcome {ε : Type} (alike : Value → Value → Prop) :
    Except ε Value → Except ε Value → Prop
  | ok {v v' : Value} (h : alike v v') : SameOutcome alike (.ok v) (.ok v')
  | error (e : ε) : SameOutcome alike (.error e) (.error e)

/-- Apart from their heaps, the states are the same for an evaluation. -/
structure State.SameContext (s s' : State) : Prop where
  depth : s.depth = s'.depth
  room : s.output.room = s'.output.room
  flushFails : s.output.flushFails = s'.output.flushFails

/-- Runs from `s` and `s'` came to the same, up to a renaming that extends `ρ`: values that match
and look alike or the same failure, heaps that are the same in all that is renamed, the depth that
there was, and the same bytes written. -/
def Renaming.Agrees (ρ : Renaming) (s s' : State) (r r' : Task.Result × State) : Prop :=
  ∃ ρ₁ bytes, ρ.Extends ρ₁ ∧
    SameOutcome (fun v v' => v.Match ρ₁.matching v' ∧ v.LooksLike v') r.1 r'.1 ∧
    ρ₁.Relates r.2 r'.2 ∧ r.2.depth = s.depth ∧ r'.2.depth = s'.depth ∧
    r.2.output = s.output.append bytes ∧ r'.2.output = s'.output.append bytes

variable {limit steps : Nat} {task task' : Task} {state state' state₁ : State}

/-- **Nothing happens outside of what can be reached.** -/
theorem Task.run_unreached {outcome : Task.Result}
    (hrun : task.run limit steps state = some (outcome, state')) {n : Nat}
    (hn : n < state.store.frames.size) (hunreached : ¬ state.store.Reached task.Holds n) :
    state'.store.bindings n = state.store.bindings n := by
  obtain ⟨region, hregion, hsealed, -, -⟩ :=
    Task.run_sealed (fun _ => True) (fun _ _ _ => trivial) trivial hrun
  exact hsealed.outside n hn fun h => hunreached (hregion n hn h)

/-- **Evaluation goes through under a renaming**, step by step. -/
theorem Renaming.Relates.run {ρ : Renaming} (h : ρ.Relates state state₁) (limit steps : Nat)
    (hcontext : state.SameContext state₁)
    (htask : task.Match (Scope.Renamed ρ) (Value.Match ρ.matching) task') :
    Option.Rel (ρ.Agrees state state₁) (task.run limit steps state)
      (task'.run limit steps state₁) := by
  let L := Likeness.renamed limit state.output state₁.output
  have hlawful : L.Lawful := Likeness.renamed_lawful hcontext.room hcontext.flushFails
  have hat : L.At ρ state.depth state state₁ := by
    refine ⟨⟨h, .empty, ?_, ?_⟩, rfl, hcontext.depth.symm⟩
    · exact state.output.append_empty.symm
    · exact state₁.output.append_empty.symm
  have hended : Option.Rel (L.Final ρ state.depth) (task.run limit steps state)
      (task'.run limit steps state₁) :=
    Likeness.run_rel hlawful Likeness.renamed_closed (fun _ => id) steps
      (Likeness.renamed_reflexive.layer htask) hat
  generalize task.run limit steps state = o, task'.run limit steps state₁ = o' at hended ⊢
  cases hended with
  | none => exact .none
  | @some r r' hfinal =>
    obtain ⟨ρ₁, hextends, hout, ⟨hrelates, bytes, hbytes, hbytes'⟩, hdepth, hdepth'⟩ := hfinal
    refine .some ⟨ρ₁, bytes, hextends, ?_, hrelates, hdepth, ?_, hbytes, hbytes'⟩
    · generalize r.1 = out, r'.1 = out' at hout ⊢
      cases hout with
      | ok hv => exact .ok ⟨hv, hv.looksLike⟩
      | error he => exact he ▸ .error _
    · exact hdepth'.trans hcontext.depth

/-! ## Sessions -/

theorem rel_map {α β γ δ : Type} {r : α → β → Prop} {r' : γ → δ → Prop} {o : Option α}
    {o' : Option β} {f : α → γ} {g : β → δ} (h : Option.Rel r o o')
    (hmap : ∀ x y, r x y → r' (f x) (g y)) : Option.Rel r' (o.map f) (o'.map g) := by
  cases h with
  | none => exact .none
  | some hxy => exact .some (hmap _ _ hxy)

namespace Likeness

variable {L : Likeness} {w : L.World} {a b : Session}

/-- The sessions have states and global scopes that are alike. -/
structure Sessions (L : Likeness) (w : L.World) (a b : Session) : Prop where
  state : L.state w a.state b.state
  place : L.place w a.scope b.scope

theorem Lawful.freshSession (hL : L.Lawful) (h : L.Sessions w a b) :
    ∃ w₁, L.le w w₁ ∧ L.Sessions w₁ a.freshIdentity.2 b.freshIdentity.2 ∧
      L.identity w₁ a.freshIdentity.1 b.freshIdentity.1 := by
  obtain ⟨w₁, hle, hstate, hidentity⟩ := hL.fresh h.state
  exact ⟨w₁, hle, ⟨hstate, hL.place_mono hle h.place⟩, hidentity⟩

theorem Lawful.define (hL : L.Lawful) (h : L.Sessions w a b) {x : String} (hx : L.binder x)
    {v v' : Value} (hv : L.value w v v') : L.Sessions w (a.define x v) (b.define x v') :=
  ⟨(hL.declare h.state h.place hx hv).2, h.place⟩

/-- The built-ins are alike wherever they are put, if variables with their names are. -/
theorem Lawful.withBuiltins (hL : L.Lawful)
    (hnative : ∀ n ∈ [Native.write, .writeLine, .assert], L.native n)
    (hdefine : ∀ x ∈ ["log", "assert"], ∀ (w : L.World) (a b : Session) (v v' : Value),
      L.Sessions w a b → L.value w v v' → L.Sessions w (a.define x v) (b.define x v'))
    (h : L.Sessions w a b) : ∃ w₁, L.Sessions w₁ a.withBuiltins b.withBuiltins := by
  rw [List.forall_mem_cons, List.forall_mem_cons, List.forall_mem_singleton] at hnative
  rw [List.forall_mem_cons, List.forall_mem_singleton] at hdefine
  obtain ⟨w₁, _, h₁, hwrite⟩ := hL.freshSession h
  obtain ⟨w₂, hle₂, h₂, hwriteLine⟩ := hL.freshSession h₁
  obtain ⟨w₃, hle₃, h₃, hlog⟩ := hL.freshSession h₂
  have hwrite₃ := hL.identity_mono hle₃ (hL.identity_mono hle₂ hwrite)
  have hwriteLine₃ := hL.identity_mono hle₃ hwriteLine
  have hnatives : L.entries w₃
      [(Native.name .write, .native a.freshIdentity.1 .write),
       (Native.name .writeLine, .native a.freshIdentity.2.freshIdentity.1 .writeLine)]
      [(Native.name .write, .native b.freshIdentity.1 .write),
       (Native.name .writeLine, .native b.freshIdentity.2.freshIdentity.1 .writeLine)] :=
    .cons ⟨rfl, .native hwrite₃ hnative.1⟩ (.cons ⟨rfl, .native hwriteLine₃ hnative.2.1⟩ .nil)
  have hlogged := hdefine.1 w₃ _ _ _ _ h₃ (.ofProperties hlog hnatives)
  obtain ⟨w₄, _, h₄, hassert⟩ := hL.freshSession hlogged
  exact ⟨w₄, hdefine.2 w₄ _ _ _ _ h₄ (.native hassert hnative.2.2)⟩

end Likeness

namespace Session

variable {a b first session : Session} {file : String} {program : Program}

/-- New global scopes with the built-ins are the same up to a renaming, whatever else there is in
the heaps. -/
theorem relates_renew (h : a.state.SameContext b.state) :
    ∃ ρ : Renaming, ρ.Relates a.renew.withBuiltins.state b.renew.withBuiltins.state ∧
      a.renew.withBuiltins.scope.Renamed ρ b.renew.withBuiltins.scope := by
  let L := Likeness.renamed a.callLimit a.state.output b.state.output
  have hlawful : L.Lawful := Likeness.renamed_lawful h.room h.flushFails
  have hnothing : Renaming.nothing.Relates a.state b.state :=
    ⟨fun _ _ h => h.elim, fun _ _ h => h.elim, fun _ _ h => h.elim⟩
  have hroots :
      L.Sessions (Renaming.nothing.addFrame a.state b.state hnothing) a.renew b.renew := by
    refine ⟨⟨hnothing.allocate fun _ => .none, .empty, ?_, ?_⟩, .root (.inr ⟨rfl, rfl⟩)⟩
    · exact a.state.output.append_empty.symm
    · exact b.state.output.append_empty.symm
  obtain ⟨ρ, hstate, hscope⟩ := hlawful.withBuiltins (fun _ _ => trivial)
    (fun _ _ _ _ _ _ _ h hv => hlawful.define h trivial hv) hroots
  exact ⟨ρ, hstate.1, hscope⟩

/-- Two evaluations from the sessions `a` and `b` give the same answer: values that look alike or
the same failure, and the same bytes written. -/
def SameAnswer (a b : Session) (r r' : Except Diagnostic Value × Session) : Prop :=
  SameOutcome Value.LooksLike r.1 r'.1 ∧ ∃ bytes,
    r.2.state.output = a.state.output.append bytes ∧ r'.2.state.output = b.state.output.append bytes

/-- A new global scope leaves all else as it was. -/
theorem renew_keeps (session : Session) :
    session.renew.withBuiltins.callLimit = session.callLimit ∧
      session.renew.withBuiltins.state.depth = session.state.depth ∧
      session.renew.withBuiltins.state.output = session.state.output := by
  simp only [renew, withBuiltins, defineNative, define, freshIdentity, State.onStore,
    State.freshIdentity, and_self]

/-- In a new global scope, a program gives the same answer in every session. -/
theorem evaluate_renew (hlimit : a.callLimit = b.callLimit) (h : a.state.SameContext b.state)
    (steps : Nat) (file : String) (program : Program) : Option.Rel (SameAnswer a b)
      (a.renew.withBuiltins.evaluate steps file program)
      (b.renew.withBuiltins.evaluate steps file program) := by
  obtain ⟨ρ, hrelates, hscope⟩ := relates_renew h
  obtain ⟨hlimita, hdeptha, houtputa⟩ := renew_keeps a
  obtain ⟨hlimitb, hdepthb, houtputb⟩ := renew_keeps b
  have hcontext : a.renew.withBuiltins.state.SameContext b.renew.withBuiltins.state := by
    constructor
    · rw [hdeptha, hdepthb, h.depth]
    · rw [houtputa, houtputb, h.room]
    · rw [houtputa, houtputb, h.flushFails]
  have hrun := hrelates.run a.callLimit steps hcontext (.program program.body hscope)
  unfold evaluate
  rw [hlimita, hlimitb, ← hlimit]
  refine rel_map hrun ?_
  rintro ⟨out, s⟩ ⟨out', s'⟩ ⟨ρ₁, bytes, -, hout, -, -, -, hbytes, hbytes'⟩
  rw [houtputa] at hbytes
  rw [houtputb] at hbytes'
  refine ⟨?_, bytes, hbytes, hbytes'⟩
  cases hout with
  | ok hv => exact .ok hv.2
  | error e => exact .error _

/-- A history leaves the context as it was, but for the room that the output has. -/
theorem Past.sameContext (h : first.Past session)
    (hroom : first.state.output.limit = none ∨
      session.state.output.room = first.state.output.room) :
    first.state.SameContext session.state where
  depth := h.steady.depth.symm
  room := by
    rcases hroom with hnone | hroom
    · rw [Output.room, Output.room, h.steady.outputLimit, hnone]
      rfl
    · exact hroom.symm
  flushFails := h.steady.flushFails.symm

end Session

/-- **Evaluation depends on what it can reach and on nothing else.**

* A frame that the task cannot reach is afterwards exactly what it was.
* From another heap, where what the task can reach is the same up to a renaming, and in the same
  context, it comes to the same in as many steps, up to an extension of that renaming.
* A program gives the same answer in a new global scope, whatever the session has been used for.
  Only an output with a bound could tell, when there is less room than before. -/
theorem evaluation_isolated (limit steps : Nat) (task : Task) (state : State) :
    (∀ outcome state', task.run limit steps state = some (outcome, state') →
      ∀ n < state.store.frames.size, ¬ state.store.Reached task.Holds n →
        state'.store.bindings n = state.store.bindings n) ∧
    (∀ (ρ : Renaming) (task' : Task) (state₁ : State), ρ.Relates state state₁ →
      task.Match (Scope.Renamed ρ) (Value.Match ρ.matching) task' → state.SameContext state₁ →
      Option.Rel (ρ.Agrees state state₁) (task.run limit steps state)
        (task'.run limit steps state₁)) ∧
    ∀ (first session : Session) (file : String) (program : Program), first.Past session →
      first.state.output.limit = none ∨ session.state.output.room = first.state.output.room →
      Option.Rel (first.SameAnswer session)
        (first.renew.withBuiltins.evaluate steps file program)
        (session.renew.withBuiltins.evaluate steps file program) := by
  refine ⟨?_, ?_, ?_⟩
  · exact fun outcome state' hrun n hn hunreached => Task.run_unreached hrun hn hunreached
  · exact fun ρ task' state₁ hrelates htask hcontext => hrelates.run limit steps hcontext htask
  · intro first session file program hpast hroom
    exact Session.evaluate_renew hpast.steady.callLimit.symm (hpast.sameContext hroom) steps file
      program

/-- Two heaps with the frame that is of interest in different places, and a session in which a call
has failed. -/
theorem evaluation_isolated_variable :
    let span : Span := ⟨.start, .start⟩
    let x : Expr := .var "x" span
    let state : State := ⟨⟨#[[("x", .null)], [("y", .null)]]⟩, 0, 0, .unbounded⟩
    let state₁ : State := ⟨⟨#[[("y", .undefined)], [("x", .null)]]⟩, 5, 0, .unbounded⟩
    let call : Stmt := .expr (.call (.function none ⟨[], [.expr x], span⟩) [] span)
    let program : Program := ⟨[call], [], span⟩
    let first := Session.start 1 .unbounded
    (∃ outcome state', (Task.expr x (.root 0)).run 1 5 state = some (outcome, state') ∧
      state'.store.bindings 1 = state.store.bindings 1) ∧
    (∃ ρ : Renaming, ρ.frame 0 1 ∧ Option.Rel (ρ.Agrees state state₁)
      ((Task.expr x (.root 0)).run 1 5 state) ((Task.expr x (.root 1)).run 1 5 state₁)) ∧
    ∃ outcome session, first.evaluate 30 "" program = some (outcome, session) ∧
      Option.Rel (first.SameAnswer session) (first.renew.withBuiltins.evaluate 5 "" program)
        (session.renew.withBuiltins.evaluate 5 "" program) := by
  intro span x state state₁ call program first
  obtain ⟨hunreached, hrenamed, hsessions⟩ := evaluation_isolated 1 5 (.expr x (.root 0)) state
  refine ⟨?_, ?_, ?_⟩
  · obtain ⟨outcome, state', hrun⟩ : ∃ outcome state',
        (Task.expr x (.root 0)).run 1 5 state = some (outcome, state') := ⟨_, _, rfl⟩
    refine ⟨outcome, state', hrun, hunreached outcome state' hrun 1 (by decide) ?_⟩
    rintro ⟨s, hs, hframe⟩
    have hroot : s = .root 0 := by
      refine Store.Reaches.eq_root hs fun y v f t hv hinside => ?_
      cases List.mem_singleton.mp (Bindings.mem_of_lookup hv)
      cases hinside
    subst hroot
    cases hframe
  · let ρ : Renaming := ⟨fun n n' => n = 0 ∧ n' = 1, fun _ _ => False,
      fun n n' m m' hn hm => by omega, nofun⟩
    have hrelates : ρ.Relates state state₁ := by
      refine ⟨?_, nofun, ?_⟩
      · rintro n n' ⟨rfl, rfl⟩
        decide
      · rintro n n' ⟨rfl, rfl⟩ y
        exact Value.Match.lookup (.cons ⟨rfl, .null⟩ .nil) y
    exact ⟨ρ, ⟨rfl, rfl⟩, hrenamed ρ _ state₁ hrelates (.expr x (.root ⟨rfl, rfl⟩)) ⟨rfl, rfl, rfl⟩⟩
  · obtain ⟨outcome, session, hstep⟩ : ∃ outcome session,
        first.evaluate 30 "" program = some (outcome, session) := ⟨_, _, rfl⟩
    exact ⟨outcome, session, hstep, hsessions first session "" program (.evaluate .start hstep)
      (.inl rfl)⟩

end Script
