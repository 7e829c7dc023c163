import Script.Proofs.Lockstep.Padding
import Script.Proofs.Names.Binders
import Script.Proofs.Scopes.Isolation

/-!
# Variables that a program does not mention

A program mentions the names that it looks up or assigns and those that it binds.  It cannot tell
whether there is a variable with any other name in the scope that it runs in
(`Session.evaluate_weaken`): the functions that it makes do not mention the name either, and the
native functions among the built-ins take no names from values.

Two heaps are compared that have the same variables but for the names that are hidden
(`Padding.veiled`).  The values of hidden variables may be anything.
-/

namespace Script

/-! ## Mentioned names -/

/-- The names that a node itself looks up, assigns or binds. -/
def Node.Mentions (m : Node) (x : String) : Prop := m.Uses x ∨ m.Binds x

/-- All names that are mentioned in the tree satisfy a condition. -/
def Node.MentionsOnly (name : String → Prop) (root : Node) : Prop :=
  root.Everywhere fun m => ∀ x, m.Mentions x → name x

/-- The name is mentioned somewhere in the program. -/
def Program.Mentions (program : Program) (x : String) : Prop :=
  ∃ root ∈ program.nodes, ∃ m, root.Within m ∧ m.Mentions x

theorem Program.mentionsOnly {program : Program} {hidden : List String}
    (h : ∀ x ∈ hidden, ¬ program.Mentions x) :
    ∀ root ∈ program.nodes, root.MentionsOnly (· ∉ hidden) :=
  fun root hroot m hm x hmentions hx => h x hx ⟨root, hroot, m, hm, hmentions⟩

/-! ## Heaps with hidden variables -/

/-- Frames that stand for each other have the same variables but for the hidden ones.  On the right,
some more identities have been given out. -/
def Padding.veiled (hidden : List String) (shift : Nat) : Padding where
  identity i i' := i' = i + shift
  function f g := f = g ∧ (∀ x ∈ f.parameters, x ∉ hidden) ∧
    ∀ t ∈ f.body, (Node.ofStmt t).MentionsOnly (· ∉ hidden)
  name x := x ∉ hidden
  blank _ := False
  identity_inj i i' j j' hi hj := by omega
  parameters f g h := ⟨congrArg Function.parameters h.1, h.2.1⟩

/-- The comparison of evaluations in heaps with hidden variables. -/
abbrev Likeness.veiled (limit : Nat) (hidden : List String) (shift : Nat) (output : Output) :
    Likeness :=
  .padded limit (.veiled hidden shift) output output

namespace Likeness

variable {limit shift : Nat} {hidden : List String} {output : Output} {κ : Correspondence}
  {a b : Session} {x : String} {v v' : Value}

theorem veiled_lawful : (veiled limit hidden shift output).Lawful := padded_lawful rfl rfl

theorem veiled_admits :
    (veiled limit hidden shift output).Admits (Node.MentionsOnly (· ∉ hidden)) where
  children h hk := h.child hk
  suits h :=
    { uses := fun hx => h.here _ (.inl hx)
      declares := fun hx => h.here _ (.inr (.inl hx))
      makes := fun hf => ⟨rfl, fun x hx => h.here x (.inr (.inr ⟨_, hf, hx⟩)),
        fun _ ht => h.child (hf.mem_children ht)⟩
      raises := fun _ => rfl }

theorem veiled_closed : (veiled limit hidden shift output).Closed
    (Trees.same (Node.MentionsOnly (· ∉ hidden))) :=
  veiled_admits.closed fun _ _ h => ⟨h.1, h.2.2⟩

/-- A hidden variable may be put into the global scope on the right. -/
theorem veiled_define_right (h : (veiled limit hidden shift output).Sessions κ a b)
    (hx : x ∈ hidden) : (veiled limit hidden shift output).Sessions κ a (b.define x v) := by
  obtain ⟨⟨hrelates, hwritten⟩, hplace⟩ := h
  refine ⟨⟨⟨?_, hrelates.identities, hrelates.blank⟩, hwritten⟩, hplace⟩
  exact hrelates.store.declare_right (not_not_intro hx)

/-- A variable may be put into both global scopes, be it hidden or not. -/
theorem veiled_define (h : (veiled limit hidden shift output).Sessions κ a b)
    (hv : (veiled limit hidden shift output).value κ v v') :
    (veiled limit hidden shift output).Sessions κ (a.define x v) (b.define x v') := by
  by_cases hx : x ∈ hidden
  · obtain ⟨⟨hrelates, hwritten⟩, hplace⟩ := h
    refine veiled_define_right ⟨⟨⟨?_, hrelates.identities, hrelates.blank⟩, hwritten⟩, hplace⟩ hx
    exact hrelates.store.declare_left (not_not_intro hx)
  · exact veiled_lawful.define h hx hv

/-- New global scopes are alike, also when more identities have been given out on the right. -/
theorem veiled_renew (session : Session) (hidden : List String) (shift : Nat) : ∃ κ,
    (veiled session.callLimit hidden shift session.state.output).Sessions κ session.renew
      { session.renew with
        state := { session.renew.state with
          nextIdentity := session.renew.state.nextIdentity + shift } } := by
  let nothing : Correspondence := ⟨fun _ _ => False, fun _ => False, nofun, nofun⟩
  have hstore : session.state.store.Corresponds nothing
      ((Padding.veiled hidden shift).matching nothing) (· ∉ hidden) session.state.store :=
    ⟨nofun, nofun, nofun, nofun⟩
  have hempty : ∀ x : String, x ∉ hidden → Option.Rel
      (Value.Match ((Padding.veiled hidden shift).matching nothing))
      (List.lookup x ([] : Bindings)) (List.lookup x ([] : Bindings)) := fun _ _ => .none
  have hallocate := hstore.allocate hempty
  have hextends := Correspondence.extends_addFrame hstore
  refine ⟨nothing.addFrame hstore, ⟨⟨?_, fun k => Nat.add_right_comm _ _ _, nofun⟩, .empty, ?_, ?_⟩,
    .root (.inr ⟨rfl, rfl⟩), .inr ⟨rfl, rfl⟩⟩
  · exact hallocate.mono fun _ _ => Padding.value_mono hextends
  · exact session.state.output.append_empty.symm
  · exact session.state.output.append_empty.symm

/-- With the built-ins on both sides they still are. -/
theorem veiled_builtins (session : Session) (hidden : List String) : ∃ κ,
    (veiled session.callLimit hidden 0 session.state.output).Sessions κ
      session.renew.withBuiltins session.renew.withBuiltins := by
  obtain ⟨κ, h⟩ := veiled_renew session hidden 0
  refine veiled_lawful.withBuiltins ?_ (fun _ _ _ _ _ _ _ => veiled_define) h
  simp [veiled, padded, Padding.native]

/-- With the built-ins on the right only they are alike if these are hidden.  The built-ins take
four identities. -/
theorem veiled_bare (session : Session) : ∃ κ,
    (veiled session.callLimit ["log", "assert"] 4 session.state.output).Sessions κ session.renew
      session.renew.withBuiltins := by
  obtain ⟨κ, h⟩ := veiled_renew session ["log", "assert"] 4
  refine ⟨κ, ?_⟩
  unfold Session.withBuiltins Session.defineNative
  exact veiled_define_right (veiled_define_right h (.head _)) (.tail _ (.head _))

end Likeness

/-! ## Evaluations -/

/-- Without blank frames, padded scopes are renamed. -/
theorem Scope.Padded.renamed {κ : Correspondence} {ρ : Renaming} {s s' : Scope}
    (h : s.Padded κ s') (hframe : ∀ n n', κ.frame n n' → ρ.frame n n')
    (hblank : ∀ n', ¬ κ.blank n') : s.Renamed ρ s' := by
  induction h with
  | root hn => exact .root (hframe _ _ hn)
  | inner hn _ ih => exact .inner (hframe _ _ hn) ih
  | blank hn _ _ => exact absurd hn (hblank _)

namespace Session

/-- Two evaluations came to the same, up to a renaming of frames and identities: values that match
and look alike or the same failure, the same output, and global scopes that stand for each other.
Frames that do have the same variables, but for those with hidden names. -/
def SameBut (hidden : List String) (r r' : Except Diagnostic Value × Session) : Prop :=
  ∃ ρ : Renaming, SameOutcome (fun v v' => v.Match ρ.matching v' ∧ v.LooksLike v') r.1 r'.1 ∧
    r.2.state.output = r'.2.state.output ∧ r.2.state.depth = r'.2.state.depth ∧
    r.2.scope.Renamed ρ r'.2.scope ∧
    ∀ n n', ρ.frame n n' → ∀ x ∉ hidden, Option.Rel (Value.Match ρ.matching)
      ((r.2.state.store.bindings n).lookup x) ((r'.2.state.store.bindings n').lookup x)

variable {a b : Session} {hidden : List String} {shift : Nat} {output : Output}
  {κ : Correspondence}

/-- **Evaluation does not see what is hidden**, step by step. -/
theorem evaluate_sameBut (h : (Likeness.veiled a.callLimit hidden shift output).Sessions κ a b)
    (hlimit : a.callLimit = b.callLimit) (hdepth : a.state.depth = b.state.depth) (steps : Nat)
    (file : String) {program : Program} (hprogram : ∀ x ∈ hidden, ¬ program.Mentions x) :
    Option.Rel (SameBut hidden) (a.evaluate steps file program)
      (b.evaluate steps file program) := by
  let L := Likeness.veiled a.callLimit hidden shift output
  have hlayer : L.Layer (Trees.same (Node.MentionsOnly (· ∉ hidden))) κ
      (.program program.body a.scope) (.program program.body b.scope) :=
    .program (Likeness.Admits.sequence_same (Program.mentionsOnly hprogram)) h.place
  have hrun := Likeness.run_rel Likeness.veiled_lawful Likeness.veiled_closed (fun _ => id) steps
    hlayer ⟨h.state, rfl, hdepth.symm⟩
  unfold evaluate
  rw [← hlimit]
  refine rel_map hrun ?_
  rintro ⟨out, s⟩ ⟨out', s'⟩ ⟨κ₁, hextends, hout, ⟨hrelates, bytes, hbytes, hbytes'⟩, hs, hs'⟩
  let ρ : Renaming := ⟨κ₁.frame, fun i i' => i' = i + shift, κ₁.oneToOne, by omega⟩
  have hrenamed : ∀ {t t' : Scope}, t.Padded κ₁ t' → t.Renamed ρ t' :=
    fun ht => ht.renamed (fun _ _ => id) hrelates.blank
  have hvalue : ∀ v v', L.value κ₁ v v' → v.Match ρ.matching v' := fun v v' hv =>
    hv.mono (fun _ _ => id) (fun _ _ _ _ hc => ⟨hc.1.1, hrenamed hc.2⟩) fun _ _ => trivial
  refine ⟨ρ, ?_, hbytes.trans hbytes'.symm, hs.trans hs'.symm, hrenamed (hextends.padded h.place.1),
    (hrelates.store.mono hvalue).found⟩
  cases hout with
  | ok hv => exact .ok ⟨hvalue _ _ hv, hv.looksLike⟩
  | error he => exact he ▸ .error _

/-- **Weakening.**  A program that does not mention a name runs in a new global scope, with or
without the built-ins, as it does if there is a variable with that name too, whatever its value.  In
particular a program that does not mention the built-ins runs as it does without them. -/
theorem evaluate_weaken (session : Session) (steps : Nat) (file : String) (program : Program) :
    (∀ fresh ∈ [session.renew, session.renew.withBuiltins], ∀ x, ¬ program.Mentions x → ∀ v,
      Option.Rel (SameBut [x]) (fresh.evaluate steps file program)
        ((fresh.define x v).evaluate steps file program)) ∧
    (¬ program.Mentions "log" → ¬ program.Mentions "assert" →
      Option.Rel (SameBut ["log", "assert"]) (session.renew.evaluate steps file program)
        (session.renew.withBuiltins.evaluate steps file program)) := by
  obtain ⟨hlimit, hdepth, -⟩ := renew_keeps session
  constructor
  · intro fresh hfresh x hx v
    obtain ⟨κ, hsame⟩ : ∃ κ,
        (Likeness.veiled fresh.callLimit [x] 0 session.state.output).Sessions κ fresh fresh := by
      rw [List.mem_cons, List.mem_singleton] at hfresh
      rcases hfresh with rfl | rfl
      · exact Likeness.veiled_renew session [x] 0
      · rw [hlimit]
        exact Likeness.veiled_builtins session [x]
    have hdefine := Likeness.veiled_define_right (v := v) hsame List.mem_cons_self
    exact evaluate_sameBut hdefine rfl rfl steps file (List.forall_mem_singleton.mpr hx)
  · intro hlog hassert
    obtain ⟨κ, hbare⟩ := Likeness.veiled_bare session
    refine evaluate_sameBut (a := session.renew) hbare hlimit.symm hdepth.symm steps file ?_
    exact List.forall_mem_cons.mpr ⟨hlog, List.forall_mem_singleton.mpr hassert⟩

/-- A variable that is named as a property is, and an object literal with that property. -/
theorem evaluate_weaken_property :
    let span : Span := ⟨.start, .start⟩
    let object : Expr := .object [.keyed "x" (.constant .true span) span] span
    let program : Program := ⟨[.declaration .letKind [⟨"y", object, span⟩] span], [], span⟩
    let session := Session.bare 1 .unbounded
    (¬ program.Mentions "x" ∧ Option.Rel (SameBut ["x"]) (session.renew.evaluate 30 "" program)
      ((session.renew.define "x" .null).evaluate 30 "" program)) ∧
    ¬ program.Mentions "log" ∧ ¬ program.Mentions "assert" ∧
      Option.Rel (SameBut ["log", "assert"]) (session.renew.evaluate 30 "" program)
        (session.renew.withBuiltins.evaluate 30 "" program) := by
  intro span object program session
  have honly : (Node.declaration .letKind [⟨"y", object, span⟩] span).MentionsOnly (· = "y") := by
    -- One node after another, from the declaration down to the value of the property.
    refine .of_children ?_ (List.forall_mem_singleton.mpr (.of_children ?_
      (List.forall_mem_singleton.mpr (.of_children ?_
      (List.forall_mem_singleton.mpr (.of_children ?_
      (List.forall_mem_singleton.mpr (.of_children ?_ (List.forall_mem_nil _)))))))))
    case refine_2 =>
      rintro x (hx | hx | ⟨f, hf, -⟩)
      · cases hx
      · cases hx
        rfl
      · cases hf
    all_goals
      rintro x (hx | hx | ⟨f, hf, -⟩)
      · cases hx
      · cases hx
      · cases hf
  have hhidden : ∀ x, x ≠ "y" → ¬ program.Mentions x := by
    rintro x hx ⟨root, hroot, m, hm, hmentions⟩
    cases List.mem_singleton.mp hroot
    exact hx (honly m hm x hmentions)
  obtain ⟨hweaken, hbare⟩ := evaluate_weaken session 30 "" program
  have hx := hhidden "x" (by decide)
  have hlog := hhidden "log" (by decide)
  have hassert := hhidden "assert" (by decide)
  exact ⟨⟨hx, hweaken session.renew List.mem_cons_self "x" hx .null⟩, hlog, hassert,
    hbare hlog hassert⟩

end Session

end Script
