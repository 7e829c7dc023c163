import Mathlib.Data.List.Induction
import Script.Proofs.Identity.Creation
import Script.Proofs.Routine.Consults
import Script.Proofs.Values

/-!
# Object literals

The properties of an object literal are evaluated one after the other, each of them once, and the
first one that fails ends it all.  What the literal comes to is said here without the loop that puts
the properties in: its keys stand where they come first, and each has the value that came with it
last (`collect`).
-/

namespace Script

/-! ## First places and last values -/

/-- The keys in the order in which they come first, each with the value that comes with it last. -/
def collect (pairs : List (String × Value)) : List (String × Value) :=
  (pairs.map Prod.fst).eraseDups.map fun key => (key, (pairs.reverse.lookup key).getD .undefined)

/-- The properties with others put in, one after the other. -/
def insertEach (done pairs : List (String × Value)) : List (String × Value) :=
  pairs.foldl (fun ps p => insertProperty ps p.1 p.2) done

section Collect

variable {ps pairs before after : List (String × Value)} {key k : String} {v : Value}

theorem insertEach_concat (p : String × Value) :
    insertEach ps (pairs ++ [p]) = insertProperty (insertEach ps pairs) p.1 p.2 := by
  rw [insertEach, List.foldl_append]
  rfl

theorem lookup_cons_eq_ite :
    ((key, v) :: ps).lookup k = if k = key then some v else ps.lookup k := by
  by_cases h : k = key
  · subst h
    rw [List.lookup_cons_self, if_pos rfl]
  · rw [List.lookup_cons, beq_eq_false_iff_ne.mpr h, if_neg h]

theorem lookup_insertProperty :
    (insertProperty ps key v).lookup k = if k = key then some v else ps.lookup k := by
  induction ps with
  | nil => exact lookup_cons_eq_ite
  | cons p ps ih =>
    obtain ⟨key', w⟩ := p
    rw [insertProperty]
    by_cases hkey : key' = key
    · subst hkey
      rw [if_pos rfl, lookup_cons_eq_ite, lookup_cons_eq_ite]
      split_ifs <;> rfl
    · rw [if_neg hkey, lookup_cons_eq_ite, lookup_cons_eq_ite, ih]
      by_cases h : k = key'
      · subst h
        rw [if_pos rfl, if_neg hkey, if_pos rfl]
      · rw [if_neg h, if_neg h]

/-- What is put in, one after the other, has the value that comes last. -/
theorem lookup_insertEach : (insertEach [] pairs).lookup k = pairs.reverse.lookup k := by
  induction pairs using List.reverseRecOn with
  | nil => rfl
  | append_singleton pairs p ih =>
    rw [insertEach_concat, lookup_insertProperty, ih, List.reverse_concat]
    exact lookup_cons_eq_ite.symm

theorem eraseDups_concat (keys : List String) (key : String) :
    (keys ++ [key]).eraseDups =
      if key ∈ keys then keys.eraseDups else keys.eraseDups ++ [key] := by
  rw [List.eraseDups_append]
  by_cases h : key ∈ keys
  · have hnone : [key].removeAll keys = [] := by simp [List.removeAll, h]
    rw [hnone, if_pos h]
    exact List.append_nil _
  · have hone : [key].removeAll keys = [key] := by simp [List.removeAll, h]
    rw [hone, if_neg h]
    rfl

/-- What is put in, one after the other, has its keys where they come first. -/
theorem map_fst_insertEach :
    (insertEach [] pairs).map Prod.fst = (pairs.map Prod.fst).eraseDups := by
  induction pairs using List.reverseRecOn with
  | nil => rfl
  | append_singleton pairs p ih =>
    rw [insertEach_concat, Eval.map_fst_insertProperty, ih, List.map_append, List.map_singleton,
      eraseDups_concat]
    simp only [List.mem_eraseDups]

theorem nodup_insertEach : ((insertEach [] pairs).map Prod.fst).Nodup := by
  induction pairs using List.reverseRecOn with
  | nil => exact List.nodup_nil
  | append_singleton pairs p ih =>
    rw [insertEach_concat]
    exact Eval.nodup_insertProperty ih p.1 p.2

/-- Properties with distinct keys are their keys, each with the value that is found under it. -/
theorem map_lookup_of_nodup (h : (ps.map Prod.fst).Nodup) :
    (ps.map Prod.fst).map (fun key => (key, (ps.lookup key).getD .undefined)) = ps := by
  rw [List.map_map]
  refine (List.map_congr_left fun p hp => ?_).trans (List.map_id ps)
  rw [Function.comp_apply, Value.lookup_of_mem h hp]
  rfl

/-- **Putting the properties in one after the other collects them.** -/
theorem insertEach_eq_collect : insertEach [] pairs = collect pairs := by
  rw [collect, ← map_fst_insertEach]
  simp only [← lookup_insertEach]
  exact (map_lookup_of_nodup nodup_insertEach).symm

theorem map_fst_collect : (collect pairs).map Prod.fst = (pairs.map Prod.fst).eraseDups := by
  rw [← insertEach_eq_collect, map_fst_insertEach]

theorem lookup_collect : (collect pairs).lookup k = pairs.reverse.lookup k := by
  rw [← insertEach_eq_collect, lookup_insertEach]

/-- A pair whose key does not come again is the last one for its key. -/
theorem lookup_collect_of_last (h : pairs = before ++ (k, v) :: after)
    (hlast : k ∉ after.map Prod.fst) : (collect pairs).lookup k = some v := by
  have hnone : after.reverse.lookup k = none := by
    rw [List.lookup_eq_none_iff]
    intro p hp
    exact bne_iff_ne.mpr fun heq =>
      hlast (heq ▸ List.mem_map_of_mem (List.mem_reverse.mp hp))
  rw [lookup_collect, h, List.reverse_append, List.reverse_cons, List.append_assoc,
    List.lookup_append, hnone, Option.none_or]
  exact List.lookup_cons_self

theorem lookup_collect_of_notMem (h : k ∉ pairs.map Prod.fst) :
    (collect pairs).lookup k = none := by
  rw [lookup_collect, List.lookup_eq_none_iff]
  intro p hp
  exact bne_iff_ne.mpr fun heq => h (heq ▸ List.mem_map_of_mem (List.mem_reverse.mp hp))

end Collect

/-! ## Properties one after the other -/

namespace Property

/-- What a property asks for: the value of its expression, or nothing if it has none. -/
def task? (scope : Scope) : Property → Option Task
  | keyed _ e _ => some (.expr e scope)
  | shorthand _ _ => none

/-- What comes of a property in a state: what comes of its expression, or else the variable of its
name, which is looked up at that moment. -/
def Comes (limit : Nat) (scope : Scope) : Property → State → Task.Result → State → Prop
  | keyed _ e _, s, outcome, s' =>
    ∃ steps, (Task.expr e scope).run limit steps s = some (outcome, s')
  | shorthand name span, s, outcome, s' =>
    outcome = (s.store.lookup name scope).elim (.error (.unknownVariable name span)) .ok ∧ s' = s

/-- The properties come to these values, each in the state that the one before it left. -/
inductive Evaluated (limit : Nat) (scope : Scope) :
    List Property → List Value → State → State → Prop
  | nil (s : State) : Evaluated limit scope [] [] s s
  | cons {p : Property} {ps : List Property} {v : Value} {vs : List Value} {s s₁ s₂ : State}
      (comes : p.Comes limit scope s (.ok v) s₁) (rest : Evaluated limit scope ps vs s₁ s₂) :
      Evaluated limit scope (p :: ps) (v :: vs) s s₂

end Property

namespace Eval

variable {limit : Nat} {scope : Scope} {p : Property} {entries : List Property}
  {done : List (String × Value)} {s s' : State} {tasks : List Task}
  {outcome : Except RuntimeError (List (String × Value))}

theorem consults_expr_iff {e : Expr} {result : Task.Result} :
    Routine.Consults (body limit) (expr scope e s) tasks result s' ↔ tasks = [.expr e scope] ∧
      ∃ steps, (Task.expr e scope).run limit steps s = some (result, s') :=
  Routine.consults_call_iff

/-- One property, and then the others; or one that fails, and nothing after it. -/
theorem consults_properties_cons :
    Routine.Consults (body limit) (properties scope done (p :: entries) s) tasks outcome s' ↔
      (∃ v s₁ rest, p.Comes limit scope s (.ok v) s₁ ∧
        Routine.Consults (body limit) (properties scope (insertProperty done p.key v) entries s₁)
          rest outcome s' ∧ tasks = (p.task? scope).toList ++ rest) ∨
      ∃ e, p.Comes limit scope s (.error e) s' ∧ tasks = (p.task? scope).toList ∧
        outcome = .error e := by
  cases p with
  | keyed key e span =>
    refine Iff.trans Action.consults_bind_iff (or_congr ?_ ?_)
    · constructor
      · rintro ⟨v, s₁, asked, rest, hexpr, hrest, rfl⟩
        obtain ⟨rfl, hcomes⟩ := consults_expr_iff.mp hexpr
        exact ⟨v, s₁, rest, hcomes, hrest, rfl⟩
      · rintro ⟨v, s₁, rest, hcomes, hrest, rfl⟩
        exact ⟨v, s₁, _, rest, consults_expr_iff.mpr ⟨rfl, hcomes⟩, hrest, rfl⟩
    · constructor
      · rintro ⟨failure, hexpr, rfl⟩
        obtain ⟨rfl, hcomes⟩ := consults_expr_iff.mp hexpr
        exact ⟨failure, hcomes, rfl, rfl⟩
      · rintro ⟨failure, hcomes, rfl, rfl⟩
        exact ⟨failure, consults_expr_iff.mpr ⟨rfl, hcomes⟩, rfl⟩
  | shorthand name span =>
    rw [properties_shorthand]
    simp only [Property.Comes]
    cases s.store.lookup name scope with
    | none =>
      constructor
      · intro h
        obtain ⟨rfl, rfl, rfl⟩ := Routine.consults_done_iff.mp h
        exact .inr ⟨_, ⟨rfl, rfl⟩, rfl, rfl⟩
      · rintro (⟨v, s₁, rest, ⟨hcomes, -⟩, -⟩ | ⟨e, ⟨hcomes, rfl⟩, rfl, rfl⟩)
        · cases hcomes
        · cases hcomes
          exact .done _ _
    | some w =>
      constructor
      · intro h
        exact .inl ⟨w, s, tasks, ⟨rfl, rfl⟩, h, rfl⟩
      · rintro (⟨v, s₁, rest, ⟨hcomes, rfl⟩, hrest, rfl⟩ | ⟨e, ⟨hcomes, -⟩, -⟩)
        · cases hcomes
          exact hrest
        · cases hcomes

/-- **The properties of a literal are evaluated up to the first that fails.** -/
theorem consults_properties_iff :
    Routine.Consults (body limit) (properties scope done entries s) tasks outcome s' ↔
      (∃ values, Property.Evaluated limit scope entries values s s' ∧
        tasks = entries.filterMap (Property.task? scope) ∧
        outcome = .ok (insertEach done ((entries.map Property.key).zip values))) ∨
      ∃ before p after values s₁ e, entries = before ++ p :: after ∧
        Property.Evaluated limit scope before values s s₁ ∧
        p.Comes limit scope s₁ (.error e) s' ∧
        tasks = (before ++ [p]).filterMap (Property.task? scope) ∧ outcome = .error e := by
  have htasks : ∀ (q : Property) (ps : List Property),
      (q :: ps).filterMap (Property.task? scope) =
        (q.task? scope).toList ++ ps.filterMap (Property.task? scope) := by
    intro q ps
    cases h : q.task? scope <;> simp [h]
  induction entries generalizing done s tasks with
  | nil =>
    constructor
    · intro h
      obtain ⟨rfl, rfl, rfl⟩ := Routine.consults_done_iff.mp h
      exact .inl ⟨[], .nil _, rfl, rfl⟩
    · rintro (⟨values, hvalues, rfl, rfl⟩ | ⟨before, q, after, values, s₁, e, hsplit, -⟩)
      · cases hvalues
        exact .done _ _
      · exact absurd hsplit.symm (List.append_ne_nil_of_right_ne_nil _ (List.cons_ne_nil _ _))
  | cons q entries ih =>
    rw [consults_properties_cons]
    constructor
    · rintro (⟨v, s₁, rest, hcomes, hrest, rfl⟩ | ⟨e, hcomes, rfl, rfl⟩)
      · rcases ih.mp hrest with ⟨values, hvalues, rfl, rfl⟩ |
          ⟨before, p, after, values, s₂, e, rfl, hvalues, hfails, rfl, rfl⟩
        · exact .inl ⟨v :: values, .cons hcomes hvalues, (htasks q entries).symm, rfl⟩
        · exact .inr ⟨q :: before, p, after, v :: values, s₂, e, rfl, .cons hcomes hvalues, hfails,
            (htasks q _).symm, rfl⟩
      · exact .inr ⟨[], q, entries, [], s, e, rfl, .nil s, hcomes,
          ((htasks q []).trans (List.append_nil _)).symm, rfl⟩
    · rintro (⟨values, hvalues, rfl, rfl⟩ |
        ⟨before, p, after, values, s₁, e, hsplit, hvalues, hfails, rfl, rfl⟩)
      · cases hvalues with
        | @cons _ _ v values _ s₁ _ hcomes hrest =>
          exact .inl ⟨v, s₁, _, hcomes, ih.mpr (.inl ⟨values, hrest, rfl, rfl⟩), htasks q entries⟩
      · cases hvalues with
        | nil =>
          cases hsplit
          exact .inr ⟨e, hfails, (htasks q []).trans (List.append_nil _), rfl⟩
        | @cons _ before v values _ s₂ _ hcomes hrest =>
          cases hsplit
          exact .inl ⟨v, s₂, _, hcomes,
            ih.mpr (.inr ⟨before, p, after, values, s₁, e, rfl, hrest, hfails, rfl, rfl⟩),
            htasks q _⟩

end Eval

/-- The task comes to this, having asked for these tasks in this order. -/
def Task.Consults (limit : Nat) (task : Task) (s : State) (tasks : List Task)
    (outcome : Task.Result) (s' : State) : Prop :=
  Routine.Consults (Eval.body limit) (Eval.body limit task s) tasks outcome s'

/-- A literal takes an identity after all its properties. -/
theorem Eval.consults_object_iff {limit : Nat} {entries : List Property} {span : Span}
    {scope : Scope} {s s' : State} {tasks : List Task} {outcome : Task.Result} :
    (Task.expr (.object entries span) scope).Consults limit s tasks outcome s' ↔
      (∃ ps s₁, Routine.Consults (body limit) (properties scope [] entries s) tasks (.ok ps) s₁ ∧
        outcome = .ok (.object s₁.nextIdentity ps) ∧
        s' = { s₁ with nextIdentity := s₁.nextIdentity + 1 }) ∨
      ∃ e, Routine.Consults (body limit) (properties scope [] entries s) tasks (.error e) s' ∧
        outcome = .error e := by
  refine Iff.trans Action.consults_bind_iff (or_congr_left ?_)
  constructor
  · rintro ⟨ps, s₁, asked, rest, hfirst, hdone, rfl⟩
    obtain ⟨rfl, rfl, rfl⟩ := Routine.consults_done_iff.mp hdone
    rw [List.append_nil]
    exact ⟨ps, s₁, hfirst, rfl, rfl⟩
  · rintro ⟨ps, s₁, hfirst, rfl, rfl⟩
    exact ⟨ps, s₁, tasks, [], hfirst, .done _ _, (List.append_nil _).symm⟩

/-- **Object literals keep first places and last values.**  A literal comes to an end in one of two
ways.  All its properties are evaluated, each once and one after the other, and it is an object
whose keys stand where they come first and have the value that came last.  Or there is a first
property that fails: then its failure is that of the literal, and no property after it is evaluated.
A member of the object is the value of the last property whose key is the display form of the key
that is asked for, and `undefined` if there is none. -/
theorem Task.object_collects :
    (∀ (limit : Nat) (entries : List Property) (span : Span) (scope : Scope) (s s' : State)
      (outcome : Task.Result),
      ((∃ steps, (Task.expr (.object entries span) scope).run limit steps s =
          some (outcome, s')) ↔
        ∃ tasks, (Task.expr (.object entries span) scope).Consults limit s tasks outcome s') ∧
      ∀ tasks, (Task.expr (.object entries span) scope).Consults limit s tasks outcome s' ↔
        (∃ values s₁, Property.Evaluated limit scope entries values s s₁ ∧
          tasks = entries.filterMap (Property.task? scope) ∧
          outcome = .ok (.object s₁.nextIdentity
            (collect ((entries.map Property.key).zip values))) ∧
          s' = { s₁ with nextIdentity := s₁.nextIdentity + 1 }) ∨
        ∃ before p after values s₁ e, entries = before ++ p :: after ∧
          Property.Evaluated limit scope before values s s₁ ∧
          p.Comes limit scope s₁ (.error e) s' ∧
          tasks = (before ++ [p]).filterMap (Property.task? scope) ∧ outcome = .error e) ∧
    (∀ (pairs : List (String × Value)) (identity : Nat),
      (collect pairs).map Prod.fst = (pairs.map Prod.fst).eraseDups ∧
      (∀ before key v after, pairs = before ++ (key, v) :: after → key ∉ after.map Prod.fst →
        (collect pairs).lookup key = some v) ∧
      ∀ k : Value,
        (∀ before v after, pairs = before ++ (k.display, v) :: after →
          k.display ∉ after.map Prod.fst →
          (Value.object identity (collect pairs)).member? k = some v) ∧
        (k.display ∉ pairs.map Prod.fst →
          (Value.object identity (collect pairs)).member? k = some .undefined)) := by
  have hmember : ∀ (identity : Nat) (ps : List (String × Value)) (k : Value),
      (Value.object identity ps).member? k = some ((ps.lookup k.display).getD .undefined) :=
    fun _ _ _ => rfl
  refine ⟨fun limit entries span scope s s' outcome =>
    ⟨Routine.exists_perform_iff_consults, fun tasks => ?_⟩, fun pairs identity =>
    ⟨map_fst_collect, fun _ _ _ _ h hlast => lookup_collect_of_last h hlast, fun k =>
      ⟨fun before v after h hlast => ?_, fun h => ?_⟩⟩⟩
  · rw [Eval.consults_object_iff]
    constructor
    · rintro (⟨ps, s₁, hproperties, rfl, rfl⟩ | ⟨e, hproperties, rfl⟩)
      · rcases Eval.consults_properties_iff.mp hproperties with
          ⟨values, hvalues, rfl, hps⟩ | ⟨_, _, _, _, _, _, _, _, _, _, hps⟩
        · cases hps
          rw [insertEach_eq_collect]
          exact .inl ⟨values, s₁, hvalues, rfl, rfl, rfl⟩
        · cases hps
      · rcases Eval.consults_properties_iff.mp hproperties with ⟨_, _, _, he⟩ |
          ⟨before, p, after, values, s₁, e', hsplit, hvalues, hcomes, htasks, he⟩
        · cases he
        · cases he
          exact .inr ⟨before, p, after, values, s₁, e, hsplit, hvalues, hcomes, htasks, rfl⟩
    · rintro (⟨values, s₁, hvalues, rfl, rfl, rfl⟩ | hfails)
      · refine .inl ⟨_, s₁, Eval.consults_properties_iff.mpr (.inl ⟨values, hvalues, rfl, rfl⟩), ?_,
          rfl⟩
        rw [insertEach_eq_collect]
      · obtain ⟨before, p, after, values, s₁, e, hsplit, hvalues, hcomes, rfl, rfl⟩ := hfails
        exact .inr ⟨e, Eval.consults_properties_iff.mpr
          (.inr ⟨before, p, after, values, s₁, e, hsplit, hvalues, hcomes, rfl, rfl⟩), rfl⟩
  · rw [hmember, lookup_collect_of_last h hlast, Option.getD_some]
  · rw [hmember, lookup_collect_of_notMem h, Option.getD_none]

/-- A key that comes twice, with a variable in between; and a variable that there is not, with a
property behind it that is not evaluated. -/
theorem Task.object_collects_repeated :
    let session := (Session.bare 1 .unbounded).define "b" (.string "y")
    let last : Property := .keyed "a" (.string "z" .none) .none
    (∃ steps s',
      (Task.expr (.object [.keyed "a" (.string "x" .none) .none, .shorthand "b" .none, last] .none)
        session.scope).run 1 steps session.state =
      some (.ok (.object session.state.nextIdentity [("a", .string "z"), ("b", .string "y")]),
        s')) ∧
    (Value.object 0 (collect [("a", .string "x"), ("b", .string "y"), ("a", .string "z")])).member?
      (.string "a") = some (.string "z") ∧
    (Task.expr (.object [.shorthand "c" .none, last] .none) session.scope).Consults 1 session.state
      [] (.error (.unknownVariable "c" .none)) session.state := by
  intro session last
  have hdisplay : (Value.string "a").display = "a" := Value.display_of_text rfl
  refine ⟨?_, ?_, ?_⟩
  · have hvalues : Property.Evaluated 1 session.scope
        [.keyed "a" (.string "x" .none) .none, .shorthand "b" .none, last]
        [.string "x", .string "y", .string "z"] session.state session.state :=
      .cons ⟨3, rfl⟩ (.cons ⟨rfl, rfl⟩ (.cons ⟨3, rfl⟩ (.nil _)))
    obtain ⟨hruns, hconsults⟩ := object_collects.1 1 _ .none session.scope session.state _ _
    obtain ⟨steps, hrun⟩ := hruns.mpr
      ⟨_, (hconsults _).mpr (.inl ⟨_, _, hvalues, rfl, rfl, rfl⟩)⟩
    exact ⟨steps, _, hrun⟩
  · refine ((object_collects.2 _ 0).2.2 (.string "a")).1
      [("a", .string "x"), ("b", .string "y")] _ [] ?_ List.not_mem_nil
    rw [hdisplay]
    rfl
  · exact ((object_collects.1 1 _ .none session.scope session.state _ _).2 _).mpr
      (.inr ⟨[], _, [last], [], _, _, rfl, .nil _, ⟨rfl, rfl⟩, rfl, rfl⟩)

end Script
