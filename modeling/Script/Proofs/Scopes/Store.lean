import Script.Store

/-!
# What the operations of a store do to its frames

For each operation, which frames have which variables afterwards, in terms of the frames before.  A
declaration adds one name to one frame; an assignment adds none; a new frame leaves the others as
they were.
-/

namespace Script

namespace Bindings

/-- An assignment changes no names. -/
theorem isSome_lookup_assign (bindings : Bindings) (name : String) (value : Value) (m : String) :
    ((bindings.assign name value).lookup m).isSome = (bindings.lookup m).isSome := by
  induction bindings with
  | nil => rfl
  | cons head rest ih =>
    obtain ⟨n, v⟩ := head
    have hcons : assign ((n, v) :: rest) name value =
        (if n = name then (n, value) else (n, v)) :: assign rest name value := rfl
    rw [hcons]
    by_cases hm : m = n
    · subst hm
      split <;> simp
    · have hne : (m == n) = false := beq_false_of_ne hm
      split <;> simp only [List.lookup_cons, hne, ih]

/-- A variable holds what it held before, or what was assigned. -/
theorem mem_assign {bindings : Bindings} {name : String} {value : Value} {x : String × Value}
    (h : x ∈ bindings.assign name value) : x ∈ bindings ∨ x.2 = value := by
  obtain ⟨⟨n, v⟩, hy, rfl⟩ := List.mem_map.mp h
  by_cases hn : n = name
  · exact .inr (congrArg Prod.snd (if_pos hn))
  · refine .inl ?_
    show (if n = name then (n, value) else (n, v)) ∈ bindings
    rwa [if_neg hn]

theorem mem_of_lookup {bindings : Bindings} {name : String} {value : Value}
    (h : bindings.lookup name = some value) : (name, value) ∈ bindings := by
  obtain ⟨before, after, rfl, -⟩ := List.lookup_eq_some_iff.mp h
  simp

theorem isSome_lookup {bindings : Bindings} {x : String} :
    (bindings.lookup x).isSome = true ↔ x ∈ bindings.map Prod.fst := by
  induction bindings with
  | nil => simp
  | cons head rest ih =>
    rw [List.lookup_cons, List.map_cons, List.mem_cons, ← ih]
    by_cases hx : x = head.1
    · simp [hx]
    · simp [hx, beq_false_of_ne hx]

/-- An assignment replaces the value of its name. -/
theorem lookup_assign (bindings : Bindings) (name : String) (value : Value) (m : String) :
    (bindings.assign name value).lookup m =
      if m = name then (bindings.lookup m).map fun _ => value else bindings.lookup m := by
  induction bindings with
  | nil => simp [assign]
  | cons head tail ih =>
    obtain ⟨n, v⟩ := head
    have hassign : assign ((n, v) :: tail) name value =
        (n, if n = name then value else v) :: assign tail name value := by
      by_cases hn : n = name <;> simp [assign, hn]
    have htail : List.lookup m (assign tail name value) = _ := ih
    rw [hassign, List.lookup_cons, List.lookup_cons, htail]
    by_cases hm : m = n
    · by_cases hn : n = name <;> simp [hm, hn]
    · simp [beq_false_of_ne hm]

end Bindings

namespace Store

variable {store : Store} {scope : Scope} {name m : String} {value : Value} {bindings : Bindings}
  {f : Nat} {x : String × Value}

theorem bindings_allocate :
    (store.allocate bindings).2.bindings f =
      if f = store.frames.size then bindings else store.bindings f := by
  show (store.frames.push bindings)[f]?.getD [] = _
  rw [Array.getElem?_push]
  split
  · rfl
  · rfl

theorem bindings_modify (frame : Nat) (change : Bindings → Bindings) :
    Store.bindings ⟨store.frames.modify frame change⟩ f =
      if f = frame ∧ f < store.frames.size then change (store.bindings f)
      else store.bindings f := by
  show (store.frames.modify frame change)[f]?.getD [] = _
  rw [Array.getElem?_modify]
  by_cases hframe : frame = f
  · subst hframe
    rw [if_pos rfl]
    by_cases hsize : frame < store.frames.size
    · rw [if_pos ⟨rfl, hsize⟩]
      simp [Store.bindings, hsize]
    · rw [if_neg fun h => hsize h.2]
      simp [Store.bindings, hsize]
  · rw [if_neg hframe, if_neg fun h => hframe h.1.symm]
    rfl

/-! ## Names -/

/-- A new frame leaves the names of the others as they were. -/
theorem owns_allocate (hf : f < store.frames.size) :
    (store.allocate bindings).2.owns f m = store.owns f m := by
  rw [owns, bindings_allocate, if_neg (Nat.ne_of_lt hf)]
  rfl

/-- **A declaration adds its name to the innermost frame**, and no other name anywhere. -/
theorem owns_declare : (store.declare scope name value).2.owns f m = true ↔
    store.owns f m = true ∨ f = scope.frame ∧ m = name ∧ f < store.frames.size := by
  unfold declare
  split
  · next howns =>
    refine ⟨.inl, ?_⟩
    rintro (h | ⟨rfl, rfl, -⟩)
    · exact h
    · exact howns
  · show (Store.bindings ⟨_⟩ f |>.lookup m).isSome = true ↔ _
    rw [bindings_modify]
    split
    · next hf =>
      rw [List.lookup_cons]
      by_cases hm : m = name
      · rw [hm, beq_self_eq_true]
        exact ⟨fun _ => .inr ⟨hf.1, rfl, hf.2⟩, fun _ => rfl⟩
      · rw [beq_false_of_ne hm]
        exact ⟨.inl, fun h => h.resolve_right fun h => hm h.2.1⟩
    · next hf =>
      refine ⟨.inl, ?_⟩
      rintro (h | ⟨hframe, -, hsize⟩)
      · exact h
      · exact absurd ⟨hframe, hsize⟩ hf

/-- An assignment leaves all names as they were. -/
theorem owns_set : (store.set scope name value).2.owns f m = store.owns f m := by
  unfold set
  split
  · rfl
  · show (Store.bindings ⟨_⟩ f |>.lookup m).isSome = _
    rw [bindings_modify]
    split
    · exact Bindings.isSome_lookup_assign _ _ _ _
    · rfl

/-! ## Variables -/

theorem mem_bindings_allocate (h : x ∈ (store.allocate bindings).2.bindings f) :
    x ∈ store.bindings f ∨ x ∈ bindings := by
  rw [bindings_allocate] at h
  split at h
  · exact .inr h
  · exact .inl h

theorem mem_bindings_declare (h : x ∈ (store.declare scope name value).2.bindings f) :
    x ∈ store.bindings f ∨ x.2 = value := by
  unfold declare at h
  split at h
  · exact .inl h
  · rw [bindings_modify] at h
    split at h
    · rcases List.mem_cons.mp h with rfl | h
      · exact .inr rfl
      · exact .inl h
    · exact .inl h

theorem mem_bindings_set (h : x ∈ (store.set scope name value).2.bindings f) :
    x ∈ store.bindings f ∨ x.2 = value := by
  unfold set at h
  split at h
  · exact .inl h
  · rw [bindings_modify] at h
    split at h
    · exact Bindings.mem_assign h
    · exact .inl h

/-- What is looked up is a variable of some frame. -/
theorem mem_of_lookup (h : store.lookup name scope = some value) :
    ∃ f, (name, value) ∈ store.bindings f := by
  induction scope with
  | root frame => exact ⟨frame, Bindings.mem_of_lookup h⟩
  | inner frame parent ih =>
    rw [lookup] at h
    split at h
    · next found =>
      cases h
      exact ⟨frame, Bindings.mem_of_lookup found⟩
    · exact ih h

/-! ## The value of a name in one frame -/

theorem lt_size_of_owns (h : store.owns f name = true) : f < store.frames.size := by
  refine Decidable.byContradiction fun hf => ?_
  simp [owns, Store.bindings, hf] at h

theorem bindings_declare_of_ne (h : f ≠ scope.frame) :
    (store.declare scope name value).2.bindings f = store.bindings f := by
  unfold declare
  split
  · rfl
  · rw [bindings_modify, if_neg fun hf => h hf.1]

/-- A declaration gives a value to its name, in the innermost frame and if it is new there. -/
theorem lookup_bindings_declare :
    ((store.declare scope name value).2.bindings f).lookup m =
      if (f = scope.frame ∧ f < store.frames.size ∧ store.owns f name = false) ∧ m = name then
        some value
      else (store.bindings f).lookup m := by
  by_cases hf : f = scope.frame
  · subst hf
    unfold declare
    by_cases howns : store.owns scope.frame name = true
    · simp [howns]
    · rw [if_neg howns, bindings_modify]
      by_cases hsize : scope.frame < store.frames.size
      · by_cases hm : m = name
        · simp [hsize, hm, howns]
        · simp [hsize, hm, List.lookup_cons, beq_false_of_ne hm]
      · simp [hsize]
  · rw [bindings_declare_of_ne hf, if_neg fun h => hf h.1.1]

theorem lookup_bindings_declare_of_ne (h : m ≠ name) :
    ((store.declare scope name value).2.bindings f).lookup m = (store.bindings f).lookup m := by
  rw [lookup_bindings_declare, if_neg fun hnew => h hnew.2]

/-- The owner of a name is a frame on the chain that has it. -/
theorem owner?_eq_some (h : store.owner? name scope = some f) :
    f ∈ scope.frames ∧ store.owns f name = true := by
  induction scope with
  | root frame =>
    rw [owner?] at h
    split at h
    · next howns =>
      cases h
      exact ⟨List.mem_cons_self, howns⟩
    · cases h
  | inner frame parent ih =>
    rw [owner?] at h
    split at h
    · next howns =>
      cases h
      exact ⟨List.mem_cons_self, howns⟩
    · exact ⟨List.mem_cons_of_mem _ (ih h).1, (ih h).2⟩

theorem bindings_set_of_ne (h : store.owner? name scope ≠ some f) :
    (store.set scope name value).2.bindings f = store.bindings f := by
  unfold set
  split
  · rfl
  · next frame howner =>
    have hne : f ≠ frame := fun hf => h (hf ▸ howner)
    rw [bindings_modify, if_neg fun hf => hne hf.1]

/-- An assignment changes the value of its name in the frame that owns it. -/
theorem lookup_bindings_set :
    ((store.set scope name value).2.bindings f).lookup m =
      if store.owner? name scope = some f ∧ m = name then some value
      else (store.bindings f).lookup m := by
  by_cases howner : store.owner? name scope = some f
  · have howns := (owner?_eq_some howner).2
    have hset : (store.set scope name value).2.bindings f =
        (store.bindings f).assign name value := by
      simp only [set, howner]
      rw [bindings_modify, if_pos ⟨rfl, lt_size_of_owns howns⟩]
    rw [hset, Bindings.lookup_assign]
    by_cases hm : m = name
    · obtain ⟨old, hold⟩ := Option.isSome_iff_exists.mp howns
      simp [howner, hm, hold]
    · simp [hm]
  · rw [bindings_set_of_ne howner, if_neg fun h => howner h.1]

/-! ## Number of frames -/

theorem size_declare : (store.declare scope name value).2.frames.size = store.frames.size := by
  unfold declare
  split
  · rfl
  · exact Array.size_modify

theorem size_set : (store.set scope name value).2.frames.size = store.frames.size := by
  unfold set
  split
  · rfl
  · exact Array.size_modify

end Store

end Script
