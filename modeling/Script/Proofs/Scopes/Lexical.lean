import Script.Proofs.Scopes.Store

/-!
# A store is lexical

The scopes of a store form a forest, which grows by new scopes, declarations and assignments.  What
it should hold can be said without the frames.  A ledger lists what has been stored, the latest
first, and the owner of a name is the nearest scope around, the scope itself included, where
something was stored under the name.  The store agrees with the ledger (`Store.Forest.records`), so
each name has the value that was last stored at its owner, and an operation changes what it should
in every scope of the forest and nothing else (`Store.Forest.lexical`).
-/

namespace Script

/-- The scope and those around it, from the innermost. -/
def Scope.chain : Scope → List Scope
  | .root frame => [.root frame]
  | .inner frame parent => .inner frame parent :: parent.chain

theorem Scope.mem_chain_self (s : Scope) : s ∈ s.chain := by
  cases s <;> exact List.mem_cons_self

/-- A value that was stored in a scope under a name. -/
structure Write where
  scope : Scope
  name : String
  value : Value

/-- All that was stored, the latest first. -/
abbrev Ledger := List Write

namespace Ledger

/-- What was last stored in a scope under a name. -/
def last? (ledger : Ledger) (s : Scope) (m : String) : Option Value :=
  (ledger.find? fun w => w.scope = s ∧ w.name = m).map Write.value

/-- Something was stored in the scope under the name. -/
def Owns (ledger : Ledger) (s : Scope) (m : String) : Prop :=
  ∃ w ∈ ledger, w.scope = s ∧ w.name = m

instance (ledger : Ledger) (s : Scope) (m : String) : Decidable (ledger.Owns s m) :=
  inferInstanceAs (Decidable (∃ w ∈ ledger, w.scope = s ∧ w.name = m))

/-- The nearest scope on a chain that owns the name. -/
def owner? (ledger : Ledger) (m : String) (t : Scope) : Option Scope :=
  t.chain.find? fun s => ledger.Owns s m

/-- From `t` outwards one comes to `s` before any owner of the name. -/
def Reaches (ledger : Ledger) (m : String) (s t : Scope) : Prop :=
  ∃ inside outside, t.chain = inside ++ s :: outside ∧ ∀ u ∈ inside, ¬ ledger.Owns u m

/-- The variables that a scope begins with, as stored in it. -/
def entries (s : Scope) (bindings : Bindings) : Ledger :=
  bindings.map fun (m, v) => ⟨s, m, v⟩

variable {ledger : Ledger} {s t u : Scope} {m x : String} {v : Value} {bindings : Bindings}

theorem isSome_last? : (ledger.last? s m).isSome = true ↔ ledger.Owns s m := by
  simp [last?, Owns]

theorem last?_eq_none : ledger.last? s m = none ↔ ¬ ledger.Owns s m := by
  rw [← isSome_last?, Bool.not_eq_true, Option.isSome_eq_false_iff, Option.isNone_iff_eq_none]

theorem last?_cons : last? (⟨s, x, v⟩ :: ledger) u m =
    if s = u ∧ x = m then some v else ledger.last? u m := by
  by_cases h : s = u ∧ x = m
  · simp [last?, h]
  · rw [if_neg h, last?, List.find?_cons_of_neg (by simpa using h)]
    rfl

theorem owns_cons : Owns (⟨s, x, v⟩ :: ledger) u m ↔ (s = u ∧ x = m) ∨ ledger.Owns u m := by
  simp [Owns]

theorem last?_append {newer : Ledger} :
    last? (newer ++ ledger) u m = (newer.last? u m).or (ledger.last? u m) := by
  rw [last?, List.find?_append, Option.map_or]
  rfl

theorem last?_entries : (entries s bindings).last? s m = bindings.lookup m := by
  induction bindings with
  | nil => rfl
  | cons head tail ih =>
    obtain ⟨x, v⟩ := head
    rw [List.lookup_cons]
    have hentries : entries s ((x, v) :: tail) = ⟨s, x, v⟩ :: entries s tail := rfl
    rw [hentries, last?_cons, ih]
    by_cases hm : m = x
    · simp [hm]
    · rw [if_neg fun h => hm h.2.symm, beq_false_of_ne hm]

theorem scope_of_mem_entries {w : Write} (h : w ∈ entries s bindings) : w.scope = s := by
  obtain ⟨p, -, rfl⟩ := List.mem_map.mp h
  rfl

/-! ## Owners -/

theorem owner?_root {frame : Nat} : ledger.owner? m (.root frame) =
    if ledger.Owns (.root frame) m then some (.root frame) else none := by
  by_cases hm : ledger.Owns (.root frame) m <;> simp [owner?, Scope.chain, hm]

theorem owner?_inner {frame : Nat} {parent : Scope} : ledger.owner? m (.inner frame parent) =
    if ledger.Owns (.inner frame parent) m then some (.inner frame parent)
    else ledger.owner? m parent := by
  by_cases hm : ledger.Owns (.inner frame parent) m <;> simp [owner?, Scope.chain, hm]

theorem owner?_eq_some (h : ledger.owner? m t = some s) : s ∈ t.chain ∧ ledger.Owns s m :=
  ⟨List.mem_of_find?_eq_some h, by simpa using List.find?_some h⟩

/-- The owner depends on the names that are owned only. -/
theorem owner?_congr {ledger' : Ledger} (h : ∀ u, ledger'.Owns u m ↔ ledger.Owns u m) :
    ledger'.owner? m t = ledger.owner? m t := by
  simp only [owner?, h]

/-- A scope that is reached before any owner becomes the owner when something is stored in it. -/
theorem owner?_cons_of_reaches (h : ledger.Reaches x s t) :
    owner? (⟨s, x, v⟩ :: ledger) x t = some s := by
  obtain ⟨inside, outside, hchain, hinside⟩ := h
  rw [owner?, hchain]
  -- The search passes the scopes inside, except that it may meet `s` among them already.
  clear hchain
  induction inside with
  | nil => exact List.find?_cons_of_pos (by simp [owns_cons])
  | cons u inside ih =>
    by_cases hu : s = u
    · subst hu
      exact List.find?_cons_of_pos (by simp [owns_cons])
    · have howns : ¬ ledger.Owns u x := hinside u List.mem_cons_self
      rw [List.cons_append, List.find?_cons_of_neg (by simp [owns_cons, hu, howns])]
      exact ih fun u' hu' => hinside u' (List.mem_cons_of_mem _ hu')

/-- Elsewhere it makes no difference. -/
theorem owner?_cons_of_not_reaches (h : ¬ ledger.Reaches x s t) :
    owner? (⟨s, x, v⟩ :: ledger) x t = ledger.owner? x t := by
  have hsplit : ∀ before after, t.chain = before ++ after → (∀ u ∈ before, ¬ ledger.Owns u x) →
      (after.find? fun u => Owns (⟨s, x, v⟩ :: ledger) u x) =
        after.find? fun u => ledger.Owns u x := by
    intro before after hchain hbefore
    induction after generalizing before with
    | nil => rfl
    | cons u after ih =>
      have hne : s ≠ u := by
        rintro rfl
        exact h ⟨before, after, hchain, hbefore⟩
      by_cases howns : ledger.Owns u x
      · rw [List.find?_cons_of_pos (by simp [owns_cons, howns]),
          List.find?_cons_of_pos (by simp [howns])]
      · rw [List.find?_cons_of_neg (by simp [owns_cons, howns, hne]),
          List.find?_cons_of_neg (by simp [howns])]
        refine ih (before ++ [u]) (by simp [hchain]) fun u' hu' => ?_
        rcases List.mem_append.mp hu' with hu' | hu'
        · exact hbefore u' hu'
        · rwa [List.mem_singleton.mp hu']
  exact hsplit [] t.chain rfl (by simp)

end Ledger

namespace Store

/-- A store that was made by some operations, with its scopes and the ledger of the operations.
Each operation is at a scope of the forest.  A declaration is entered unless the scope owns the
name, and an assignment is entered at the owner of the name, if there is one. -/
inductive Forest : List Scope → Ledger → Store → Prop
  | empty : Forest [] [] .empty
  | root {scopes : List Scope} {ledger : Ledger} {store : Store}
      (forest : Forest scopes ledger store) :
      Forest (store.newRoot.1 :: scopes) ledger store.newRoot.2
  | inner {scopes : List Scope} {ledger : Ledger} {store : Store}
      (forest : Forest scopes ledger store) {parent : Scope} (mem : parent ∈ scopes)
      (bindings : Bindings) :
      Forest ((store.newInner parent bindings).1 :: scopes)
        (.entries (store.newInner parent bindings).1 bindings ++ ledger)
        (store.newInner parent bindings).2
  | declare {scopes : List Scope} {ledger : Ledger} {store : Store}
      (forest : Forest scopes ledger store) {s : Scope} (mem : s ∈ scopes) (x : String)
      (v : Value) :
      Forest scopes (if ledger.Owns s x then ledger else ⟨s, x, v⟩ :: ledger)
        (store.declare s x v).2
  | set {scopes : List Scope} {ledger : Ledger} {store : Store}
      (forest : Forest scopes ledger store) {s : Scope} (mem : s ∈ scopes) (x : String)
      (v : Value) :
      Forest scopes ((ledger.owner? x s).elim ledger fun o => ⟨o, x, v⟩ :: ledger)
        (store.set s x v).2

/-- The scopes have frames of their own, with the values of the ledger in them. -/
structure Records (scopes : List Scope) (ledger : Ledger) (store : Store) : Prop where
  closed : ∀ s ∈ scopes, ∀ u ∈ s.chain, u ∈ scopes
  allocated : ∀ s ∈ scopes, s.frame < store.frames.size
  distinct : ∀ s ∈ scopes, ∀ t ∈ scopes, s.frame = t.frame → s = t
  entered : ∀ w ∈ ledger, w.scope ∈ scopes
  values : ∀ s ∈ scopes, ∀ m, (store.bindings s.frame).lookup m = ledger.last? s m

namespace Records

variable {scopes : List Scope} {ledger : Ledger} {store : Store} {s t : Scope} {m x : String}
  {v : Value}

/-! ## What the store answers -/

theorem owns (h : Records scopes ledger store) (hs : s ∈ scopes) :
    store.owns s.frame m = true ↔ ledger.Owns s m := by
  rw [Store.owns, h.values s hs, Ledger.isSome_last?]

theorem owner?_eq (h : Records scopes ledger store) (ht : t ∈ scopes) :
    store.owner? m t = (ledger.owner? m t).map Scope.frame := by
  have hchain := h.closed t ht
  clear ht
  induction t with
  | root frame =>
    have howns : store.owns frame m = true ↔ _ := h.owns (hchain _ (Scope.mem_chain_self _))
    rw [Store.owner?, Ledger.owner?_root]
    by_cases hm : ledger.Owns (.root frame) m
    · rw [if_pos hm, if_pos (howns.mpr hm)]
      rfl
    · rw [if_neg hm, if_neg (mt howns.mp hm)]
      rfl
  | inner frame parent ih =>
    have howns : store.owns frame m = true ↔ _ := h.owns (hchain _ (Scope.mem_chain_self _))
    rw [Store.owner?, Ledger.owner?_inner]
    by_cases hm : ledger.Owns (.inner frame parent) m
    · rw [if_pos hm, if_pos (howns.mpr hm)]
      rfl
    · rw [if_neg hm, if_neg (mt howns.mp hm)]
      exact ih fun u hu => hchain u (List.mem_cons_of_mem _ hu)

/-- **A name has the value that was last stored at its owner.** -/
theorem lookup_eq (h : Records scopes ledger store) (ht : t ∈ scopes) :
    store.lookup m t = (ledger.owner? m t).bind (ledger.last? · m) := by
  have hchain := h.closed t ht
  clear ht
  induction t with
  | root frame =>
    have hvalues : (store.bindings frame).lookup m = ledger.last? (.root frame) m :=
      h.values _ (hchain _ (Scope.mem_chain_self _)) m
    rw [Store.lookup, hvalues, Ledger.owner?_root]
    by_cases hm : ledger.Owns (.root frame) m
    · rw [if_pos hm]
      rfl
    · rw [if_neg hm, Ledger.last?_eq_none.mpr hm]
      rfl
  | inner frame parent ih =>
    have hvalues : (store.bindings frame).lookup m = ledger.last? (.inner frame parent) m :=
      h.values _ (hchain _ (Scope.mem_chain_self _)) m
    rw [Store.lookup, hvalues, Ledger.owner?_inner]
    by_cases hm : ledger.Owns (.inner frame parent) m
    · obtain ⟨value, hvalue⟩ := Option.isSome_iff_exists.mp (Ledger.isSome_last?.mpr hm)
      rw [if_pos hm, hvalue]
      exact hvalue.symm
    · rw [if_neg hm, Ledger.last?_eq_none.mpr hm]
      exact ih fun u hu => hchain u (List.mem_cons_of_mem _ hu)

theorem lookup_eq_none (h : Records scopes ledger store) (ht : t ∈ scopes) :
    store.lookup m t = none ↔ ledger.owner? m t = none := by
  rw [h.lookup_eq ht]
  cases howner : ledger.owner? m t with
  | none => simp
  | some o =>
    have howns : ledger.Owns o m := (Ledger.owner?_eq_some howner).2
    simp [Ledger.last?_eq_none, howns]

theorem declare_fst (h : Records scopes ledger store) (hs : s ∈ scopes) :
    (store.declare s x v).1 = true ↔ ¬ ledger.Owns s x := by
  rw [← h.owns hs, Store.declare]
  by_cases howns : store.owns s.frame x = true <;> simp [howns]

theorem set_fst (h : Records scopes ledger store) (hs : s ∈ scopes) :
    (store.set s x v).1 = true ↔ ledger.owner? x s ≠ none := by
  rw [Store.set, h.owner?_eq hs]
  cases ledger.owner? x s <;> simp

/-! ## What the operations keep -/

/-- A new scope, with a frame that no other scope has. -/
theorem newScope (h : Records scopes ledger store) (bindings : Bindings)
    (hframe : s.frame = store.frames.size) (hchain : ∀ u ∈ s.chain, u = s ∨ u ∈ scopes) :
    Records (s :: scopes) (.entries s bindings ++ ledger) (store.allocate bindings).2 := by
  have hlt : ∀ t ∈ scopes, t.frame < s.frame := fun t ht => hframe ▸ h.allocated t ht
  have hfresh : s ∉ scopes := fun hs => Nat.lt_irrefl _ (hlt s hs)
  constructor
  · intro t ht u hu
    rcases List.mem_cons.mp ht with rfl | ht
    · exact List.mem_cons.mpr (hchain u hu)
    · exact List.mem_cons_of_mem _ (h.closed t ht u hu)
  · intro t ht
    have hsize : (store.allocate bindings).2.frames.size = store.frames.size + 1 :=
      Array.size_push _
    rcases List.mem_cons.mp ht with rfl | ht
    · omega
    · have := h.allocated t ht
      omega
  · intro t ht u hu heq
    rcases List.mem_cons.mp ht with rfl | hold <;> rcases List.mem_cons.mp hu with rfl | hold'
    · rfl
    · exact absurd heq.symm (Nat.ne_of_lt (hlt u hold'))
    · exact absurd heq (Nat.ne_of_lt (hlt t hold))
    · exact h.distinct t hold u hold' heq
  · intro w hw
    rcases List.mem_append.mp hw with hw | hw
    · rw [Ledger.scope_of_mem_entries hw]
      exact List.mem_cons_self
    · exact List.mem_cons_of_mem _ (h.entered w hw)
  · intro t ht m
    rw [bindings_allocate, Ledger.last?_append]
    rcases List.mem_cons.mp ht with rfl | ht
    · have hnone : ledger.last? t m = none := by
        refine Ledger.last?_eq_none.mpr ?_
        rintro ⟨w, hw, rfl, -⟩
        exact hfresh (h.entered w hw)
      rw [if_pos hframe, Ledger.last?_entries, hnone, Option.or_none]
    · have hnone : Ledger.last? (.entries s bindings) t m = none := by
        refine Ledger.last?_eq_none.mpr ?_
        rintro ⟨w, hw, rfl, -⟩
        exact hfresh (Ledger.scope_of_mem_entries hw ▸ ht)
      rw [if_neg (Nat.ne_of_lt (h.allocated t ht)), hnone, Option.none_or]
      exact h.values t ht m

/-- An operation that changes the value of one name in one scope. -/
theorem write (h : Records scopes ledger store) {o : Scope} (ho : o ∈ scopes) {store' : Store}
    (hsize : store'.frames.size = store.frames.size)
    (hvalues : ∀ f m, (store'.bindings f).lookup m =
      if f = o.frame ∧ m = x then some v else (store.bindings f).lookup m) :
    Records scopes (⟨o, x, v⟩ :: ledger) store' := by
  refine ⟨h.closed, fun s hs => hsize ▸ h.allocated s hs, h.distinct, ?_, ?_⟩
  · intro w hw
    rcases List.mem_cons.mp hw with rfl | hw
    · exact ho
    · exact h.entered w hw
  · intro s hs m
    rw [hvalues, Ledger.last?_cons, h.values s hs]
    have hiff : s.frame = o.frame ∧ m = x ↔ o = s ∧ x = m := by
      constructor
      · rintro ⟨hframe, rfl⟩
        exact ⟨h.distinct o ho s hs hframe.symm, rfl⟩
      · rintro ⟨rfl, rfl⟩
        exact ⟨rfl, rfl⟩
    simp only [hiff]

theorem declare (h : Records scopes ledger store) (hs : s ∈ scopes) (hnew : ¬ ledger.Owns s x) :
    Records scopes (⟨s, x, v⟩ :: ledger) (store.declare s x v).2 := by
  have howns : store.owns s.frame x = false := by
    simpa using mt (h.owns hs).mp hnew
  refine h.write hs size_declare fun f m => ?_
  rw [lookup_bindings_declare]
  by_cases hf : f = s.frame
  · subst hf
    simp [howns, h.allocated s hs]
  · simp [hf]

theorem set (h : Records scopes ledger store) (hs : s ∈ scopes) {o : Scope}
    (howner : ledger.owner? x s = some o) :
    Records scopes (⟨o, x, v⟩ :: ledger) (store.set s x v).2 := by
  have ho : o ∈ scopes := h.closed s hs o (Ledger.owner?_eq_some howner).1
  refine h.write ho size_set fun f m => ?_
  rw [lookup_bindings_set, h.owner?_eq hs, howner, Option.map_some]
  simp only [Option.some.injEq, eq_comm]

end Records

/-! ## Failed operations -/

theorem declare_failed {store : Store} {s : Scope} {x : String} {v : Value}
    (h : (store.declare s x v).1 = false) : (store.declare s x v).2 = store := by
  unfold declare at h ⊢
  split at h
  · next howns => rw [if_pos howns]
  · cases h

theorem set_failed {store : Store} {s : Scope} {x : String} {v : Value}
    (h : (store.set s x v).1 = false) : (store.set s x v).2 = store := by
  unfold set at h ⊢
  cases howner : store.owner? x s with
  | none => rfl
  | some frame =>
    rw [howner] at h
    cases h

namespace Forest

variable {scopes : List Scope} {ledger : Ledger} {store : Store}

/-- **The store agrees with the ledger** after any number of operations. -/
theorem records (h : Forest scopes ledger store) : Records scopes ledger store := by
  induction h with
  | empty => exact ⟨by simp, by simp, by simp, by simp, by simp⟩
  | root _ ih =>
    exact ih.newScope [] rfl fun u hu => .inl (List.mem_singleton.mp hu)
  | inner _ mem bindings ih =>
    refine ih.newScope bindings rfl fun u hu => ?_
    rcases List.mem_cons.mp hu with rfl | hu
    · exact .inl rfl
    · exact .inr (ih.closed _ mem u hu)
  | @declare _ _ store _ s mem x v ih =>
    split
    · next howns =>
      have hfail : (store.declare s x v).1 = false :=
        Bool.eq_false_iff.mpr (mt (ih.declare_fst mem).mp (not_not_intro howns))
      rw [declare_failed hfail]
      exact ih
    · next hnew => exact ih.declare mem hnew
  | @set _ ledger store _ s mem x v ih =>
    cases howner : ledger.owner? x s with
    | none =>
      have hfail : (store.set s x v).1 = false :=
        Bool.eq_false_iff.mpr (mt (ih.set_fst mem).mp (not_not_intro howner))
      rw [set_failed hfail]
      exact ih
    | some o => exact ih.set mem howner

/-- A declaration that succeeds gives its value to the name wherever its scope is reached first. -/
theorem lookup_declare (h : Forest scopes ledger store) {s t : Scope} {x m : String} {v : Value}
    (hs : s ∈ scopes) (ht : t ∈ scopes) (hnew : ¬ ledger.Owns s x) :
    (ledger.Reaches x s t → (store.declare s x v).2.lookup x t = some v) ∧
    (¬ (m = x ∧ ledger.Reaches x s t) →
      (store.declare s x v).2.lookup m t = store.lookup m t) := by
  have hrecords := h.records.declare (v := v) hs hnew
  rw [hrecords.lookup_eq ht, hrecords.lookup_eq ht, h.records.lookup_eq ht]
  constructor
  · intro hreaches
    rw [Ledger.owner?_cons_of_reaches hreaches]
    simp [Ledger.last?_cons]
  · intro hother
    have howner : Ledger.owner? (⟨s, x, v⟩ :: ledger) m t = ledger.owner? m t := by
      by_cases hm : m = x
      · subst hm
        exact Ledger.owner?_cons_of_not_reaches fun hreaches => hother ⟨rfl, hreaches⟩
      · exact Ledger.owner?_congr fun u => by simp [Ledger.owns_cons, Ne.symm hm]
    rw [howner]
    refine Option.bind_congr fun o ho => ?_
    have hne : ¬ (s = o ∧ x = m) := by
      rintro ⟨rfl, rfl⟩
      exact hnew (Ledger.owner?_eq_some ho).2
    rw [Ledger.last?_cons, if_neg hne]

/-- An assignment that succeeds gives its value to the name in all scopes with the same owner. -/
theorem lookup_set (h : Forest scopes ledger store) {s t o : Scope} {x m : String} {v : Value}
    (hs : s ∈ scopes) (ht : t ∈ scopes) (ho : ledger.owner? x s = some o) :
    (store.set s x v).2.lookup m t =
      if m = x ∧ ledger.owner? x t = some o then some v else store.lookup m t := by
  have howns : ledger.Owns o x := (Ledger.owner?_eq_some ho).2
  have hsame : Ledger.owner? (⟨o, x, v⟩ :: ledger) m t = ledger.owner? m t := by
    refine Ledger.owner?_congr fun u => ?_
    rw [Ledger.owns_cons, or_iff_right_of_imp]
    rintro ⟨rfl, rfl⟩
    exact howns
  rw [(h.records.set hs ho).lookup_eq ht, h.records.lookup_eq ht, hsame]
  split
  · next hsee =>
    obtain ⟨rfl, howner⟩ := hsee
    rw [howner]
    simp [Ledger.last?_cons]
  · next hother =>
    refine Option.bind_congr fun o' ho' => ?_
    have hne : ¬ (o = o' ∧ x = m) := by
      rintro ⟨rfl, rfl⟩
      exact hother ⟨rfl, ho'⟩
    rw [Ledger.last?_cons, if_neg hne]

/-- **A store is lexical.**  A name means what was last written under it in its owner, the nearest
scope outwards that has the name.  A declaration goes through unless its own scope has the name, and
is then seen from those scopes that reach this one before any other owner; an assignment goes
through if there is an owner, and is then seen from those scopes that have the same one.  Nothing
else is seen to change, an assignment gives no scope a new name, and what does not go through
changes nothing at all. -/
theorem lexical (h : Forest scopes ledger store) :
    (∀ t ∈ scopes, ∀ m,
      (store.owns t.frame m = true ↔ ledger.Owns t m) ∧
      store.lookup m t = (ledger.owner? m t).bind (ledger.last? · m) ∧
      (store.lookup m t = none ↔ ledger.owner? m t = none)) ∧
    (∀ s ∈ scopes, ∀ x v,
      ((store.declare s x v).1 = true ↔ ¬ ledger.Owns s x) ∧
      ((store.declare s x v).1 = true → ∀ t ∈ scopes, ∀ m,
        (ledger.Reaches x s t → (store.declare s x v).2.lookup x t = some v) ∧
        (¬ (m = x ∧ ledger.Reaches x s t) →
          (store.declare s x v).2.lookup m t = store.lookup m t)) ∧
      ((store.declare s x v).1 = false → (store.declare s x v).2 = store)) ∧
    (∀ s ∈ scopes, ∀ x v,
      ((store.set s x v).1 = true ↔ ∃ o, ledger.owner? x s = some o) ∧
      ((store.set s x v).1 = true →
        (∀ t ∈ scopes, ∀ m, (store.set s x v).2.lookup m t =
          if m = x ∧ ledger.owner? x t = ledger.owner? x s then some v else store.lookup m t) ∧
        ∀ t ∈ scopes, ∀ m, (store.set s x v).2.owns t.frame m = store.owns t.frame m) ∧
      ((store.set s x v).1 = false → (store.set s x v).2 = store)) := by
  have hrecords := h.records
  refine ⟨fun t ht m => ?_, fun s hs x v => ?_, fun s hs x v => ?_⟩
  · exact ⟨hrecords.owns ht, hrecords.lookup_eq ht, hrecords.lookup_eq_none ht⟩
  · refine ⟨hrecords.declare_fst hs, fun hdone t ht m => ?_, declare_failed⟩
    exact h.lookup_declare hs ht ((hrecords.declare_fst hs).mp hdone)
  · have hfst := hrecords.set_fst (x := x) (v := v) hs
    rw [Option.ne_none_iff_exists'] at hfst
    refine ⟨hfst, fun hdone => ⟨fun t ht m => ?_, fun t ht m => owns_set⟩, set_failed⟩
    obtain ⟨o, ho⟩ := hfst.mp hdone
    rw [h.lookup_set hs ht ho, ho]

/-- A global variable, shadowed by the one of an inner scope. -/
theorem lexical_shadowed :
    let outer : Scope := .root 0
    let inner : Scope := .inner 1 outer
    let store : Store := ⟨#[[("x", .boolean true)], [("x", .null)]]⟩
    Forest [inner, outer] [⟨inner, "x", .null⟩, ⟨outer, "x", .boolean true⟩] store ∧
      (store.set inner "x" .undefined).2.lookup "x" inner = some .undefined ∧
      (store.set inner "x" .undefined).2.lookup "x" outer = some (.boolean true) := by
  intro outer inner store
  have hforest : Forest [inner, outer] [⟨inner, "x", .null⟩, ⟨outer, "x", .boolean true⟩] store :=
    .declare (.inner (.declare (.root .empty) List.mem_cons_self "x" (.boolean true))
      List.mem_cons_self []) List.mem_cons_self "x" .null
  obtain ⟨hlookup, -, hset⟩ := lexical hforest
  obtain ⟨-, hdone, -⟩ := hset inner List.mem_cons_self "x" .undefined
  have hother := (hdone rfl).1
  refine ⟨hforest, ?_, ?_⟩
  · rw [hother inner List.mem_cons_self, if_pos ⟨rfl, rfl⟩]
  · rw [hother outer (by decide), if_neg (by decide)]
    exact (hlookup outer (by decide) "x").2.1

end Forest

end Store

end Script
