import Script.Proofs.Lockstep.Match
import Script.Proofs.Scopes.Store

/-!
# Stores that correspond

A `Correspondence` says which frames of two stores stand for each other, one to one.  It need not
cover the stores.  Some frames of the second store may be blank: they stand for nothing, and no name
that is of interest is found in them, so a chain of frames may have blank ones in between
(`Scope.Padded`).

`Store.Corresponds` says that frames that stand for each other have variables that match, as far as
the names are of interest.  The operations on stores keep it, whichever names these are and whatever
it takes for two values to match.
-/

namespace Script

/-- Which frames of two stores stand for each other. -/
structure Correspondence where
  frame : Nat → Nat → Prop
  /-- The frames of the second store that stand for nothing. -/
  blank : Nat → Prop
  oneToOne : ∀ n n' k k', frame n n' → frame k k' → (n = k ↔ n' = k')
  apart : ∀ n n', frame n n' → ¬ blank n'

/-- The frames of the first scope stand for those of the second one that are not blank. -/
inductive Scope.Padded (κ : Correspondence) : Scope → Scope → Prop
  | root {n n' : Nat} (h : κ.frame n n') : Padded κ (.root n) (.root n')
  | inner {n n' : Nat} {p p' : Scope} (h : κ.frame n n') (parent : Padded κ p p') :
      Padded κ (.inner n p) (.inner n' p')
  | blank {n' : Nat} {s s' : Scope} (h : κ.blank n') (around : Padded κ s s') :
      Padded κ s (.inner n' s')

/-- Frames that stand for each other have variables that match, and blank ones have none. -/
structure Store.Corresponds (κ : Correspondence) (m : Matching) (name : String → Prop)
    (store store' : Store) : Prop where
  frames : ∀ n n', κ.frame n n' → n < store.frames.size ∧ n' < store'.frames.size
  blanks : ∀ n', κ.blank n' → n' < store'.frames.size
  found : ∀ n n', κ.frame n n' → ∀ x, name x → Option.Rel (Value.Match m)
    ((store.bindings n).lookup x) ((store'.bindings n').lookup x)
  empty : ∀ n', κ.blank n' → ∀ x, name x → (store'.bindings n').lookup x = none

namespace Correspondence

/-- One-to-one relations stay so with one more pair that is new on both sides. -/
theorem inj_insert {r : Nat → Nat → Prop} (h : ∀ n n' m m', r n n' → r m m' → (n = m ↔ n' = m'))
    {bound bound' : Nat} (hbound : ∀ n n', r n n' → n < bound ∧ n' < bound') (n n' m m' : Nat)
    (hn : r n n' ∨ n = bound ∧ n' = bound') (hm : r m m' ∨ m = bound ∧ m' = bound') :
    n = m ↔ n' = m' := by
  rcases hn with hn | ⟨rfl, rfl⟩ <;> rcases hm with hm | ⟨rfl, rfl⟩
  · exact h n n' m m' hn hm
  · have := hbound n n' hn
    omega
  · have := hbound m m' hm
    omega
  · exact ⟨fun _ => rfl, fun _ => rfl⟩

/-- The correspondence extends another. -/
structure Extends (κ κ₁ : Correspondence) : Prop where
  frame : ∀ n n', κ.frame n n' → κ₁.frame n n'
  blank : ∀ n', κ.blank n' → κ₁.blank n'

variable {κ κ₁ κ₂ : Correspondence} {m : Matching} {name : String → Prop} {store store' : Store}
  {s s' : Scope}

theorem Extends.refl (κ : Correspondence) : κ.Extends κ := ⟨fun _ _ => id, fun _ => id⟩

theorem Extends.trans (h : κ.Extends κ₁) (h₁ : κ₁.Extends κ₂) : κ.Extends κ₂ :=
  ⟨fun n n' hn => h₁.frame n n' (h.frame n n' hn), fun n' hn => h₁.blank n' (h.blank n' hn)⟩

theorem Extends.padded (h : κ.Extends κ₁) (hs : s.Padded κ s') : s.Padded κ₁ s' := by
  induction hs with
  | root hn => exact .root (h.frame _ _ hn)
  | inner hn _ ih => exact .inner (h.frame _ _ hn) ih
  | blank hn _ ih => exact .blank (h.blank _ hn) ih

/-- The frames that are allocated next stand for each other, too. -/
def addFrame (κ : Correspondence) (h : store.Corresponds κ m name store') : Correspondence where
  frame n n' := κ.frame n n' ∨ n = store.frames.size ∧ n' = store'.frames.size
  blank := κ.blank
  oneToOne := inj_insert κ.oneToOne h.frames
  apart n n' hn hblank := by
    rcases hn with hn | ⟨-, rfl⟩
    · exact κ.apart n n' hn hblank
    · exact Nat.lt_irrefl _ (h.blanks _ hblank)

/-- The frame that is allocated next in the second store is blank. -/
def addBlank (κ : Correspondence) (h : store.Corresponds κ m name store') : Correspondence where
  frame := κ.frame
  blank n' := κ.blank n' ∨ n' = store'.frames.size
  oneToOne := κ.oneToOne
  apart n n' hn hblank := by
    rcases hblank with hblank | rfl
    · exact κ.apart n n' hn hblank
    · exact Nat.lt_irrefl _ (h.frames n _ hn).2

theorem extends_addFrame (h : store.Corresponds κ m name store') : κ.Extends (κ.addFrame h) :=
  ⟨fun _ _ => .inl, fun _ => id⟩

theorem extends_addBlank (h : store.Corresponds κ m name store') : κ.Extends (κ.addBlank h) :=
  ⟨fun _ _ => id, fun _ => .inl⟩

end Correspondence

namespace Store.Corresponds

open Correspondence

variable {κ : Correspondence} {m m' : Matching} {name : String → Prop} {store store' : Store}
  {scope scope' : Scope} {x : String} {v v' : Value}

/-- What is found still matches when more matches than before. -/
theorem mono (h : store.Corresponds κ m name store')
    (hm : ∀ v v', Value.Match m v v' → Value.Match m' v v') :
    store.Corresponds κ m' name store' := by
  refine ⟨h.frames, h.blanks, fun n n' hn x hx => ?_, h.empty⟩
  have hfound := h.found n n' hn x hx
  generalize (store.bindings n).lookup x = o, (store'.bindings n').lookup x = o' at hfound ⊢
  cases hfound with
  | none => exact .none
  | some hv => exact .some (hm _ _ hv)

theorem owns_eq (h : store.Corresponds κ m name store') {n n' : Nat} (hn : κ.frame n n')
    (hx : name x) : store.owns n x = store'.owns n' x := by
  have hfound := h.found n n' hn x hx
  unfold Store.owns
  generalize (store.bindings n).lookup x = o, (store'.bindings n').lookup x = o' at hfound ⊢
  cases hfound with
  | none => rfl
  | some _ => rfl

/-- A name is found in frames that stand for each other, with values that match. -/
theorem lookup (h : store.Corresponds κ m name store') (hscope : scope.Padded κ scope')
    (hx : name x) :
    Option.Rel (Value.Match m) (store.lookup x scope) (store'.lookup x scope') := by
  induction hscope with
  | root hn => exact h.found _ _ hn x hx
  | @inner n n' p p' hn _ ih =>
    have hfound := h.found n n' hn x hx
    rw [Store.lookup, Store.lookup]
    generalize (store.bindings n).lookup x = o, (store'.bindings n').lookup x = o' at hfound ⊢
    cases hfound with
    | none => exact ih
    | some hv => exact .some hv
  | blank hn _ ih =>
    rw [Store.lookup, h.empty _ hn x hx]
    exact ih

/-- The frames that own a name stand for each other. -/
theorem owner? (h : store.Corresponds κ m name store') (hscope : scope.Padded κ scope')
    (hx : name x) : Option.Rel κ.frame (store.owner? x scope) (store'.owner? x scope') := by
  induction hscope with
  | root hn =>
    rw [Store.owner?, Store.owner?, h.owns_eq hn hx]
    split
    · exact .some hn
    · exact .none
  | inner hn _ ih =>
    rw [Store.owner?, Store.owner?, h.owns_eq hn hx]
    split
    · exact .some hn
    · exact ih
  | @blank n' s s' hn _ ih =>
    have howns : store'.owns n' x = false := by
      rw [Store.owns, h.empty n' hn x hx]
      rfl
    rw [Store.owner?, howns]
    exact ih

/-- A name is declared in frames that stand for each other. -/
theorem declare (h : store.Corresponds κ m name store')
    (hframe : κ.frame scope.frame scope'.frame) (hx : name x) (hv : v.Match m v') :
    (store.declare scope x v).1 = (store'.declare scope' x v').1 ∧
      (store.declare scope x v).2.Corresponds κ m name (store'.declare scope' x v').2 := by
  refine ⟨?_, ?_, ?_, ?_, ?_⟩
  · unfold Store.declare
    rw [h.owns_eq hframe hx]
    split <;> rfl
  · intro n n' hn
    rw [Store.size_declare, Store.size_declare]
    exact h.frames n n' hn
  · intro n' hn
    rw [Store.size_declare]
    exact h.blanks n' hn
  · intro n n' hn y hy
    -- A pair of frames is the one that is declared in on both sides or on neither.
    have hsize := h.frames n n' hn
    have hsame : n = scope.frame ↔ n' = scope'.frame := κ.oneToOne _ _ _ _ hn hframe
    rw [Store.lookup_bindings_declare, Store.lookup_bindings_declare, ← h.owns_eq hn hx]
    simp only [hsame, hsize, true_and]
    split
    · exact .some hv
    · exact h.found n n' hn y hy
  · intro n' hn y hy
    have hne : n' ≠ scope'.frame := fun heq => κ.apart _ _ hframe (heq ▸ hn)
    rw [Store.bindings_declare_of_ne hne]
    exact h.empty n' hn y hy

/-- A name that is of no interest may be declared anywhere in the first store. -/
theorem declare_left (h : store.Corresponds κ m name store') (hx : ¬ name x) :
    (store.declare scope x v).2.Corresponds κ m name store' where
  frames := by
    rw [Store.size_declare]
    exact h.frames
  blanks := h.blanks
  found n n' hn y hy := by
    have hne : y ≠ x := fun heq => hx (heq ▸ hy)
    rw [Store.lookup_bindings_declare_of_ne hne]
    exact h.found n n' hn y hy
  empty := h.empty

/-- A name that is of no interest may be declared anywhere in the second store. -/
theorem declare_right (h : store.Corresponds κ m name store') (hx : ¬ name x) :
    store.Corresponds κ m name (store'.declare scope x v).2 where
  frames := by
    rw [Store.size_declare]
    exact h.frames
  blanks := by
    rw [Store.size_declare]
    exact h.blanks
  found n n' hn y hy := by
    have hne : y ≠ x := fun heq => hx (heq ▸ hy)
    rw [Store.lookup_bindings_declare_of_ne hne]
    exact h.found n n' hn y hy
  empty n' hn y hy := by
    have hne : y ≠ x := fun heq => hx (heq ▸ hy)
    rw [Store.lookup_bindings_declare_of_ne hne]
    exact h.empty n' hn y hy

/-- A name is assigned in frames that stand for each other, wherever it is found. -/
theorem set (h : store.Corresponds κ m name store') (hscope : scope.Padded κ scope')
    (hx : name x) (hv : v.Match m v') :
    (store.set scope x v).1 = (store'.set scope' x v').1 ∧
      (store.set scope x v).2.Corresponds κ m name (store'.set scope' x v').2 := by
  have howner := h.owner? hscope hx
  refine ⟨?_, ?_, ?_, ?_, ?_⟩
  · unfold Store.set
    generalize store.owner? x scope = o, store'.owner? x scope' = o' at howner ⊢
    cases howner with
    | none => rfl
    | some _ => rfl
  · intro n n' hn
    rw [Store.size_set, Store.size_set]
    exact h.frames n n' hn
  · intro n' hn
    rw [Store.size_set]
    exact h.blanks n' hn
  · intro n n' hn y hy
    have hsame : store.owner? x scope = some n ↔ store'.owner? x scope' = some n' := by
      generalize store.owner? x scope = o, store'.owner? x scope' = o' at howner ⊢
      cases howner with
      | none => exact ⟨nofun, nofun⟩
      | some hk =>
        rw [Option.some.injEq, Option.some.injEq]
        exact κ.oneToOne _ _ _ _ hk hn
    rw [Store.lookup_bindings_set, Store.lookup_bindings_set]
    simp only [hsame]
    split
    · exact .some hv
    · exact h.found n n' hn y hy
  · intro n' hn y hy
    have hne : store'.owner? x scope' ≠ some n' := by
      intro heq
      rw [heq] at howner
      generalize store.owner? x scope = o at howner
      cases howner with
      | some hk => exact κ.apart _ _ hk hn
    rw [Store.bindings_set_of_ne hne]
    exact h.empty n' hn y hy

/-- Two new frames with variables that match stand for each other. -/
theorem allocate (h : store.Corresponds κ m name store') {b b' : Bindings}
    (hb : ∀ x, name x → Option.Rel (Value.Match m) (b.lookup x) (b'.lookup x)) :
    (store.allocate b).2.Corresponds (κ.addFrame h) m name (store'.allocate b').2 where
  frames n n' hn := by
    simp only [Store.allocate, Array.size_push]
    rcases hn with hn | ⟨rfl, rfl⟩
    · have := h.frames n n' hn
      omega
    · omega
  blanks n' hn := by
    have := h.blanks n' hn
    simp only [Store.allocate, Array.size_push]
    omega
  found n n' hn x hx := by
    rw [Store.bindings_allocate, Store.bindings_allocate]
    rcases hn with hn | ⟨rfl, rfl⟩
    · have hsize := h.frames n n' hn
      rw [if_neg (Nat.ne_of_lt hsize.1), if_neg (Nat.ne_of_lt hsize.2)]
      exact h.found n n' hn x hx
    · rw [if_pos rfl, if_pos rfl]
      exact hb x hx
  empty n' hn x hx := by
    rw [Store.bindings_allocate, if_neg (Nat.ne_of_lt (h.blanks n' hn))]
    exact h.empty n' hn x hx

/-- A new frame of the second store may be blank. -/
theorem allocate_blank (h : store.Corresponds κ m name store') :
    store.Corresponds (κ.addBlank h) m name (store'.allocate []).2 where
  frames n n' hn := by
    have := h.frames n n' hn
    simp only [Store.allocate, Array.size_push]
    omega
  blanks n' hn := by
    simp only [Store.allocate, Array.size_push]
    rcases hn with hn | rfl
    · have := h.blanks n' hn
      omega
    · omega
  found n n' hn x hx := by
    rw [Store.bindings_allocate, if_neg (Nat.ne_of_lt (h.frames n n' hn).2)]
    exact h.found n n' hn x hx
  empty n' hn x hx := by
    rw [Store.bindings_allocate]
    split
    · rfl
    · next hne => exact h.empty n' (hn.resolve_right hne) x hx

end Store.Corresponds

end Script
