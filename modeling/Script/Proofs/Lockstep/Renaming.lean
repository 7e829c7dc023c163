import Script.Proofs.Lockstep.Correspondence
import Script.Proofs.Lockstep.Runs
import Script.Proofs.Lockstep.Same
import Script.Proofs.Output

/-!
# Heaps up to renaming

Frames and identities are numbers that are given out one after another, so the same script gets
other numbers in a heap with another history.  A `Renaming` says which numbers of two heaps stand
for each other.  It need not cover the heaps: it relates a part of the one to a part of the other,
and `Renaming.Relates` says that these parts are the same, frame by frame and name by name.

Evaluation cannot tell them apart.  `Likeness.renamed` is the comparison of two evaluations up to a
renaming, which grows by the numbers that both sides give out at the same time.
-/

namespace Script

/-- Which numbers of two heaps stand for each other. -/
structure Renaming where
  frame : Nat → Nat → Prop
  identity : Nat → Nat → Prop
  frame_inj : ∀ n n' m m', frame n n' → frame m m' → (n = m ↔ n' = m')
  identity_inj : ∀ i i' j j', identity i i' → identity j j' → (i = j ↔ i' = j')

/-- The scopes have frames that stand for each other. -/
inductive Scope.Renamed (ρ : Renaming) : Scope → Scope → Prop
  | root {n n' : Nat} (h : ρ.frame n n') : Renamed ρ (.root n) (.root n')
  | inner {n n' : Nat} {p p' : Scope} (h : ρ.frame n n') (parent : Renamed ρ p p') :
      Renamed ρ (.inner n p) (.inner n' p')

namespace Renaming

/-- Functions stand for each other if they have the same text and were made in scopes that do. -/
def matching (ρ : Renaming) : Matching where
  identity := ρ.identity
  closure f s g t := f = g ∧ s.Renamed ρ t
  native _ := True

/-- The renaming extends another. -/
structure Extends (ρ ρ₁ : Renaming) : Prop where
  frame : ∀ n n', ρ.frame n n' → ρ₁.frame n n'
  identity : ∀ i i', ρ.identity i i' → ρ₁.identity i i'

/-- The numbers that stand for each other have been given out, and frames that stand for each other
have variables that do. -/
structure Relates (ρ : Renaming) (s s' : State) : Prop where
  frames : ∀ n n', ρ.frame n n' → n < s.store.frames.size ∧ n' < s'.store.frames.size
  identities : ∀ i i', ρ.identity i i' → i < s.nextIdentity ∧ i' < s'.nextIdentity
  bindings : ∀ n n', ρ.frame n n' → ∀ x, Option.Rel (Value.Match ρ.matching)
    ((s.store.bindings n).lookup x) ((s'.store.bindings n').lookup x)

/-- The renaming that relates nothing. -/
def nothing : Renaming where
  frame _ _ := False
  identity _ _ := False
  frame_inj _ _ _ _ h := h.elim
  identity_inj _ _ _ _ h := h.elim

variable {ρ ρ₁ : Renaming} {s s' : State} {scope scope' : Scope} {x : String} {v v' : Value}

/-- The frames that are allocated next stand for each other, too. -/
def addFrame (ρ : Renaming) (s s' : State) (h : ρ.Relates s s') : Renaming where
  frame n n' := ρ.frame n n' ∨ n = s.store.frames.size ∧ n' = s'.store.frames.size
  identity := ρ.identity
  frame_inj := Correspondence.inj_insert ρ.frame_inj h.frames
  identity_inj := ρ.identity_inj

/-- The identities that are given out next stand for each other, too. -/
def addIdentity (ρ : Renaming) (s s' : State) (h : ρ.Relates s s') : Renaming where
  frame := ρ.frame
  identity i i' := ρ.identity i i' ∨ i = s.nextIdentity ∧ i' = s'.nextIdentity
  frame_inj := ρ.frame_inj
  identity_inj := Correspondence.inj_insert ρ.identity_inj h.identities

theorem extends_addFrame (h : ρ.Relates s s') : ρ.Extends (ρ.addFrame s s' h) :=
  ⟨fun _ _ => .inl, fun _ _ => id⟩

theorem extends_addIdentity (h : ρ.Relates s s') : ρ.Extends (ρ.addIdentity s s' h) :=
  ⟨fun _ _ => id, fun _ _ => .inl⟩

theorem Extends.renamed (h : ρ.Extends ρ₁) (hscope : scope.Renamed ρ scope') :
    scope.Renamed ρ₁ scope' := by
  induction hscope with
  | root hn => exact .root (h.frame _ _ hn)
  | inner hn _ ih => exact .inner (h.frame _ _ hn) ih

theorem Extends.value (h : ρ.Extends ρ₁) (hv : v.Match ρ.matching v') : v.Match ρ₁.matching v' :=
  hv.mono h.identity (fun _ _ _ _ hclosure => ⟨hclosure.1, h.renamed hclosure.2⟩) fun _ => id

theorem Extends.found (h : ρ.Extends ρ₁) {o o' : Option Value}
    (hfound : Option.Rel (Value.Match ρ.matching) o o') :
    Option.Rel (Value.Match ρ₁.matching) o o' := by
  cases hfound with
  | none => exact .none
  | some hv => exact .some (h.value hv)

/-! ## Operations on heaps that are the same -/

/-- The frames that stand for each other, with no blank ones among them. -/
def correspondence (ρ : Renaming) : Correspondence where
  frame := ρ.frame
  blank _ := False
  oneToOne := ρ.frame_inj
  apart _ _ _ := id

theorem padded_of_renamed (h : scope.Renamed ρ scope') : scope.Padded ρ.correspondence scope' := by
  induction h with
  | root hn => exact .root hn
  | inner hn _ ih => exact .inner hn ih

theorem frame_of_renamed (h : scope.Renamed ρ scope') : ρ.frame scope.frame scope'.frame := by
  cases h with
  | root hn => exact hn
  | inner hn _ => exact hn

theorem Relates.corresponds (h : ρ.Relates s s') :
    s.store.Corresponds ρ.correspondence ρ.matching (fun _ => True) s'.store :=
  ⟨h.frames, nofun, fun n n' hn x _ => h.bindings n n' hn x, nofun⟩

theorem Relates.of_corresponds
    (h : s.store.Corresponds ρ.correspondence ρ.matching (fun _ => True) s'.store)
    (hidentities : ∀ i i', ρ.identity i i' → i < s.nextIdentity ∧ i' < s'.nextIdentity) :
    ρ.Relates s s' :=
  ⟨h.frames, hidentities, fun n n' hn x => h.found n n' hn x trivial⟩

/-- A name is found in frames that stand for each other, with values that match. -/
theorem Relates.lookup (h : ρ.Relates s s') (hscope : scope.Renamed ρ scope') (x : String) :
    Option.Rel (Value.Match ρ.matching) (s.store.lookup x scope) (s'.store.lookup x scope') :=
  h.corresponds.lookup (padded_of_renamed hscope) trivial

theorem Relates.declare (h : ρ.Relates s s') (hscope : scope.Renamed ρ scope')
    (hv : v.Match ρ.matching v') :
    (s.store.declare scope x v).1 = (s'.store.declare scope' x v').1 ∧
      ρ.Relates { s with store := (s.store.declare scope x v).2 }
        { s' with store := (s'.store.declare scope' x v').2 } := by
  have hdeclare := h.corresponds.declare (x := x) (frame_of_renamed hscope) trivial hv
  exact ⟨hdeclare.1, .of_corresponds hdeclare.2 h.identities⟩

theorem Relates.set (h : ρ.Relates s s') (hscope : scope.Renamed ρ scope')
    (hv : v.Match ρ.matching v') :
    (s.store.set scope x v).1 = (s'.store.set scope' x v').1 ∧
      ρ.Relates { s with store := (s.store.set scope x v).2 }
        { s' with store := (s'.store.set scope' x v').2 } := by
  have hset := h.corresponds.set (x := x) (padded_of_renamed hscope) trivial hv
  exact ⟨hset.1, .of_corresponds hset.2 h.identities⟩

/-- Two new frames with variables that match. -/
theorem Relates.allocate (h : ρ.Relates s s') {b b' : Bindings}
    (hb : ∀ x, Option.Rel (Value.Match ρ.matching) (b.lookup x) (b'.lookup x)) :
    (ρ.addFrame s s' h).Relates { s with store := (s.store.allocate b).2 }
      { s' with store := (s'.store.allocate b').2 } := by
  have hallocate := h.corresponds.allocate fun x _ => hb x
  refine .of_corresponds ?_ h.identities
  exact hallocate.mono fun _ _ => (extends_addFrame h).value

theorem Relates.freshIdentity (h : ρ.Relates s s') :
    (ρ.addIdentity s s' h).Relates s.freshIdentity.2 s'.freshIdentity.2 where
  frames := h.frames
  identities i i' hi := by
    simp only [State.freshIdentity]
    rcases hi with hi | ⟨rfl, rfl⟩
    · have := h.identities i i' hi
      omega
    · omega
  bindings n n' hn x := (extends_addIdentity h).found (h.bindings n n' hn x)

end Renaming

/-- The comparison of evaluations up to a renaming.  Both sides have added the same bytes to their
outputs. -/
def Likeness.renamed (limit : Nat) (output output' : Output) : Likeness where
  World := Renaming
  le := Renaming.Extends
  state ρ s s' := ρ.Relates s s' ∧
    ∃ bytes, s.output = output.append bytes ∧ s'.output = output'.append bytes
  identity := Renaming.identity
  scope := Scope.Renamed
  function := Eq
  native _ := True
  name _ := True
  error := Eq
  lost _ := False
  limit := limit
  limit' := limit

namespace Likeness

open Renaming

variable {limit : Nat} {output output' : Output}

/-- **Evaluation keeps to a renaming.** -/
theorem renamed_lawful (hroom : output.room = output'.room)
    (hflush : output.flushFails = output'.flushFails) : (renamed limit output output').Lawful where
  refl _ := ⟨fun _ _ => id, fun _ _ => id⟩
  trans h h' := ⟨fun n n' hn => h'.frame n n' (h.frame n n' hn),
    fun i i' hi => h'.identity i i' (h.identity i i' hi)⟩
  identity_mono h := h.identity _ _
  scope_mono h := h.renamed
  place_mono h := h.renamed
  scope_of_place h := h
  oneToOne ρ := ρ.identity_inj
  parameters h := ⟨congrArg Function.parameters h, fun _ _ => trivial⟩
  named _ _ _ := trivial
  defined _ := ⟨fun _ => trivial, fun _ _ _ => id⟩
  limit_le := Nat.le_refl _
  overflow _ hlt := absurd hlt (Nat.lt_irrefl _)
  depth _ h := ⟨⟨h.1.frames, h.1.identities, h.1.bindings⟩, h.2⟩
  fresh {ρ s s'} h :=
    ⟨ρ.addIdentity s s' h.1, extends_addIdentity h.1, ⟨h.1.freshIdentity, h.2⟩, .inr ⟨rfl, rfl⟩⟩
  lookup h hscope _ := h.1.lookup hscope _
  declare h hscope _ hv :=
    have hdeclare := h.1.declare hscope hv
    ⟨hdeclare.1, hdeclare.2, h.2⟩
  set h hscope _ hv :=
    have hset := h.1.set hscope hv
    ⟨hset.1, hset.2, h.2⟩
  newInner {ρ s s' scope scope' b b'} h hscope _ hentries :=
    ⟨ρ.addFrame s s' h.1, extends_addFrame h.1,
      ⟨h.1.allocate (Value.Match.lookup hentries), h.2⟩,
      .inner (.inr ⟨rfl, rfl⟩) ((extends_addFrame h.1).renamed hscope)⟩
  write {ρ s s'} text h := by
    obtain ⟨hrelates, bytes, hbytes, hbytes'⟩ := h
    obtain ⟨hresult, hwritten⟩ := Output.write_alike hroom hflush hbytes hbytes' text
    exact ⟨hresult, ⟨hrelates.frames, hrelates.identities, hrelates.bindings⟩, hwritten⟩

theorem renamed_reflexive : (renamed limit output output').Reflexive fun _ => True where
  children _ _ := trivial
  function _ := rfl
  name _ := trivial
  binder _ := trivial
  place h := h
  error _ := rfl

theorem renamed_closed : (renamed limit output output').Closed (Trees.same fun _ => True) :=
  renamed_reflexive.closed fun _ _ h => ⟨h, fun _ _ => trivial⟩

end Likeness

end Script
