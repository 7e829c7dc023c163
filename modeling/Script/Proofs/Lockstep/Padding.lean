import Script.Proofs.Lockstep.Correspondence
import Script.Proofs.Lockstep.Runs
import Script.Proofs.Lockstep.Same
import Script.Proofs.Output

/-!
# Heaps with something more on one side

`Likeness.padded` compares evaluations in two heaps of which one has something more that does not
matter: variables with names that are of no interest, or blank frames in the chains of its scopes.
A declaration has to find the frames that stand for each other innermost.  All else may go on below
blank frames.

Identities are given out on both sides at the same time, so those that are still to come are paired
from the beginning.
-/

namespace Script

/-- References that stand for each other, as far as the frames do. -/
def Matching.padded (identity : Nat → Nat → Prop) (function : Function → Function → Prop)
    (native : Native → Prop) (κ : Correspondence) : Matching where
  identity := identity
  closure f s g t := function f g ∧ s.Padded κ t
  native := native

/-- What the comparison of two padded heaps depends on. -/
structure Padding where
  /-- The identities that stand for each other. -/
  identity : Nat → Nat → Prop
  /-- The functions that stand for each other. -/
  function : Function → Function → Prop
  /-- The names that are of interest. -/
  name : String → Prop
  /-- The frames that may be blank. -/
  blank : Nat → Prop
  identity_inj : ∀ i i' j j', identity i i' → identity j j' → (i = j ↔ i' = j')
  parameters : ∀ f f', function f f' →
    f.parameters = f'.parameters ∧ ∀ x ∈ f.parameters, name x

namespace Padding

variable (π : Padding)

/-- A native function may occur if it does not declare variables.  One that uses variables may only
do so if all names are of interest. -/
def native (n : Native) : Prop := n ≠ .define ∧ (n ∈ [Native.peek, .poke] → ∀ x, π.name x)

def matching (κ : Correspondence) : Matching := .padded π.identity π.function π.native κ

/-- The heaps are the same but for what does not matter. -/
structure Relates (κ : Correspondence) (s s' : State) : Prop where
  store : s.store.Corresponds κ (π.matching κ) π.name s'.store
  identities : ∀ k, π.identity (s.nextIdentity + k) (s'.nextIdentity + k)
  blank : ∀ n', κ.blank n' → π.blank n'

variable {π} {κ κ₁ : Correspondence} {s s' : State} {v v' : Value}

theorem value_mono (h : κ.Extends κ₁) (hv : v.Match (π.matching κ) v') :
    v.Match (π.matching κ₁) v' :=
  hv.mono (fun _ _ => id) (fun _ _ _ _ hclosure => ⟨hclosure.1, h.padded hclosure.2⟩) fun _ => id

/-- The next identities stand for each other, and so do those behind them. -/
theorem Relates.freshIdentity (h : π.Relates κ s s') :
    π.Relates κ s.freshIdentity.2 s'.freshIdentity.2 ∧
      π.identity s.freshIdentity.1 s'.freshIdentity.1 := by
  refine ⟨⟨h.store, fun k => ?_, h.blank⟩, h.identities 0⟩
  have hnext := h.identities (k + 1)
  rwa [Nat.add_comm k 1, ← Nat.add_assoc, ← Nat.add_assoc] at hnext

/-- A blank frame may be put in front of a scope on the right. -/
theorem Relates.allocate_blank (h : π.Relates κ s s') (hblank : π.blank s'.store.frames.size) :
    π.Relates (κ.addBlank h.store) s { s' with store := (s'.store.allocate []).2 } where
  store := h.store.allocate_blank.mono fun _ _ =>
    value_mono (Correspondence.extends_addBlank h.store)
  identities := h.identities
  blank n' hn := by
    rcases hn with hn | rfl
    · exact h.blank n' hn
    · exact hblank

end Padding

/-- The comparison of evaluations in padded heaps.  Both sides have added the same bytes to their
outputs. -/
def Likeness.padded (limit : Nat) (π : Padding) (output output' : Output) : Likeness where
  World := Correspondence
  le := Correspondence.Extends
  state κ s s' := π.Relates κ s s' ∧
    ∃ bytes, s.output = output.append bytes ∧ s'.output = output'.append bytes
  identity _ := π.identity
  scope κ := Scope.Padded κ
  place κ s s' := s.Padded κ s' ∧ κ.frame s.frame s'.frame
  function := π.function
  native := π.native
  name := π.name
  error := Eq
  lost _ := False
  limit := limit
  limit' := limit

namespace Likeness

open Correspondence

variable {limit : Nat} {π : Padding} {output output' : Output}

/-- **Evaluation does not see the padding.** -/
theorem padded_lawful (hroom : output.room = output'.room)
    (hflush : output.flushFails = output'.flushFails) : (padded limit π output output').Lawful where
  refl := Extends.refl
  trans := Extends.trans
  identity_mono _ h := h
  scope_mono h := h.padded
  place_mono h hplace := ⟨h.padded hplace.1, h.frame _ _ hplace.2⟩
  scope_of_place h := h.1
  oneToOne _ := π.identity_inj
  parameters := π.parameters _ _
  named h hmem := h.2 hmem
  defined h := absurd rfl h.1
  limit_le := Nat.le_refl _
  overflow _ hlt := absurd hlt (Nat.lt_irrefl _)
  depth _ h := ⟨⟨h.1.store, h.1.identities, h.1.blank⟩, h.2⟩
  fresh {κ s s'} h :=
    ⟨κ, .refl κ, ⟨h.1.freshIdentity.1, h.2⟩, h.1.freshIdentity.2⟩
  lookup h hscope hx := h.1.store.lookup hscope hx
  declare h hplace hx hv :=
    have hdeclare := h.1.store.declare hplace.2 hx hv
    ⟨hdeclare.1, ⟨hdeclare.2, h.1.identities, h.1.blank⟩, h.2⟩
  set h hscope hx hv :=
    have hset := h.1.store.set hscope hx hv
    ⟨hset.1, ⟨hset.2, h.1.identities, h.1.blank⟩, h.2⟩
  newInner {κ s s' scope scope' b b'} h hscope _ hentries := by
    have hallocate := h.1.store.allocate fun x _ => Value.Match.lookup hentries x
    have hextends := extends_addFrame h.1.store
    refine ⟨κ.addFrame h.1.store, hextends, ⟨⟨?_, h.1.identities, h.1.blank⟩, h.2⟩,
      .inner (.inr ⟨rfl, rfl⟩) (hextends.padded hscope), .inr ⟨rfl, rfl⟩⟩
    exact hallocate.mono fun _ _ => Padding.value_mono hextends
  write {κ s s'} text h := by
    obtain ⟨hrelates, bytes, hbytes, hbytes'⟩ := h
    obtain ⟨hresult, hwritten⟩ := Output.write_alike hroom hflush hbytes hbytes' text
    exact ⟨hresult, ⟨hrelates.store, hrelates.identities, hrelates.blank⟩, hwritten⟩

end Likeness

end Script
