import Mathlib.Data.List.Perm.Subperm
import Script.Proofs.Identity.Equality
import Script.Proofs.Number.Order
import Script.Proofs.Values

/-!
# Equality by contents

Equality by contents looks into arrays and objects: arrays are compared element by element, objects
key by key in whatever order they have them, and everything else strictly.  `Value.same_iff` says
this of one level, and what follows goes from the parts of a value to the value.

The comparison of two objects only looks for the keys of the first in the second, and counts.  That
no key of the second is missed, and that the comparison is symmetric, is due to the keys of an
object being distinct (`Value.keys_perm`).  This is asked of all objects in a value (`Value.Keyed`),
and it holds of all values in a session (`Session.Chronicle.keyed_coherent`).
-/

namespace Script

namespace Value

variable {a b c u v w : Value} {i j : Nat} {ps qs rs : List (String × Value)}

/-! ## Parts of parts -/

/-- The one is the other, or a part of it, or a part of a part, and so on. -/
inductive Within : Value → Value → Prop
  | refl (v : Value) : Within v v
  | part {u v w : Value} (inside : Within u v) (mem : v ∈ w.parts) : Within u w

theorem within_iff : u.Within w ↔ u = w ∨ ∃ v ∈ w.parts, u.Within v := by
  constructor
  · rintro (_ | ⟨hinside, hmem⟩)
    · exact .inl rfl
    · exact .inr ⟨_, hmem, hinside⟩
  · rintro (rfl | ⟨v, hmem, hinside⟩)
    · exact .refl u
    · exact .part hinside hmem

/-- All objects in the value have distinct keys. -/
def Keyed (v : Value) : Prop := ∀ u : Value, u.Within v → u.keys.Nodup

def isNaN : Value → Bool
  | number x => x.isNaN
  | string _ | boolean _ | null | undefined | array _ _ | object _ _ | function _ _ _ _
  | native _ _ => false

/-- There is a NaN in the value. -/
def HasNaN (v : Value) : Prop := ∃ u : Value, u.Within v ∧ u.isNaN = true

/-- In the one value and the other, an identity stands for the same. -/
def Coherent (a b : Value) : Prop :=
  ∀ (i : Nat) (u v : Value), u.Within a → v.Within b → u.identity? = some i →
    v.identity? = some i → u = v

theorem Keyed.part (h : w.Keyed) (hv : v ∈ w.parts) : v.Keyed :=
  fun u hinside => h u (.part hinside hv)

theorem Keyed.nodup (h : (object i ps).Keyed) : (ps.map Prod.fst).Nodup := h _ (.refl _)

theorem hasNaN_iff : w.HasNaN ↔ w.isNaN = true ∨ ∃ v ∈ w.parts, v.HasNaN := by
  constructor
  · rintro ⟨u, hinside, hu⟩
    rcases within_iff.mp hinside with rfl | ⟨v, hv, hinside⟩
    · exact .inl hu
    · exact .inr ⟨v, hv, u, hinside, hu⟩
  · rintro (hw | ⟨v, hv, u, hinside, hu⟩)
    · exact ⟨w, .refl w, hw⟩
    · exact ⟨u, .part hinside hv, hu⟩

theorem Coherent.part (h : Coherent a b) (hu : u ∈ a.parts) (hv : v ∈ b.parts) : Coherent u v :=
  fun i _ _ hleft hright => h i _ _ (.part hleft hu) (.part hright hv)

theorem sizeOf_lt_of_mem_parts (h : u ∈ v.parts) : sizeOf u < sizeOf v := by
  cases v with
  | array i vs =>
    have : sizeOf u < sizeOf vs := List.sizeOf_lt_of_mem h
    simp only [array.sizeOf_spec]
    omega
  | object i ps =>
    obtain ⟨p, hp, rfl⟩ := List.mem_map.mp h
    have := List.sizeOf_lt_of_mem hp
    obtain ⟨key, value⟩ := p
    simp only [object.sizeOf_spec, Prod.mk.sizeOf_spec] at this ⊢
    omega
  | _ => cases h

/-- What goes from all parts of a value to the value, holds of every value. -/
theorem induction_parts {motive : Value → Prop}
    (step : ∀ v, (∀ u ∈ v.parts, motive u) → motive v) (v : Value) : motive v :=
  step v fun u _hu => induction_parts step u
termination_by sizeOf v
decreasing_by exact sizeOf_lt_of_mem_parts _hu

/-! ## One level -/

/-- Arrays and objects are made of other values. -/
def isCompound : Value → Bool
  | array _ _ | object _ _ => true
  | number _ | string _ | boolean _ | null | undefined | function _ _ _ _ | native _ _ => false

/-- What it takes for two values to be equal by contents. -/
inductive Corresponds : Value → Value → Prop
  | array (i j : Nat) {vs ws : List Value} (length : vs.length = ws.length)
      (elements : ∀ (n : Nat) (v w : Value), vs[n]? = some v → ws[n]? = some w →
        v.same w = true) :
      Corresponds (array i vs) (array j ws)
  | object (i j : Nat) {ps qs : List (String × Value)} (length : ps.length = qs.length)
      (values : ∀ p ∈ ps, ∃ w, qs.lookup p.1 = some w ∧ p.2.same w = true) :
      Corresponds (object i ps) (object j qs)
  | plain {a b : Value} (left : a.isCompound = false) (right : b.isCompound = false)
      (equal : a.strictEqual b = true) : Corresponds a b

theorem same_iff_parts : a.same b = true ↔
    ∃ pairs, parts? a b = some pairs ∧ ∀ p ∈ pairs, p.1.same p.2 = true := by
  constructor
  · intro h
    cases hparts : parts? a b with
    | some pairs =>
      rw [same, allSame_cons hparts, List.append_nil] at h
      exact ⟨pairs, rfl, allSame_iff.mp h⟩
    | none =>
      unfold same allSame at h
      split at h
      · next heq => cases hparts.symm.trans heq
      · cases h
  · rintro ⟨pairs, hparts, hsame⟩
    exact same_of_parts hparts hsame

theorem pairProperties_iff :
    (∃ pairs, pairProperties ps qs = some pairs ∧ ∀ p ∈ pairs, p.1.same p.2 = true) ↔
      ∀ p ∈ ps, ∃ w, qs.lookup p.1 = some w ∧ p.2.same w = true := by
  induction ps with
  | nil => exact ⟨fun _ => List.forall_mem_nil _, fun _ => ⟨[], rfl, List.forall_mem_nil _⟩⟩
  | cons p ps ih =>
    obtain ⟨key, v⟩ := p
    rw [List.forall_mem_cons, ← ih]
    constructor
    · rintro ⟨pairs, hpairs, hsame⟩
      unfold pairProperties at hpairs
      split at hpairs
      · next w rest hlookup hrest =>
        cases hpairs
        obtain ⟨hw, hmore⟩ := List.forall_mem_cons.mp hsame
        exact ⟨⟨w, hlookup, hw⟩, rest, hrest, hmore⟩
      · cases hpairs
    · rintro ⟨⟨w, hlookup, hw⟩, rest, hrest, hmore⟩
      refine ⟨(v, w) :: rest, ?_, List.forall_mem_cons.mpr ⟨hw, hmore⟩⟩
      rw [pairProperties, hlookup, hrest]

theorem isCompound_eq_of_strictEqual (h : a.strictEqual b = true) :
    a.isCompound = b.isCompound := by
  cases a <;> cases b <;> first | rfl | cases h

theorem same_of_plain (ha : a.isCompound = false) : a.same b = a.strictEqual b := by
  have hparts : parts? a b = if a.strictEqual b then some [] else none := by
    cases a with
    | array | object => cases ha
    | _ => rfl
  rw [Bool.eq_iff_iff, same_iff_parts, hparts]
  simp

/-- **Equality by contents, one level of it.** -/
theorem same_iff : a.same b = true ↔ a.Corresponds b := by
  constructor
  · intro h
    cases ha : a.isCompound with
    | false =>
      rw [same_of_plain ha] at h
      exact .plain ha ((isCompound_eq_of_strictEqual h).symm.trans ha) h
    | true =>
      obtain ⟨pairs, hparts, hsame⟩ := same_iff_parts.mp h
      cases a with
      | array i vs =>
        cases b with
        | array j ws =>
          obtain ⟨hlength, hzip⟩ := Option.ite_none_right_eq_some.mp hparts
          cases hzip
          refine .array i j hlength fun n v w hv hw => hsame (v, w) ?_
          exact List.mem_of_getElem? (List.getElem?_zip_eq_some.mpr ⟨hv, hw⟩)
        | _ => cases hparts
      | object i ps =>
        cases b with
        | object j qs =>
          obtain ⟨hlength, hpairs⟩ := Option.ite_none_right_eq_some.mp hparts
          exact .object i j hlength (pairProperties_iff.mp ⟨pairs, hpairs, hsame⟩)
        | _ => cases hparts
      | _ => cases ha
  · rintro (⟨i, j, length, elements⟩ | ⟨i, j, length, values⟩ | ⟨left, -, equal⟩)
    · refine same_of_parts (if_pos length) fun p hp => ?_
      obtain ⟨n, hn⟩ := List.mem_iff_getElem?.mp hp
      obtain ⟨hv, hw⟩ := List.getElem?_zip_eq_some.mp hn
      exact elements n p.1 p.2 hv hw
    · obtain ⟨pairs, hpairs, hsame⟩ := pairProperties_iff.mpr values
      exact same_of_parts ((if_pos length).trans hpairs) hsame
    · exact (same_of_plain left).trans equal

/-! ## Keys -/

/-- The keys of one object are those of the other, if as many of them were found there. -/
theorem keys_perm (hps : (ps.map Prod.fst).Nodup) (hlength : ps.length = qs.length)
    (h : ∀ p ∈ ps, ∃ w, qs.lookup p.1 = some w ∧ p.2.same w = true) :
    (ps.map Prod.fst).Perm (qs.map Prod.fst) := by
  have hsub : ps.map Prod.fst ⊆ qs.map Prod.fst := by
    intro key hkey
    obtain ⟨p, hp, rfl⟩ := List.mem_map.mp hkey
    obtain ⟨w, hw, -⟩ := h p hp
    exact List.mem_map.mpr ⟨(p.1, w), Bindings.mem_of_lookup hw, rfl⟩
  -- They are all different, and there are as many, so none of the others is left over.
  refine (List.subperm_of_subset hps hsub).perm_of_length_le ?_
  rw [List.length_map, List.length_map, hlength]

theorem mem_parts_of_lookup {key : String} (h : ps.lookup key = some v) :
    v ∈ (object i ps).parts :=
  List.mem_map.mpr ⟨(key, v), Bindings.mem_of_lookup h, rfl⟩

theorem exists_lookup_of_mem {key : String} (h : key ∈ ps.map Prod.fst) :
    ∃ v, ps.lookup key = some v :=
  Option.isSome_iff_exists.mp (Bindings.isSome_lookup.mpr h)

/-- Two objects are equal if and only if they have the same keys and equal values at them. -/
theorem same_object_iff (i j : Nat) (hps : (ps.map Prod.fst).Nodup)
    (hqs : (qs.map Prod.fst).Nodup) : (object i ps).same (object j qs) = true ↔
      (∀ key, key ∈ ps.map Prod.fst ↔ key ∈ qs.map Prod.fst) ∧
        ∀ key v w, ps.lookup key = some v → qs.lookup key = some w → v.same w = true := by
  constructor
  · intro h
    cases same_iff.mp h with
    | object _ _ length values =>
      refine ⟨fun key => (keys_perm hps length values).mem_iff, fun key v w hv hw => ?_⟩
      obtain ⟨w', hw', hsame⟩ := values (key, v) (Bindings.mem_of_lookup hv)
      cases hw.symm.trans hw'
      exact hsame
    | plain left => cases left
  · rintro ⟨hkeys, hvalues⟩
    have hperm := (List.perm_ext_iff_of_nodup hps hqs).mpr hkeys
    refine same_iff.mpr (.object i j (by simpa using hperm.length_eq) fun p hp => ?_)
    obtain ⟨w, hw⟩ := exists_lookup_of_mem ((hkeys p.1).mp (List.mem_map_of_mem hp))
    exact ⟨w, hw, hvalues p.1 p.2 w (lookup_of_mem hps hp) hw⟩

/-! ## Symmetry and transitivity -/

theorem strictEqual_symm (h : a.strictEqual b = true) : b.strictEqual a = true := by
  cases a <;> cases b <;> simp_all [strictEqual]
  exact Number.eq_symm h

theorem strictEqual_trans (h : a.strictEqual b = true) (h' : b.strictEqual c = true) :
    a.strictEqual c = true := by
  -- Only values of one kind are equal, so most cases close before the third value is looked at.
  cases a <;> cases b <;> try (cases h; done)
  all_goals cases c <;> simp_all [strictEqual]
  exact Number.eq_trans h h'

theorem Keyed.element {vs : List Value} {n : Nat} (h : (array i vs).Keyed)
    (hv : vs[n]? = some v) : v.Keyed :=
  h.part (List.mem_of_getElem? hv)

theorem Keyed.value {key : String} (h : (object i ps).Keyed) (hv : ps.lookup key = some v) :
    v.Keyed :=
  h.part (mem_parts_of_lookup hv)

theorem same_symm (ha : a.Keyed) (hb : b.Keyed) (h : a.same b = true) : b.same a = true := by
  induction a using induction_parts generalizing b with
  | step a ih =>
    cases same_iff.mp h with
    | array i j length elements =>
      refine same_iff.mpr (.array j i length.symm fun n w v hw hv => ?_)
      exact ih v (List.mem_of_getElem? hv) (ha.element hv) (hb.element hw) (elements n v w hv hw)
    | object i j =>
      obtain ⟨hkeys, hvalues⟩ := (same_object_iff i j ha.nodup hb.nodup).mp h
      refine (same_object_iff j i hb.nodup ha.nodup).mpr ⟨fun key => (hkeys key).symm, ?_⟩
      intro key w v hw hv
      exact ih v (mem_parts_of_lookup hv) (ha.value hv) (hb.value hw) (hvalues key v w hv hw)
    | plain left right equal => exact same_iff.mpr (.plain right left (strictEqual_symm equal))

theorem same_trans (h : a.same b = true) (h' : b.same c = true) : a.same c = true := by
  induction a using induction_parts generalizing b c with
  | step a ih =>
    cases same_iff.mp h with
    | @array i j vs ws length elements =>
      cases same_iff.mp h' with
      | @array _ k _ us length' elements' =>
        refine same_iff.mpr (.array i k (length.trans length') fun n v u hv hu => ?_)
        obtain ⟨hn, -⟩ := List.getElem?_eq_some_iff.mp hv
        have hw : ws[n]? = some (ws.get ⟨n, length ▸ hn⟩) := List.getElem?_eq_getElem _
        exact ih v (List.mem_of_getElem? hv) (elements n v _ hv hw) (elements' n _ u hw hu)
      | plain left => cases left
    | @object i j ps qs length values =>
      cases same_iff.mp h' with
      | @object _ k _ rs length' values' =>
        -- What is found for a key is itself among the properties that are compared next, so this
        -- does not need distinct keys.
        refine same_iff.mpr (.object i k (length.trans length') fun p hp => ?_)
        obtain ⟨w, hw, hsame⟩ := values p hp
        obtain ⟨u, hu, hsame'⟩ := values' (p.1, w) (Bindings.mem_of_lookup hw)
        exact ⟨u, hu, ih p.2 (List.mem_map_of_mem hp) hsame hsame'⟩
      | plain left => cases left
    | plain left right equal =>
      rw [same_of_plain right] at h'
      rw [same_of_plain left]
      exact strictEqual_trans equal h'

/-! ## Values without NaN -/

/-- A value that is compared with itself has each part compared with itself. -/
theorem same_self_iff_parts (h : a.Keyed) :
    a.same a = true ↔ a.isNaN = false ∧ ∀ u ∈ a.parts, u.same u = true := by
  cases a with
  | array i vs =>
    constructor
    · intro hsame
      refine ⟨rfl, fun u hu => ?_⟩
      obtain ⟨n, hn⟩ := List.mem_iff_getElem?.mp hu
      cases same_iff.mp hsame with
      | array _ _ _ elements => exact elements n u u hn hn
      | plain left => cases left
    · rintro ⟨-, hparts⟩
      refine same_iff.mpr (.array i i rfl fun n v w hv hw => ?_)
      cases hv.symm.trans hw
      exact hparts v (List.mem_of_getElem? hv)
  | object i ps =>
    rw [same_object_iff i i h.nodup h.nodup]
    constructor
    · rintro ⟨-, hvalues⟩
      refine ⟨rfl, fun u hu => ?_⟩
      obtain ⟨p, hp, rfl⟩ := List.mem_map.mp hu
      have hlookup := lookup_of_mem h.nodup hp
      exact hvalues p.1 p.2 p.2 hlookup hlookup
    · rintro ⟨-, hparts⟩
      refine ⟨fun _ => Iff.rfl, fun key v w hv hw => ?_⟩
      cases hv.symm.trans hw
      exact hparts v (mem_parts_of_lookup hv)
  | number x =>
    rw [same_of_plain rfl]
    exact Number.eq_self_iff.trans (and_iff_left (List.forall_mem_nil _)).symm
  | _ =>
    rw [same_of_plain rfl]
    simp [strictEqual, isNaN, parts]

/-- **A value is equal to itself if and only if there is no NaN in it.** -/
theorem same_self_iff (h : a.Keyed) : a.same a = true ↔ ¬ a.HasNaN := by
  induction a using induction_parts with
  | step a ih =>
    have hparts : (∀ u ∈ a.parts, u.same u = true) ↔ ∀ u ∈ a.parts, ¬ u.HasNaN :=
      forall₂_congr fun u hu => ih u hu (h.part hu)
    rw [same_self_iff_parts h, hparts, hasNaN_iff, not_or]
    simp only [not_exists, not_and, Bool.not_eq_true]

/-! ## Display forms -/

/-- The objects in both values have their keys in the same order, as far as the values go along
with each other. -/
inductive SameOrder : Value → Value → Prop
  | array (i j : Nat) {vs ws : List Value}
      (elements : ∀ (n : Nat) (v w : Value), vs[n]? = some v → ws[n]? = some w → SameOrder v w) :
      SameOrder (array i vs) (array j ws)
  | object (i j : Nat) {ps qs : List (String × Value)}
      (keys : ps.map Prod.fst = qs.map Prod.fst)
      (values : ∀ (key : String) (v w : Value), ps.lookup key = some v →
        qs.lookup key = some w → SameOrder v w) :
      SameOrder (object i ps) (object j qs)
  | plain {a b : Value} (left : a.isCompound = false) : SameOrder a b

theorem display_array_congr (i j : Nat) {vs ws : List Value}
    (h : vs.map nestedForm = ws.map nestedForm) :
    (array i vs).display = (array j ws).display := by
  rw [← String.toList_inj, toList_display_array, toList_display_array, h]

theorem display_object_congr (i j : Nat) (h : ps.map propertyForm = qs.map propertyForm) :
    (object i ps).display = (object j qs).display := by
  rw [← String.toList_inj]
  cases ps with
  | nil =>
    cases qs with
    | nil => rw [toList_display_object_nil, toList_display_object_nil]
    | cons q qs => cases h
  | cons p ps =>
    cases qs with
    | nil => cases h
    | cons q qs => rw [toList_display_object_cons, toList_display_object_cons, h]

theorem map_congr_of_getElem? {α β : Type} {f : α → β} {xs ys : List α}
    (hlength : xs.length = ys.length)
    (h : ∀ (n : Nat) (x y : α), xs[n]? = some x → ys[n]? = some y → f x = f y) :
    xs.map f = ys.map f := by
  refine List.ext_getElem (by simpa using hlength) fun n hn hn' => ?_
  rw [List.getElem_map, List.getElem_map]
  exact h n _ _ (List.getElem?_eq_getElem _) (List.getElem?_eq_getElem _)

/-- Equal values with their keys in the same order look the same, by themselves and inside
others. -/
theorem forms_eq_of_same (ha : a.Keyed) (hb : b.Keyed) (hone : Coherent a b)
    (horder : a.SameOrder b) (h : a.same b = true) :
    a.display = b.display ∧ a.nestedForm = b.nestedForm := by
  induction horder with
  | @array i j vs ws order ih =>
    have hforms : vs.map nestedForm = ws.map nestedForm := by
      cases same_iff.mp h with
      | array _ _ length elements =>
        refine map_congr_of_getElem? length fun n v w hv hw => ?_
        have hinside := hone.part (List.mem_of_getElem? hv) (List.mem_of_getElem? hw)
        exact (ih n v w hv hw (ha.element hv) (hb.element hw) hinside (elements n v w hv hw)).2
      | plain left => cases left
    have hdisplay := display_array_congr i j hforms
    exact ⟨hdisplay, congrArg String.toList hdisplay⟩
  | @object i j ps qs keys order ih =>
    obtain ⟨-, hvalues⟩ := (same_object_iff i j ha.nodup hb.nodup).mp h
    have hforms : ps.map propertyForm = qs.map propertyForm := by
      refine map_congr_of_getElem? (by simpa using congrArg List.length keys) ?_
      intro n p q hp hq
      have hkey : p.1 = q.1 := by simpa [hp, hq] using congrArg (·[n]?) keys
      -- With distinct keys, what stands at the same place is also what was compared.
      have hv := lookup_of_mem ha.nodup (List.mem_of_getElem? hp)
      have hw := lookup_of_mem hb.nodup (List.mem_of_getElem? hq)
      rw [← hkey] at hw
      have hinside := hone.part (mem_parts_of_lookup hv) (mem_parts_of_lookup hw)
      have hform := (ih p.1 p.2 q.2 hv hw (ha.value hv) (hb.value hw) hinside
        (hvalues p.1 p.2 q.2 hv hw)).2
      rw [propertyForm, propertyForm, hkey, hform]
    have hdisplay := display_object_congr i j hforms
    exact ⟨hdisplay, congrArg String.toList hdisplay⟩
  | @plain a b left =>
    rw [same_of_plain left] at h
    have halike : a.Indistinguishable b :=
      .of_identity (fun i hi hi' => hone i a b (.refl a) (.refl b) hi hi') h
    exact ⟨halike.display, congrArg String.toList (halike.nested "" [])⟩

end Value

/-! ## Sessions -/

theorem State.Filed.within {catalogue : List Value} {s : State} {u w : Value}
    (h : s.Filed catalogue) (hw : w.Filed catalogue) (hinside : u.Within w) :
    u.Filed catalogue := by
  induction hinside with
  | refl => exact hw
  | part _ hmem ih => exact ih (h.part hw hmem)

/-- In a session, keys are distinct and identities stand for one value each, in all values that are
held at any moment. -/
theorem Session.Chronicle.keyed_coherent {callLimit : Nat} {output : Output} {past : List Moment}
    {session : Session} (h : (bare callLimit output).Chronicle past session) (n : Nat)
    (file source : String) {a b : Value} (ha : Held (past ++ session.moments n file source) a)
    (hb : Held (past ++ session.moments n file source) b) : a.Keyed ∧ a.Coherent b := by
  obtain ⟨c, hbooks⟩ := h.books
  obtain ⟨c₁, s, hstate, hshown⟩ := hbooks.shown_moments n file source
  have hleft (u : Value) (hu : u.Within a) : u.Filed c₁ :=
    hstate.within (ha.filed hshown hstate) hu
  constructor
  · exact fun u hu => hstate.nodup_keys (hleft u hu)
  · intro i u v hu hv
    exact (hleft u hu).eq (hstate.within (hb.filed hshown hstate) hv)

namespace Value

/-- **Equality by contents is a partial equivalence.**  It is symmetric and transitive, and a value
is equal to itself if and only if there is no NaN in it.  Two objects are equal if and only if they
have the same keys, in whatever order, and equal values at each of them.  Equal values whose objects
have their keys in the same order have the same display form.  This takes it that objects have
distinct keys, and for the display form that an identity stands for one value; both are so for all
values that are held at any moment of a session. -/
theorem same_partial_equivalence :
    (∀ a b c : Value, a.Keyed → b.Keyed →
      a.same b = b.same a ∧
      (a.same b = true → b.same c = true → a.same c = true) ∧
      (a.same a = true ↔ ¬ a.HasNaN) ∧
      (∀ i j ps qs, a = object i ps → b = object j qs → (a.same b = true ↔
        (∀ key, key ∈ ps.map Prod.fst ↔ key ∈ qs.map Prod.fst) ∧
          ∀ key v w, ps.lookup key = some v → qs.lookup key = some w → v.same w = true)) ∧
      (Coherent a b → a.SameOrder b → a.same b = true → a.display = b.display)) ∧
    ∀ (callLimit : Nat) (output : Output) (past : List Moment) (session : Session),
      (Session.bare callLimit output).Chronicle past session →
      ∀ (n : Nat) (file source : String) (a b : Value),
        Held (past ++ session.moments n file source) a →
        Held (past ++ session.moments n file source) b → a.Keyed ∧ Coherent a b := by
  refine ⟨fun a b c ha hb => ⟨?_, same_trans, same_self_iff ha, ?_, ?_⟩, ?_⟩
  · exact Bool.eq_iff_iff.mpr ⟨same_symm ha hb, same_symm hb ha⟩
  · rintro i j ps qs rfl rfl
    exact same_object_iff i j ha.nodup hb.nodup
  · exact fun hone horder h => (forms_eq_of_same ha hb hone horder h).1
  · exact fun _ _ _ _ h n file source a b ha hb => h.keyed_coherent n file source ha hb

/-- An object with a function and a number. -/
def logging (identity : Nat) (x : Number) : Value :=
  object identity [("log", native 0 .write), ("level", number x)]

theorem within_logging {x : Number} (h : u.Within (logging i x)) :
    u = logging i x ∨ u = native 0 .write ∨ u = number x := by
  rcases within_iff.mp h with rfl | ⟨v, hv, hu⟩
  · exact .inl rfl
  · have hplain : v.parts = [] := by
      rcases List.mem_pair.mp hv with rfl | rfl <;> rfl
    rcases within_iff.mp hu with rfl | ⟨w, hw, -⟩
    · exact .inr (List.mem_pair.mp hv)
    · rw [hplain] at hw
      cases hw

theorem keyed_logging (i : Nat) (x : Number) : (logging i x).Keyed := by
  intro u hu
  rcases within_logging hu with rfl | rfl | rfl
  · exact (by decide : ["log", "level"].Nodup)
  · exact List.nodup_nil
  · exact List.nodup_nil

theorem coherent_logging (x y : Number) : Coherent (logging 1 x) (logging 2 y) := by
  intro k u v hu hv hi hi'
  have hids : u.identity? = v.identity? := hi.trans hi'.symm
  rcases within_logging hu with rfl | rfl | rfl
  · rcases within_logging hv with rfl | rfl | rfl <;> cases hids
  · rcases within_logging hv with rfl | rfl | rfl <;> first | rfl | cases hids
  · cases hi

theorem sameOrder_logging (i j : Nat) (x y : Number) : (logging i x).SameOrder (logging j y) := by
  refine .object i j rfl fun key v w hv _ => .plain ?_
  rcases List.mem_pair.mp (Bindings.mem_of_lookup hv) with heq | heq <;> cases heq <;> rfl

/-- Two objects with the two zeros are equal and look the same; a third one has its keys in another
order.  And the two zeros are values of a session. -/
theorem same_partial_equivalence_zeros :
    ((logging 1 .zero).same (logging 2 (Number.neg .zero)) = true ∧
      (logging 2 (Number.neg .zero)).same (logging 1 .zero) = true ∧
      (logging 1 .zero).same
        (object 3 [("level", number .zero), ("log", native 0 .write)]) = true ∧
      ¬ (logging 1 .zero).HasNaN ∧
      (logging 1 .zero).display = (logging 2 (Number.neg .zero)).display) ∧
    ∃ past session, (Session.bare 1 .unbounded).Chronicle past session ∧
      Held (past ++ session.moments 20 "second" "[- -null]") (number .zero) ∧
      Held (past ++ session.moments 20 "second" "[- -null]") (number (Number.neg .zero)) ∧
      (number .zero).Keyed ∧ Coherent (number .zero) (number (Number.neg .zero)) := by
  have hlog : (native 0 .write).same (native 0 .write) = true := same_of_plain rfl
  have hab : (logging 1 .zero).same (logging 2 (Number.neg .zero)) = true :=
    same_of_parts rfl
      (List.forall_mem_cons.mpr ⟨hlog, List.forall_mem_singleton.mpr (same_number rfl)⟩)
  have hbc : (logging 2 (Number.neg .zero)).same
      (object 3 [("level", number .zero), ("log", native 0 .write)]) = true :=
    same_of_parts rfl
      (List.forall_mem_cons.mpr ⟨hlog, List.forall_mem_singleton.mpr (same_number rfl)⟩)
  constructor
  · obtain ⟨hsymm, htrans, hself, -, hdisplay⟩ := same_partial_equivalence.1 (logging 1 .zero)
      (logging 2 (Number.neg .zero)) (object 3 [("level", number .zero), ("log", native 0 .write)])
      (keyed_logging 1 _) (keyed_logging 2 _)
    have hba := hsymm.symm.trans hab
    refine ⟨hab, hba, htrans hab hbc, hself.mp (same_trans hab hba), ?_⟩
    exact hdisplay (coherent_logging _ _) (sameOrder_logging 1 2 _ _) hab
  · obtain ⟨hzero, hnegative, -⟩ := Session.makes_negations (Session.bare 1 .unbounded) []
    have hheld := same_partial_equivalence.2 1 .unbounded [] (Session.bare 1 .unbounded) .start 20
      "second" "[- -null]" _ _ hzero hnegative
    exact ⟨_, _, .start, hzero, hnegative, hheld⟩

end Value

end Script
