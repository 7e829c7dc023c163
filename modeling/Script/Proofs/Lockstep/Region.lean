import Script.Proofs.Lockstep.Runs
import Script.Proofs.Lockstep.Same

/-!
# A region of the store

`Likeness.region` compares an evaluation with itself, or with one that has more room for calls.  It
keeps to a region of the store, a set of frames: all scopes and all functions in values that the
evaluation gets hold of are inside the region, which grows by new frames only.  What is outside the
region is left as it was.  The functions may be required to satisfy a condition, and so may the
output.
-/

namespace Script

/-- Values that match are equal if all that they refer to is. -/
theorem Value.Match.eq {m : Matching} {v w : Value} (h : v.Match m w)
    (hidentity : ∀ i j, m.identity i j → i = j)
    (hclosure : ∀ f s g t, m.closure f s g t → f = g ∧ s = t) : v = w := by
  induction h with
  | number | string | boolean | null | undefined => rfl
  | @array i j vs ws identity length _ ih =>
    have helements : List.Forall₂ Eq vs ws := List.forall₂_iff_zip.mpr ⟨length, @ih⟩
    rw [List.forall₂_eq_eq_eq] at helements
    rw [hidentity i j identity, helements]
  | @object i j ps qs identity keys _ ih =>
    have hlength : ps.length = qs.length := by simpa using congrArg List.length keys
    have hentries : ps = qs := by
      refine List.ext_getElem hlength fun n hn hn' => Prod.ext ?_ ?_
      · simpa [hn, hn'] using congrArg (·[n]?) keys
      · exact ih _ _ (List.mem_iff_getElem.mpr ⟨n, by simp [hlength, hn'], by simp⟩)
    rw [hidentity i j identity, hentries]
  | @function i j name f g s t identity here =>
    obtain ⟨rfl, rfl⟩ := hclosure f s g t here
    rw [hidentity i j identity]
  | @native i j n identity _ => rw [hidentity i j identity]

/-- Variables or properties are equal, one by one, where values that match are. -/
theorem Value.eq_of_matchAt {m : Matching} {ps qs : List (String × Value)}
    (heq : ∀ v w : Value, v.Match m w → v = w) (h : List.Forall₂ (Value.MatchAt m) ps qs) :
    ps = qs := by
  rw [← List.forall₂_eq_eq_eq]
  exact h.imp fun p q hp => Prod.ext hp.1 (heq p.2 q.2 hp.2)

/-- A value matches itself if its references do. -/
theorem Value.Holds.match_self {closure : Function → Scope → Prop} {native : Native → Prop}
    {v : Value} {m : Matching} (h : v.Holds closure native) (hidentity : ∀ i, m.identity i i)
    (hclosure : ∀ f s, closure f s → m.closure f s f s) (hnative : ∀ n, native n → m.native n) :
    v.Match m v := by
  induction h with
  | number n => exact .number n
  | string s => exact .string s
  | boolean b => exact .boolean b
  | null => exact .null
  | undefined => exact .undefined
  | array i _ ih => exact .ofElements (hidentity i) (List.forall₂_same.mpr ih)
  | object i _ ih =>
    exact .ofProperties (hidentity i) (List.forall₂_same.mpr fun p hp => ⟨rfl, ih p hp⟩)
  | function i name here => exact .function name (hidentity i) (hclosure _ _ here)
  | native i here => exact .native (hidentity i) (hnative _ here)

/-- The functions inside a value that matches another satisfy what those that match do. -/
theorem Value.Match.holds {m : Matching} {v w : Value} {closure : Function → Scope → Prop}
    {native : Native → Prop} (h : v.Match m w)
    (hclosure : ∀ f s g t, m.closure f s g t → closure f s)
    (hnative : ∀ n, m.native n → native n) : v.Holds closure native := by
  induction h with
  | number => exact .number _
  | string => exact .string _
  | boolean => exact .boolean _
  | null => exact .null
  | undefined => exact .undefined
  | @array i j vs ws _ length _ ih =>
    refine .array i fun v hv => ?_
    obtain ⟨n, hn, rfl⟩ := List.mem_iff_getElem.mp hv
    refine ih _ (ws.get ⟨n, length ▸ hn⟩) ?_
    exact List.mem_iff_getElem.mpr ⟨n, by simp [← length, hn], by simp⟩
  | @object i j ps qs _ keys _ ih =>
    have length := by simpa using congrArg List.length keys
    refine .object i fun p hp => ?_
    obtain ⟨n, hn, rfl⟩ := List.mem_iff_getElem.mp hp
    refine ih _ (qs.get ⟨n, length ▸ hn⟩) ?_
    exact List.mem_iff_getElem.mpr ⟨n, by simp [← length, hn], by simp⟩
  | function name _ here => exact .function _ name (hclosure _ _ _ _ here)
  | native _ here => exact .native _ (hnative _ here)

theorem Scope.frame_mem_frames (scope : Scope) : scope.frame ∈ scope.frames := by
  cases scope <;> exact List.mem_cons_self

/-- All frames of the scope are in the region. -/
def Scope.Inside (region : Nat → Prop) (scope : Scope) : Prop := ∀ n ∈ scope.frames, region n

/-- References stand for themselves.  The functions satisfy a condition and were made in the
region. -/
def Matching.inside (body : Function → Prop) (region : Nat → Prop) : Matching where
  identity := Eq
  closure f s g t := (f = g ∧ body f) ∧ s = t ∧ s.Inside region
  native _ := True

/-- The store has a region whose variables are all inside of it, and nothing has happened outside
since the `origin`. -/
structure Store.Sealed (store : Store) (body : Function → Prop) (origin : Store)
    (region : Nat → Prop) : Prop where
  size : origin.frames.size ≤ store.frames.size
  outside : ∀ n < origin.frames.size, ¬ region n → store.bindings n = origin.bindings n
  inside : ∀ n, region n → ∀ x v, (store.bindings n).lookup x = some v →
    v.Match (.inside body region) v

/-- The comparison of evaluations in a region. -/
def Likeness.region (limit limit' : Nat) (body : Function → Prop) (output : Output → Prop)
    (origin : Store) : Likeness where
  World := Nat → Prop
  le region region' :=
    (∀ n, region n → region' n) ∧ ∀ n < origin.frames.size, region' n → region n
  state region s s' := s = s' ∧ s.store.Sealed body origin region ∧ output s.output
  identity _ := Eq
  scope region s s' := s = s' ∧ s.Inside region
  function f f' := f = f' ∧ body f
  native _ := True
  name _ := True
  error := Eq
  lost e := limit < limit' ∧ ∃ span, e = .stackOverflow limit span
  limit := limit
  limit' := limit'

namespace Store

variable {body : Function → Prop} {origin store : Store} {region region' : Nat → Prop}
  {scope : Scope} {x : String} {v w : Value}

theorem eq_of_match_inside (h : v.Match (.inside body region) w) : v = w :=
  h.eq (fun _ _ => id) fun _ _ _ _ hclosure => ⟨hclosure.1.1, hclosure.2.1⟩

theorem match_inside_mono (h : v.Match (.inside body region) w)
    (hle : ∀ n, region n → region' n) : v.Match (.inside body region') w := by
  refine h.mono (fun _ _ => id) (fun f s g t hclosure => ?_) (fun _ => id)
  exact ⟨hclosure.1, hclosure.2.1, fun n hn => hle n (hclosure.2.2 n hn)⟩

theorem match_inside_of_lookup {b : Bindings}
    (h : List.Forall₂ (Value.MatchAt (.inside body region)) b b) (hlookup : b.lookup x = some v) :
    v.Match (.inside body region) v :=
  (List.forall₂_same.mp h _ (Bindings.mem_of_lookup hlookup)).2

theorem Sealed.lookup (h : store.Sealed body origin region) (hscope : scope.Inside region)
    (hlookup : store.lookup x scope = some v) : v.Match (.inside body region) v := by
  induction scope with
  | root frame => exact h.inside frame (hscope frame List.mem_cons_self) x v hlookup
  | inner frame parent ih =>
    rw [Store.lookup] at hlookup
    split at hlookup
    · next found =>
      cases hlookup
      exact h.inside frame (hscope frame List.mem_cons_self) x v found
    · exact ih (fun n hn => hscope n (List.mem_cons_of_mem _ hn)) hlookup

theorem Sealed.declare (h : store.Sealed body origin region) (hscope : region scope.frame)
    (hv : v.Match (.inside body region) v) :
    (store.declare scope x v).2.Sealed body origin region where
  size := by
    rw [size_declare]
    exact h.size
  outside n hn hregion := by
    have hne : n ≠ scope.frame := fun heq => hregion (heq ▸ hscope)
    rw [bindings_declare_of_ne hne]
    exact h.outside n hn hregion
  inside n hn y u hu := by
    rw [lookup_bindings_declare] at hu
    split at hu
    · cases hu
      exact hv
    · exact h.inside n hn y u hu

theorem Sealed.set (h : store.Sealed body origin region) (hscope : scope.Inside region)
    (hv : v.Match (.inside body region) v) :
    (store.set scope x v).2.Sealed body origin region where
  size := by
    rw [size_set]
    exact h.size
  outside n hn hregion := by
    -- What changes is a frame of the scope, and all of these are inside.
    have hne : store.owner? x scope ≠ some n :=
      fun howner => hregion (hscope n (owner?_eq_some howner).1)
    rw [bindings_set_of_ne hne]
    exact h.outside n hn hregion
  inside n hn y u hu := by
    rw [lookup_bindings_set] at hu
    split at hu
    · cases hu
      exact hv
    · exact h.inside n hn y u hu

/-- The region with the frame that is allocated next. -/
def grown (store : Store) (region : Nat → Prop) (n : Nat) : Prop :=
  region n ∨ n = store.frames.size

theorem Sealed.allocate (h : store.Sealed body origin region) {bindings : Bindings}
    (hbindings : ∀ x v, bindings.lookup x = some v → v.Match (.inside body region) v) :
    (store.allocate bindings).2.Sealed body origin (store.grown region) where
  size := Nat.le_trans h.size (by simp [Store.allocate])
  outside n hn hregion := by
    rw [bindings_allocate, if_neg fun heq => hregion (.inr heq)]
    exact h.outside n hn fun hn => hregion (.inl hn)
  inside n hn y u hu := by
    have hmono : u.Match (.inside body region) u → u.Match (.inside body (store.grown region)) u :=
      fun hu => match_inside_mono hu fun _ => .inl
    rw [bindings_allocate] at hu
    split at hu
    · exact hmono (hbindings y u hu)
    · next hne => exact hmono (h.inside n (hn.resolve_right hne) y u hu)

end Store

namespace Likeness

variable {limit limit' : Nat} {body : Function → Prop} {output : Output → Prop} {origin : Store}

/-- **Evaluation keeps to its region.** -/
theorem region_lawful (hle : limit ≤ limit')
    (hwrite : ∀ o text, output o → output (o.write text).2) :
    (region limit limit' body output origin).Lawful where
  refl _ := ⟨fun _ => id, fun _ _ => id⟩
  trans h h' := ⟨fun n hn => h'.1 n (h.1 n hn), fun n hn hn' => h.2 n hn (h'.2 n hn hn')⟩
  identity_mono _ h := h
  scope_mono h hscope := ⟨hscope.1, fun n hn => h.1 n (hscope.2 n hn)⟩
  place_mono h hscope := ⟨hscope.1, fun n hn => h.1 n (hscope.2 n hn)⟩
  scope_of_place h := h
  oneToOne _ := .of_eq fun _ _ => id
  parameters h := ⟨congrArg Function.parameters h.1, fun _ _ => trivial⟩
  named _ _ _ := trivial
  defined _ := ⟨fun _ => trivial, fun _ _ _ => id⟩
  limit_le := hle
  overflow span hlt := ⟨hlt, span, rfl⟩
  depth n h := ⟨congrArg (fun s : State => { s with depth := n }) h.1, h.2⟩
  fresh {w s s'} h := by
    obtain ⟨rfl, hstate⟩ := h
    exact ⟨w, ⟨fun _ => id, fun _ _ => id⟩, ⟨rfl, hstate⟩, rfl⟩
  lookup {w s s' scope scope' x} h hscope _ := by
    obtain ⟨rfl, hsealed, -⟩ := h
    obtain ⟨rfl, hinside⟩ := hscope
    cases hlookup : s.store.lookup x scope with
    | none => exact .none
    | some v => exact .some (hsealed.lookup hinside hlookup)
  declare {w s s' scope scope' x v v'} h hscope _ hv := by
    obtain ⟨rfl, hsealed, houtput⟩ := h
    obtain ⟨rfl, hinside⟩ := hscope
    obtain rfl : v = v' := Store.eq_of_match_inside hv
    refine ⟨rfl, rfl, hsealed.declare (hinside _ ?_) hv, houtput⟩
    exact scope.frame_mem_frames
  set {w s s' scope scope' x v v'} h hscope _ hv := by
    obtain ⟨rfl, hsealed, houtput⟩ := h
    obtain ⟨rfl, hinside⟩ := hscope
    obtain rfl : v = v' := Store.eq_of_match_inside hv
    exact ⟨rfl, rfl, hsealed.set hinside hv, houtput⟩
  newInner {w s s' scope scope' b b'} h hscope _ hentries := by
    obtain ⟨rfl, hsealed, houtput⟩ := h
    obtain ⟨rfl, hinside⟩ := hscope
    obtain rfl : b = b' := Value.eq_of_matchAt (fun _ _ => Store.eq_of_match_inside) hentries
    refine ⟨s.store.grown w, ⟨fun _ => .inl, fun n hn hn' => ?_⟩, ⟨rfl, ?_, houtput⟩, rfl, ?_⟩
    · refine hn'.resolve_right fun heq => ?_
      have := hsealed.size
      omega
    · exact hsealed.allocate fun x v => Store.match_inside_of_lookup hentries
    · intro n hn
      rcases List.mem_cons.mp hn with rfl | hn
      · exact .inr rfl
      · exact .inl (hinside n hn)
  write {w s s'} text h := by
    obtain ⟨rfl, hsealed, houtput⟩ := h
    exact ⟨rfl, rfl, hsealed, hwrite _ _ houtput⟩

theorem region_reflexive {grant : Node → Prop}
    (children : ∀ m k, grant m → k ∈ m.children → grant k)
    (hbody : ∀ f : Function, (∀ t ∈ f.body, grant (.ofStmt t)) → body f) :
    (region limit limit' body output origin).Reflexive grant where
  children := children _ _
  function h := ⟨rfl, hbody _ h⟩
  name _ := trivial
  binder _ := trivial
  place h := h
  error _ := rfl

/-- Evaluation keeps to its region whatever the syntax is, if that is so of the functions. -/
theorem region_closed : (region limit limit' (fun _ => True) output origin).Closed
    (Trees.same fun _ => True) :=
  (region_reflexive (fun _ _ _ _ => trivial) fun _ _ => trivial).closed
    fun _ _ h => ⟨h.1, fun _ _ => trivial⟩

end Likeness

end Script
