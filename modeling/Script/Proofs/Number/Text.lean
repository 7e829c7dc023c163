import Script.Proofs.Lexer.Partition
import Script.Proofs.Lexer.Rendering
import Script.Proofs.Number.Literal
import Script.Proofs.Number.Order
import Script.Value.Operators

/-!
# The text of a number is read alike everywhere

There is one way to write a number and there are two to read one.  The scanner takes digits and a
point from a source; `Number.ofText?` takes a whole text, with blanks around it, a sign, and names
for the infinities.  Where the scanner finds a number, the other reader finds the same number in the
text (`Numeral.read?_of_spells`), and it reads whatever a number shows as (`ofText?_display`).
-/

namespace Script

/-! ## Reading a numeral among blanks -/

namespace Text

variable {cs before after : List Char}

/-- Blanks around a text that has none are all that is taken off. -/
theorem trim_of_blanks (hbefore : ∀ c ∈ before, isBlank c = true)
    (hafter : ∀ c ∈ after, isBlank c = true) (h : ∀ c ∈ cs, isBlank c = false)
    (nonempty : cs ≠ []) : trim (before ++ cs ++ after) = cs := by
  have hfirst : ∀ d ∈ (cs ++ after).head?, isBlank d = false := by
    obtain ⟨c, rest, rfl⟩ := List.exists_cons_of_ne_nil nonempty
    rintro d ⟨⟩
    exact h c List.mem_cons_self
  have hlast : ∀ d ∈ cs.reverse.head?, isBlank d = false := fun d hd =>
    h d (List.mem_reverse.mp (List.mem_of_mem_head? hd))
  have hreverse : ∀ c ∈ after.reverse, isBlank c = true := fun c hc =>
    hafter c (List.mem_reverse.mp hc)
  rw [trim, List.append_assoc, Lexeme.dropWhile_append_of_stop hbefore hfirst,
    List.reverse_append, Lexeme.dropWhile_append_of_stop hreverse hlast, List.reverse_reverse]

end Text

namespace Numeral

/-- The characters of a numeral without an exponent. -/
def IsPlain (c : Char) : Prop := c.isDigit = true ∨ c = '.' ∨ c = '-'

theorem IsPlain.not_isBlank {c : Char} (h : IsPlain c) : Text.isBlank c = false := by
  rcases h with h | rfl | rfl
  · have hfirst : 48 ≤ c.toNat :=
      UInt32.le_iff_toNat_le.mp (of_decide_eq_true (Bool.and_eq_true_iff.mp h).1)
    have hlast : c.toNat ≤ 57 :=
      UInt32.le_iff_toNat_le.mp (of_decide_eq_true (Bool.and_eq_true_iff.mp h).2)
    rw [Bool.eq_false_iff]
    intro hblank
    simp only [Text.isBlank, Bool.or_eq_true, Bool.and_eq_true, decide_eq_true_eq] at hblank
    omega
  · rfl
  · rfl

theorem IsPlain.ne_capital {c : Char} (h : IsPlain c) : c ≠ 'I' := by
  rintro rfl
  revert h
  unfold IsPlain
  decide

variable {cs before after : List Char}

/-- **A plain text among blanks is read as a numeral.** -/
theorem ofText?_of_plain (h : ∀ c ∈ cs, IsPlain c) (nonempty : cs ≠ [])
    (hbefore : ∀ c ∈ before, Text.isBlank c = true)
    (hafter : ∀ c ∈ after, Text.isBlank c = true) :
    Number.ofText? (String.ofList (before ++ cs ++ after)) = (read? cs).map value := by
  have htrim := Text.trim_of_blanks hbefore hafter (fun c hc => (h c hc).not_isBlank) nonempty
  have hname : ∀ name : List Char, 'I' ∈ name → cs ≠ name := by
    rintro name hmem rfl
    exact (h 'I' hmem).ne_capital rfl
  rw [Number.ofText?, String.toList_ofList, htrim, if_neg nonempty, if_neg, if_neg]
  · exact hname _ (by decide)
  · rintro (heq | heq)
    · exact hname _ (by decide) heq
    · exact hname _ (by decide) heq

theorem ofText?_of_plain_alone (h : ∀ c ∈ cs, IsPlain c) (nonempty : cs ≠ []) :
    Number.ofText? (String.ofList cs) = (read? cs).map value := by
  have hread := @ofText?_of_plain cs [] [] h nonempty (List.forall_mem_nil _)
    (List.forall_mem_nil _)
  rwa [List.nil_append, List.append_nil] at hread

/-- A sign in front of a numeral that has none. -/
theorem read?_negated {c : Char} (h : c.isDigit = true) (cs : List Char) :
    read? ('-' :: c :: cs) = (read? (c :: cs)).map fun n => { n with negative := true } := by
  have hminus : sign ('-' :: c :: cs) = (true, c :: cs) := rfl
  simp only [read?, hminus, sign_of_digit h]
  split_ifs
  · rfl
  · rw [Option.map_map]
    rfl

/-- A number literal is a numeral as it stands, a point at its end included. -/
theorem read?_of_spells {x : Number} (h : Lexeme.Spells (.number x) cs) :
    ∃ n : Numeral, read? cs = some n ∧ n.negative = false ∧ n.value = x := by
  cases h with
  | whole digits nonempty => exact ⟨_, read?_whole digits nonempty, rfl, rfl⟩
  | decimal digits nonempty fraction =>
    exact ⟨_, read?_point digits nonempty fraction, rfl, rfl⟩

theorem plain_of_spells {x : Number} (h : Lexeme.Spells (.number x) cs) :
    cs ≠ [] ∧ ∀ c ∈ cs, IsPlain c := by
  cases h with
  | whole digits nonempty => exact ⟨nonempty, fun c hc => .inl (digits c hc)⟩
  | decimal digits nonempty fraction =>
    refine ⟨List.append_ne_nil_of_left_ne_nil nonempty _, fun c hc => ?_⟩
    rcases List.mem_append.mp hc with hc | hc
    · exact .inl (digits c hc)
    · rcases List.mem_cons.mp hc with rfl | hc
      · exact .inr (.inl rfl)
      · exact .inl (fraction c hc)

end Numeral

namespace Number

variable {x y : Number}

theorem neg_ofDecimal (c : Nat) (e : Int) : (ofDecimal false c e).neg = ofDecimal true c e := by
  unfold ofDecimal
  split_ifs <;> exact neg_ofMagnitude _

/-- A number literal with a sign in front is read as the number with the other sign. -/
theorem read?_negated_of_spells {cs : List Char} (h : Lexeme.Spells (.number x) cs) :
    (Numeral.read? ('-' :: cs)).map Numeral.value = some x.neg := by
  obtain ⟨n, hread, hsign, rfl⟩ := Numeral.read?_of_spells h
  obtain ⟨c, rest, rfl, hdigit⟩ := Lexeme.exists_digit_of_spells h
  rw [Numeral.read?_negated hdigit, hread, Option.map_some, Option.map_some, Numeral.value,
    Numeral.value, hsign, neg_ofDecimal]

/-- A number that is neither finite nor a NaN is an infinity. -/
theorem eq_infinity (hnan : x.isNaN = false) (h : x.isFinite = false) :
    x = negativeInfinity ∨ x = infinity := by
  have hlt := x.bits.toNat_lt
  have hle : ¬ infiniteMagnitude < x.magnitude := of_decide_eq_false hnan
  have hge : ¬ x.magnitude < infiniteMagnitude := of_decide_eq_false h
  rw [magnitude, signBit, infiniteMagnitude, fractionSize] at hle hge
  by_cases hsign : signBit ≤ x.bits.toNat
  · refine .inl (ext_toNat ?_)
    rw [negativeInfinity, toNat_ofMagnitude, if_pos rfl, Nat.min_self]
    simp only [signBit, infiniteMagnitude, fractionSize] at hsign ⊢
    omega
  · refine .inr (ext_toNat ?_)
    rw [infinity, toNat_ofMagnitude, if_neg Bool.false_ne_true, Nat.min_self]
    simp only [signBit, infiniteMagnitude, fractionSize] at hsign ⊢
    omega

/-- **What a number shows as is read as a number that is equal to it.** -/
theorem ofText?_display (h : x.isNaN = false) :
    ∃ y, ofText? x.display = some y ∧ y.eq x = true := by
  cases hfinite : x.isFinite with
  | true =>
    obtain ⟨ds, hspells, hdisplay⟩ := spells_display hfinite
    obtain ⟨hne, hplain⟩ := Numeral.plain_of_spells hspells
    rw [← String.ofList_toList (s := x.display), hdisplay]
    split_ifs with hsign
    · have hsigned : ∀ c ∈ '-' :: ds, Numeral.IsPlain c :=
        List.forall_mem_cons.mpr ⟨.inr (.inr rfl), hplain⟩
      have hread := Numeral.ofText?_of_plain_alone hsigned (List.cons_ne_nil _ _)
      rw [read?_negated_of_spells hspells, neg_absolute hfinite hsign.1] at hread
      exact ⟨x, hread, eq_self_iff.mpr h⟩
    · obtain ⟨n, hn, -, hvalue⟩ := Numeral.read?_of_spells hspells
      have hread := Numeral.ofText?_of_plain_alone hplain hne
      rw [hn, Option.map_some, hvalue] at hread
      exact ⟨x.absolute, hread, absolute_eq hfinite hsign⟩
  | false =>
    rcases eq_infinity h hfinite with rfl | rfl
    · exact ⟨negativeInfinity, rfl, rfl⟩
    · exact ⟨infinity, rfl, rfl⟩

/-- A text that is read as a number equal to another is not unequal to it. -/
theorem notEqual_of_ofText? {t : String} (hread : ofText? t = some y) (heq : y.eq x = true) :
    Value.binary .notEqual (.string t) (.number x) = .boolean false ∧
      Value.binary .notEqual (.number x) (.string t) = .boolean false := by
  have hreads : Value.readsAs t x = true := by
    rw [Value.readsAs, hread]
    exact heq
  have hleft : Value.looseEqual (.string t) (.number x) = Value.readsAs t x := rfl
  have hright : Value.looseEqual (.number x) (.string t) = Value.readsAs t x := rfl
  rw [Value.binary, Value.binary, hleft, hright, hreads]
  exact ⟨rfl, rfl⟩

/-- **The text of a number is read alike everywhere.**  What a number other than NaN shows as is
read as a number equal to it, so that the two are never unequal.  What a finite number without a
sign shows as is scanned to the number.  And wherever the scanner finds a number in a source, the
text that it found there, among any blanks, is read as the same number. -/
theorem texts_read_alike :
    (∀ x : Number, x.isNaN = false →
      (∃ y, ofText? x.display = some y ∧ y.eq x = true) ∧
      Value.binary .notEqual (.string (Value.number x).display) (.number x) = .boolean false ∧
      Value.binary .notEqual (.number x) (.string (Value.number x).display) = .boolean false) ∧
    (∀ x : Number, x.isFinite = true → x.isNegative = false →
      ∃ lexemes, Lexeme.scan x.display = .ok lexemes ∧
        lexemes.map Lexeme.token = [.number x, .endOfFile]) ∧
    (∀ (source : String) (lexemes : List Lexeme), Lexeme.scan source = .ok lexemes →
      ∀ lexeme ∈ lexemes, ∀ x : Number, lexeme.token = .number x →
        ∀ before after : List Char, (∀ c ∈ before, Text.isBlank c = true) →
          (∀ c ∈ after, Text.isBlank c = true) →
          ofText? (String.ofList (before ++ lexeme.slice source.toList ++ after)) = some x) := by
  refine ⟨fun x h => ?_, fun x h hsign => ?_, ?_⟩
  · obtain ⟨y, hread, heq⟩ := ofText?_display h
    have hdisplay : (Value.number x).display = x.display := Value.display_of_text rfl
    rw [hdisplay]
    exact ⟨⟨y, hread, heq⟩, notEqual_of_ofText? hread heq⟩
  · have hscan := Lexeme.scan_of_spells (spells_display_of_unsigned h hsign)
    rw [String.ofList_toList] at hscan
    exact ⟨_, hscan, rfl⟩
  · intro source lexemes hscan lexeme hmem x htoken before after hbefore hafter
    obtain ⟨tokens, rfl, hcut⟩ := (Lexeme.scans_of_scan hscan).cut_start
    rcases List.mem_append.mp hmem with hmem | hmem
    · have hspells := (hcut.sits lexeme hmem).spelled
      rw [htoken] at hspells
      obtain ⟨hne, hplain⟩ := Numeral.plain_of_spells hspells
      obtain ⟨n, hn, -, hvalue⟩ := Numeral.read?_of_spells hspells
      rw [Numeral.ofText?_of_plain hplain hne hbefore hafter, hn, Option.map_some, hvalue]
    · rw [List.mem_singleton.mp hmem] at htoken
      cases htoken

/-- The negative infinity; a tenth; and a literal that ends in a point, among blanks. -/
theorem texts_read_alike_infinity :
    (∃ y, ofText? negativeInfinity.display = some y ∧ y.eq negativeInfinity = true) ∧
    Value.binary .notEqual (.string (Value.number negativeInfinity).display)
      (.number negativeInfinity) = .boolean false ∧
    (∃ lexemes, Lexeme.scan (Number.mk 0x3fb999999999999a).display = .ok lexemes ∧
      lexemes.map Lexeme.token = [.number ⟨0x3fb999999999999a⟩, .endOfFile]) ∧
    ∃ lexemes x, Lexeme.scan "3." = .ok lexemes ∧
      lexemes.map Lexeme.token = [.number x, .endOfFile] ∧ ofText? " 3.\t" = some x := by
  obtain ⟨hread, hequal, -⟩ := texts_read_alike.1 negativeInfinity rfl
  refine ⟨hread, hequal, texts_read_alike.2.1 _ rfl rfl, ?_⟩
  have hdigit : ∀ d ∈ ['3'], d.isDigit = true := List.forall_mem_singleton.mpr rfl
  have hscan := Lexeme.scan_of_spells
    (.decimal hdigit (List.cons_ne_nil _ _) (List.forall_mem_nil _))
  refine ⟨_, _, hscan, rfl, ?_⟩
  exact texts_read_alike.2.2 "3." _ hscan _ List.mem_cons_self _ rfl [' '] ['\t']
    (List.forall_mem_singleton.mpr rfl) (List.forall_mem_singleton.mpr rfl)

end Number

end Script
