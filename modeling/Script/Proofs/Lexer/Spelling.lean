import Mathlib.Data.List.TakeWhile
import Script.Lexeme.Scan

/-!
# How tokens are spelled

`Spells token text` says that the text, all of it, is a way to spell the token.  It is a list of the
shapes that tokens have and knows nothing of a scanner.  The scanner takes such a text from the
front of a source (`spells_of_munch`), it takes the whole of one that stands alone
(`munch_of_spells`), and of all texts of this kind at the front of a source it takes the longest
(`length_le_of_spells`).
-/

namespace Script

theorem Keyword.eq_spelling_of_ofSpelling? {name : String} {word : Keyword}
    (h : ofSpelling? name = some word) : name = word.spelling := by
  unfold ofSpelling? at h
  split at h <;> cases h <;> rfl

namespace Lexeme

/-- The two characters that close a block comment. -/
def close : List Char := ['*', '/']

/-- The text is a way to spell the token. -/
inductive Spells : Token → List Char → Prop
  | whole {ds : List Char} (digits : ∀ d ∈ ds, d.isDigit = true) (nonempty : ds ≠ []) :
      Spells (.number (Numeral.value ⟨false, ds, [], 0⟩)) ds
  | decimal {ds fs : List Char} (digits : ∀ d ∈ ds, d.isDigit = true) (nonempty : ds ≠ [])
      (fraction : ∀ d ∈ fs, d.isDigit = true) :
      Spells (.number (Numeral.value ⟨false, ds, fs, 0⟩)) (ds ++ '.' :: fs)
  | string {q : Char} {cs : List Char} (quote : isQuote q = true) (plain : q ∉ cs) :
      Spells (.string (String.ofList cs)) (q :: (cs ++ [q]))
  | keyword (word : Keyword) : Spells (.keyword word) word.spelling.toList
  | identifier {c : Char} {cs : List Char} (start : isNameStart c = true)
      (parts : ∀ d ∈ cs, isNamePart d = true)
      (free : Keyword.ofSpelling? (String.ofList (c :: cs)) = none) :
      Spells (.identifier (String.ofList (c :: cs))) (c :: cs)
  | lineComment {cs : List Char} (line : ∀ c ∈ cs, isLineEnd c = false) :
      Spells (.comment (String.ofList cs)) ('/' :: '/' :: cs)
  /-- The first `*/` behind the opening is the one at the end. -/
  | blockComment {cs : List Char} (inner : ¬ close <:+: cs ++ ['*']) :
      Spells (.comment (String.ofList cs)) ('/' :: '*' :: (cs ++ close))
  /-- A comment that is never closed. -/
  | openComment {cs : List Char} (inner : ¬ close <:+: cs) :
      Spells (.comment (String.ofList cs)) ('/' :: '*' :: cs)
  | symbol (mark : Symbol) : Spells (.symbol mark) mark.spelling.toList

/-! ## Block comments -/

theorem close_infix_cons {c : Char} {cs : List Char} :
    close <:+: c :: cs ↔ (c = '*' ∧ cs.head? = some '/') ∨ close <:+: cs := by
  rw [List.infix_cons_iff, close, List.cons_prefix_cons]
  cases cs with
  | nil => simp
  | cons d cs => simp [List.cons_prefix_cons, eq_comm]

/-- A text without a `*/` is not split. -/
theorem splitAtClose_open {cs : List Char} (h : ¬ close <:+: cs) (seen : List Char) :
    splitAtClose seen cs = (seen.reverse ++ cs, []) := by
  induction cs generalizing seen with
  | nil => rw [splitAtClose, List.append_nil]
  | cons c cs ih =>
    rw [close_infix_cons, not_or] at h
    rw [splitAtClose, if_neg h.1, ih h.2]
    simp

/-- A text is split before the first `*/`. -/
theorem splitAtClose_closed {cs : List Char} (h : ¬ close <:+: cs ++ ['*'])
    (seen rest : List Char) :
    splitAtClose seen (cs ++ close ++ rest) = (seen.reverse ++ cs, close ++ rest) := by
  induction cs generalizing seen with
  | nil =>
    show splitAtClose seen ('*' :: '/' :: rest) = _
    rw [splitAtClose, if_pos ⟨rfl, rfl⟩, List.append_nil]
    rfl
  | cons c cs ih =>
    rw [List.cons_append, close_infix_cons, not_or] at h
    have hfirst : ¬ (c = '*' ∧ (cs ++ close ++ rest).head? = some '/') := by
      rintro ⟨hc, hhead⟩
      refine h.1 ⟨hc, ?_⟩
      cases cs with
      | nil => cases hhead
      | cons d cs => exact hhead
    rw [List.cons_append, List.cons_append, splitAtClose, if_neg hfirst, ih h.2]
    simp

/-- A text is closed somewhere for the first time, or it is open. -/
theorem closed_or_open (cs : List Char) :
    (∃ text rest, cs = text ++ close ++ rest ∧ ¬ close <:+: text ++ ['*']) ∨
      ¬ close <:+: cs := by
  induction cs with
  | nil => exact .inr (by simp [close])
  | cons c cs ih =>
    by_cases hfirst : c = '*' ∧ cs.head? = some '/'
    · obtain ⟨rfl, hhead⟩ := hfirst
      obtain ⟨rest, rfl⟩ := List.head?_eq_some_iff.mp hhead
      exact .inl ⟨[], rest, rfl, by decide⟩
    · rcases ih with ⟨text, rest, rfl, htext⟩ | hopen
      · refine .inl ⟨c :: text, rest, rfl, ?_⟩
        rw [List.cons_append, close_infix_cons, not_or]
        refine ⟨?_, htext⟩
        rintro ⟨hc, hhead⟩
        refine hfirst ⟨hc, ?_⟩
        cases text with
        | nil => cases hhead
        | cons d text => exact hhead
      · refine .inr ?_
        rw [close_infix_cons, not_or]
        exact ⟨hfirst, hopen⟩

/-! ## Ways through the scanner -/

theorem isDigit_eq_false_of_isNameStart {c : Char} (h : isNameStart c = true) :
    c.isDigit = false := by
  rw [Bool.eq_false_iff]
  intro hd
  have hlast : c.val.toNat ≤ 57 :=
    UInt32.le_iff_toNat_le.mp (of_decide_eq_true (Bool.and_eq_true_iff.mp hd).2)
  rcases Bool.or_eq_true_iff.mp h with hletter | hunderscore
  · rcases Bool.or_eq_true_iff.mp hletter with hupper | hlower
    · have hfirst : 65 ≤ c.val.toNat := UInt32.le_iff_toNat_le.mp (of_decide_eq_true hupper).1
      omega
    · have hfirst : 97 ≤ c.val.toNat :=
        UInt32.le_iff_toNat_le.mp (of_decide_eq_true (Bool.and_eq_true_iff.mp hlower).1)
      omega
  · rw [of_decide_eq_true hunderscore] at hd
    revert hd
    decide

theorem munch_digit {c : Char} (h : c.isDigit = true) (cs : List Char) :
    munch c cs = .ok (munchNumber (c :: cs)) := by
  unfold munch
  rw [if_pos h]

theorem munch_nameStart {c : Char} (h : isNameStart c = true) (cs : List Char) :
    munch c cs = .ok (munchWord (c :: cs)) := by
  unfold munch
  rw [isDigit_eq_false_of_isNameStart h, if_neg nofun, if_pos h]

theorem munch_quote {q : Char} (h : isQuote q = true) (cs : List Char) :
    munch q cs = munchString q cs := by
  simp only [isQuote, Bool.or_eq_true, decide_eq_true_eq] at h
  rcases h with (rfl | rfl) | rfl <;> rfl

/-- The ways through `munch`, one for each kind of token. -/
theorem munch_cases {c : Char} {cs : List Char} {m : Munch} (h : munch c cs = .ok m) :
    (c.isDigit = true ∧ m = munchNumber (c :: cs)) ∨
    (isNameStart c = true ∧ m = munchWord (c :: cs)) ∨
    (isQuote c = true ∧ munchString c cs = .ok m) ∨
    (∃ rest, c = '/' ∧ cs = '/' :: rest ∧ m = munchLineComment rest) ∨
    (∃ rest, c = '/' ∧ cs = '*' :: rest ∧ m = munchBlockComment rest) ∨
    munchSymbol c cs = .ok m := by
  unfold munch at h
  split at h
  · next hdigit => exact .inl ⟨hdigit, (Except.ok.inj h).symm⟩
  split at h
  · next hname => exact .inr (.inl ⟨hname, (Except.ok.inj h).symm⟩)
  split at h
  · next hquote => exact .inr (.inr (.inl ⟨hquote, h⟩))
  split at h
  · exact .inr (.inr (.inr (.inl ⟨_, rfl, rfl, (Except.ok.inj h).symm⟩)))
  · exact .inr (.inr (.inr (.inr (.inl ⟨_, rfl, rfl, (Except.ok.inj h).symm⟩))))
  · exact .inr (.inr (.inr (.inr (.inr h))))

/-- What is taken begins with the first character. -/
theorem text_eq_cons_of_munch {c : Char} {cs : List Char} {m : Munch} (h : munch c cs = .ok m) :
    ∃ ds, m.text = c :: ds ∧ ds ++ m.rest = cs := by
  obtain ⟨d, ds, htext⟩ := List.exists_cons_of_ne_nil (munch_text_ne_nil h)
  have hwhole := munch_text_append_rest h
  rw [htext, List.cons_append, List.cons.injEq] at hwhole
  obtain ⟨rfl, hrest⟩ := hwhole
  exact ⟨ds, htext, hrest⟩

/-! ## What is taken is spelled -/

theorem spells_munchNumber {c : Char} (h : c.isDigit = true) (cs : List Char) :
    Spells (munchNumber (c :: cs)).token (munchNumber (c :: cs)).text := by
  have hdigits : ∀ d ∈ (c :: cs).takeWhile Char.isDigit, d.isDigit = true :=
    fun d hd => List.mem_takeWhile_imp hd
  have hne : (c :: cs).takeWhile Char.isDigit ≠ [] := by
    rw [List.takeWhile_cons_of_pos h]
    exact List.cons_ne_nil _ _
  unfold munchNumber
  split
  · exact .decimal hdigits hne fun d hd => List.mem_takeWhile_imp hd
  · exact .whole hdigits hne

theorem isNamePart_of_isNameStart {c : Char} (h : isNameStart c = true) : isNamePart c = true := by
  simp only [isNameStart, isNamePart, Char.isAlphanum, Bool.or_eq_true] at h ⊢
  exact h.imp_left .inl

theorem spells_munchWord {c : Char} (h : isNameStart c = true) (cs : List Char) :
    Spells (munchWord (c :: cs)).token (munchWord (c :: cs)).text := by
  have htext : (c :: cs).takeWhile isNamePart = c :: cs.takeWhile isNamePart :=
    List.takeWhile_cons_of_pos (isNamePart_of_isNameStart h)
  simp only [munchWord, htext]
  split
  · next word hword =>
    have hspelling := congrArg String.toList (Keyword.eq_spelling_of_ofSpelling? hword)
    rw [String.toList_ofList] at hspelling
    rw [hspelling]
    exact .keyword word
  · next hfree => exact .identifier h (fun d hd => List.mem_takeWhile_imp hd) hfree

theorem spells_munchString {q : Char} {cs : List Char} {m : Munch} (hq : isQuote q = true)
    (h : munchString q cs = .ok m) : Spells m.token m.text := by
  unfold munchString at h
  split at h
  · cases h
  · cases h
    refine .string hq fun hmem => ?_
    have hne := List.mem_takeWhile_imp hmem
    simp at hne

theorem spells_munchLineComment (cs : List Char) :
    Spells (munchLineComment cs).token (munchLineComment cs).text := by
  refine .lineComment fun c hc => ?_
  have hline := List.mem_takeWhile_imp hc
  simpa using hline

theorem spells_munchBlockComment (cs : List Char) :
    Spells (munchBlockComment cs).token (munchBlockComment cs).text := by
  rcases closed_or_open cs with ⟨text, rest, rfl, htext⟩ | hopen
  · simp only [munchBlockComment, splitAtClose_closed htext]
    exact .blockComment htext
  · simp only [munchBlockComment, splitAtClose_open hopen, List.take_nil, List.append_nil]
    exact .openComment hopen

theorem spelling_of_ofPair? {c d : Char} {mark : Symbol} (h : Symbol.ofPair? c d = some mark) :
    mark.spelling.toList = [c, d] := by
  unfold Symbol.ofPair? at h
  split at h <;> cases h <;> rfl

theorem spelling_of_ofChar? {c : Char} {mark : Symbol} (h : Symbol.ofChar? c = some mark) :
    mark.spelling.toList = [c] := by
  unfold Symbol.ofChar? at h
  split at h <;> cases h <;> rfl

theorem spells_munchSymbol {c : Char} {cs : List Char} {m : Munch}
    (h : munchSymbol c cs = .ok m) : Spells m.token m.text := by
  have hsingle : ∀ mark, Symbol.ofChar? c = some mark → Spells (.symbol mark) [c] := by
    intro mark hmark
    rw [← spelling_of_ofChar? hmark]
    exact .symbol mark
  unfold munchSymbol at h
  cases cs with
  | nil =>
    cases hc : Symbol.ofChar? c with
    | none =>
      rw [hc] at h
      cases h
    | some mark =>
      rw [hc] at h
      cases h
      exact hsingle mark hc
  | cons d rest =>
    cases hp : Symbol.ofPair? c d with
    | some mark =>
      simp only [hp, Option.map_some] at h
      cases h
      rw [show ([c, d] : List Char) = _ from (spelling_of_ofPair? hp).symm]
      exact .symbol mark
    | none =>
      cases hc : Symbol.ofChar? c with
      | none =>
        simp only [hp, hc, Option.map_none] at h
        cases h
      | some mark =>
        simp only [hp, hc, Option.map_none] at h
        cases h
        exact hsingle mark hc

/-- **What is taken from a source is spelled like its token.** -/
theorem spells_of_munch {c : Char} {cs : List Char} {m : Munch} (h : munch c cs = .ok m) :
    Spells m.token m.text := by
  rcases munch_cases h with ⟨hdigit, rfl⟩ | ⟨hname, rfl⟩ | ⟨hquote, hstring⟩ | ⟨rest, -, -, rfl⟩ |
    ⟨rest, -, -, rfl⟩ | hsymbol
  · exact spells_munchNumber hdigit cs
  · exact spells_munchWord hname cs
  · exact spells_munchString hquote hstring
  · exact spells_munchLineComment rest
  · exact spells_munchBlockComment rest
  · exact spells_munchSymbol hsymbol

/-! ## What is spelled is taken whole -/

/-- A number is taken with all its digits; a point behind them is not taken for granted. -/
theorem munchNumber_whole {ds : List Char} (h : ∀ d ∈ ds, d.isDigit = true) :
    munchNumber ds = ⟨.number (Numeral.value ⟨false, ds, [], 0⟩), ds, []⟩ := by
  have htake : ds.takeWhile Char.isDigit = ds := List.takeWhile_eq_self_iff.mpr h
  have hdrop : ds.dropWhile Char.isDigit = [] := List.dropWhile_eq_nil_iff.mpr h
  simp only [munchNumber, htake, hdrop]

theorem munchNumber_decimal {ds : List Char} (h : ∀ d ∈ ds, d.isDigit = true) (fs : List Char) :
    munchNumber (ds ++ '.' :: fs) = ⟨.number (Numeral.value
      ⟨false, ds, fs.takeWhile Char.isDigit, 0⟩), ds ++ '.' :: fs.takeWhile Char.isDigit,
      fs.dropWhile Char.isDigit⟩ := by
  have htake : (ds ++ '.' :: fs).takeWhile Char.isDigit = ds := by
    rw [List.takeWhile_append_of_pos h, List.takeWhile_cons_of_neg (by decide), List.append_nil]
  have hdrop : (ds ++ '.' :: fs).dropWhile Char.isDigit = '.' :: fs := by
    rw [List.dropWhile_append_of_pos h, List.dropWhile_cons_of_neg (by decide)]
  simp only [munchNumber, htake, hdrop]

theorem munchWord_append {cs : List Char} (h : ∀ c ∈ cs, isNamePart c = true) (rest : List Char) :
    (munchWord (cs ++ rest)).text = cs ++ rest.takeWhile isNamePart :=
  List.takeWhile_append_of_pos h

theorem munchString_closed {q : Char} {cs : List Char} (h : q ∉ cs) (rest : List Char) :
    munchString q (cs ++ q :: rest) = .ok ⟨.string (String.ofList cs), q :: (cs ++ [q]), rest⟩ := by
  have hplain : ∀ c ∈ cs, decide (c ≠ q) = true :=
    fun c hc => decide_eq_true fun heq => h (heq ▸ hc)
  have htake : (cs ++ q :: rest).takeWhile (· ≠ q) = cs := by
    rw [List.takeWhile_append_of_pos hplain, List.takeWhile_cons_of_neg (by simp), List.append_nil]
  have hdrop : (cs ++ q :: rest).dropWhile (· ≠ q) = q :: rest := by
    rw [List.dropWhile_append_of_pos hplain, List.dropWhile_cons_of_neg (by simp)]
  simp only [munchString, htake, hdrop]

theorem munchBlockComment_closed {cs : List Char} (h : ¬ close <:+: cs ++ ['*'])
    (rest : List Char) :
    munchBlockComment (cs ++ close ++ rest) =
      ⟨.comment (String.ofList cs), '/' :: '*' :: (cs ++ close), rest⟩ := by
  simp only [munchBlockComment, splitAtClose_closed h]
  rfl

theorem munchBlockComment_open {cs : List Char} (h : ¬ close <:+: cs) :
    munchBlockComment cs = ⟨.comment (String.ofList cs), '/' :: '*' :: cs, []⟩ := by
  simp only [munchBlockComment, splitAtClose_open h, List.take_nil, List.drop_nil, List.append_nil]
  rfl

/-- What begins a number, a name or a string is no blank. -/
theorem isSpace_eq_false {c : Char}
    (h : c.isDigit = true ∨ isNameStart c = true ∨ isQuote c = true) : isSpace c = false := by
  rw [Bool.eq_false_iff]
  intro hspace
  simp only [isSpace, Bool.or_eq_true, decide_eq_true_eq] at hspace
  rcases hspace with ((rfl | rfl) | rfl) | rfl <;> revert h <;> decide

/-- **A text that spells a token is taken whole.** -/
theorem munch_of_spells {token : Token} {text : List Char} (h : Spells token text) :
    ∃ c cs, text = c :: cs ∧ isSpace c = false ∧ munch c cs = .ok ⟨token, text, []⟩ := by
  cases h with
  | whole digits nonempty =>
    obtain ⟨c, cs, rfl⟩ := List.exists_cons_of_ne_nil nonempty
    have hc := digits c List.mem_cons_self
    refine ⟨c, cs, rfl, isSpace_eq_false (.inl hc), ?_⟩
    rw [munch_digit hc, munchNumber_whole digits]
  | @decimal ds fs digits nonempty fraction =>
    obtain ⟨c, cs, rfl⟩ := List.exists_cons_of_ne_nil nonempty
    have hc := digits c List.mem_cons_self
    refine ⟨c, cs ++ '.' :: fs, rfl, isSpace_eq_false (.inl hc), ?_⟩
    rw [munch_digit hc, ← List.cons_append, munchNumber_decimal digits,
      List.takeWhile_eq_self_iff.mpr fraction, List.dropWhile_eq_nil_iff.mpr fraction]
  | @string q cs quote plain =>
    refine ⟨q, cs ++ [q], rfl, isSpace_eq_false (.inr (.inr quote)), ?_⟩
    rw [munch_quote quote, munchString_closed plain]
  | keyword word => cases word <;> exact ⟨_, _, rfl, rfl, rfl⟩
  | @identifier c cs start parts free =>
    refine ⟨c, cs, rfl, isSpace_eq_false (.inr (.inl start)), ?_⟩
    have hall : ∀ d ∈ c :: cs, isNamePart d = true :=
      List.forall_mem_cons.mpr ⟨isNamePart_of_isNameStart start, parts⟩
    rw [munch_nameStart start]
    simp only [munchWord, List.takeWhile_eq_self_iff.mpr hall, List.dropWhile_eq_nil_iff.mpr hall,
      free]
  | @lineComment cs line =>
    refine ⟨'/', '/' :: cs, rfl, rfl, ?_⟩
    have hall : ∀ c ∈ cs, (!isLineEnd c) = true := fun c hc => by rw [line c hc]; rfl
    show Except.ok (munchLineComment cs) = _
    simp only [munchLineComment, List.takeWhile_eq_self_iff.mpr hall,
      List.dropWhile_eq_nil_iff.mpr hall]
  | @blockComment cs inner =>
    refine ⟨'/', '*' :: (cs ++ close), rfl, rfl, ?_⟩
    have htaken := munchBlockComment_closed inner []
    rw [List.append_nil] at htaken
    exact congrArg Except.ok htaken
  | @openComment cs inner =>
    exact ⟨'/', '*' :: cs, rfl, rfl, congrArg Except.ok (munchBlockComment_open inner)⟩
  | symbol mark => cases mark <;> exact ⟨_, _, rfl, rfl, rfl⟩

/-- A text spells one token at most. -/
theorem Spells.unique {token token' : Token} {text : List Char} (h : Spells token text)
    (h' : Spells token' text) : token = token' := by
  obtain ⟨c, cs, rfl, -, hmunch⟩ := munch_of_spells h
  obtain ⟨d, ds, heq, -, hmunch'⟩ := munch_of_spells h'
  cases heq
  rw [hmunch] at hmunch'
  cases hmunch'
  rfl

/-! ## The longest text is taken -/

theorem length_le_munchNumber {ds : List Char} (h : ∀ d ∈ ds, d.isDigit = true)
    (rest : List Char) : ds.length ≤ (munchNumber (ds ++ rest)).text.length := by
  have hwhole : (ds ++ rest).takeWhile Char.isDigit = ds ++ rest.takeWhile Char.isDigit :=
    List.takeWhile_append_of_pos h
  unfold munchNumber
  split
  · rw [hwhole]
    simp only [List.length_append]
    omega
  · rw [hwhole, List.length_append]
    omega

/-- An open comment does not reach beyond the place where it is closed. -/
theorem length_le_munchBlockComment {cs : List Char} (h : ¬ close <:+: cs) (rest : List Char) :
    cs.length + 2 ≤ (munchBlockComment (cs ++ rest)).text.length := by
  rcases closed_or_open (cs ++ rest) with ⟨text, more, heq, htext⟩ | hopen
  · rw [heq, munchBlockComment_closed htext]
    by_cases hle : cs.length ≤ (text ++ close).length
    · simpa using hle
    · -- Otherwise the comment holds all of `text` and the `*/` behind it.
      exfalso
      obtain ⟨more', hcs⟩ : text ++ close <+: cs :=
        List.prefix_of_prefix_length_le (List.prefix_append _ more)
          (heq ▸ List.prefix_append cs rest) (Nat.le_of_not_le hle)
      exact h ⟨text, more', hcs⟩
  · rw [munchBlockComment_open hopen]
    simp

theorem spelling_eq_cons (word : Keyword) : ∃ first others, word.spelling.toList = first :: others ∧
    isNameStart first = true ∧ ∀ c ∈ others, isNamePart c = true := by
  cases word <;> exact ⟨_, _, rfl, by decide, List.all_eq_true.mp (by decide)⟩

theorem length_le_of_word {first c : Char} {others rest cs : List Char} {m : Munch}
    (start : isNameStart first = true) (parts : ∀ c ∈ others, isNamePart c = true)
    (heq : first :: others ++ rest = c :: cs) (hm : munch c cs = .ok m) :
    (first :: others).length ≤ m.text.length := by
  have hall : ∀ c ∈ first :: others, isNamePart c = true :=
    List.forall_mem_cons.mpr ⟨isNamePart_of_isNameStart start, parts⟩
  rw [List.cons_append, List.cons.injEq] at heq
  obtain ⟨rfl, rfl⟩ := heq
  rw [munch_nameStart start, ← List.cons_append] at hm
  cases hm
  rw [munchWord_append hall, List.length_append]
  omega

theorem length_le_munchLineComment {cs : List Char} (h : ∀ c ∈ cs, isLineEnd c = false)
    (rest : List Char) : cs.length + 2 ≤ (munchLineComment (cs ++ rest)).text.length := by
  have hall : ∀ c ∈ cs, (!isLineEnd c) = true := fun c hc => by rw [h c hc]; rfl
  simp only [munchLineComment, List.takeWhile_append_of_pos hall, List.length_cons,
    List.length_append]
  omega

/-- A mark of two characters is taken before one of a single character. -/
theorem length_le_of_symbol {mark : Symbol} {c : Char} {cs rest : List Char} {m : Munch}
    (heq : mark.spelling.toList ++ rest = c :: cs) (hm : munch c cs = .ok m) :
    mark.spelling.toList.length ≤ m.text.length := by
  have hpos : 1 ≤ m.text.length := List.length_pos_iff.mpr (munch_text_ne_nil hm)
  cases mark with
  | lessEqual | greaterEqual | equalEqual | bangEqual | plusAssign | minusAssign | starAssign |
    slashAssign | percentAssign | andAnd | orOr =>
    cases heq
    cases hm
    exact Nat.le_refl 2
  | _ => exact hpos

/-- **No text that spells a token is longer than what is taken.** -/
theorem length_le_of_spells {token : Token} {text rest cs : List Char} {c : Char} {m : Munch}
    (h : Spells token text) (heq : text ++ rest = c :: cs) (hm : munch c cs = .ok m) :
    text.length ≤ m.text.length := by
  cases h with
  | whole digits nonempty =>
    obtain ⟨d, ds, rfl⟩ := List.exists_cons_of_ne_nil nonempty
    cases heq
    rw [munch_digit (digits _ List.mem_cons_self)] at hm
    cases hm
    exact length_le_munchNumber digits rest
  | @decimal ds fs digits nonempty fraction =>
    obtain ⟨d, ds, rfl⟩ := List.exists_cons_of_ne_nil nonempty
    rw [List.append_assoc, List.cons_append, List.cons_append, List.cons.injEq] at heq
    obtain ⟨rfl, rfl⟩ := heq
    rw [munch_digit (digits _ List.mem_cons_self), ← List.cons_append,
      munchNumber_decimal digits, List.takeWhile_append_of_pos fraction] at hm
    cases hm
    simp only [List.length_append, List.length_cons]
    omega
  | @string q contents quote plain =>
    rw [List.cons_append, List.append_assoc, List.singleton_append, List.cons.injEq] at heq
    obtain ⟨rfl, rfl⟩ := heq
    rw [munch_quote quote, munchString_closed plain] at hm
    cases hm
    exact Nat.le_refl _
  | keyword word =>
    obtain ⟨first, others, hspelling, start, parts⟩ := spelling_eq_cons word
    rw [hspelling] at heq ⊢
    exact length_le_of_word start parts heq hm
  | @identifier first others start parts free => exact length_le_of_word start parts heq hm
  | @lineComment contents line =>
    cases heq
    cases hm
    exact length_le_munchLineComment line rest
  | @blockComment contents inner =>
    cases heq
    have htaken : munchBlockComment (contents ++ close ++ rest) = m := Except.ok.inj hm
    rw [← htaken, munchBlockComment_closed inner]
  | @openComment contents inner =>
    cases heq
    cases hm
    exact length_le_munchBlockComment inner rest
  | symbol mark => exact length_le_of_symbol heq hm

end Lexeme

end Script
