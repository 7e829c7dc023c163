import Script.Proofs.Lexer.Lines
import Script.Proofs.Number.Literal

/-!
# Where scanning fails

A source is read from boundary to boundary: a `Boundary` is an offset that is reached by skipping
blanks and taking the longest token each time, with the lexemes on the way to it.  This knows the
spellings of tokens and nothing of the scanner.  The scanner comes through every boundary
(`Boundary.scanFrom_eq`), what lies before a boundary is scanned alone as it is in front of the rest
(`Boundary.take`), and there is always a next boundary unless the source is at its end or the
character there is one that `Fails` (`Boundary.exists_end_or_fails`).  So scanning fails at such a
character and nowhere else (`scan_eq_error_iff`).
-/

namespace Script

/-- The first character of a mark of two is a mark by itself. -/
theorem Symbol.exists_ofChar?_of_ofPair? {c d : Char} {mark : Symbol}
    (h : ofPair? c d = some mark) : ∃ first, ofChar? c = some first := by
  unfold ofPair? at h
  split at h <;> first | exact ⟨_, rfl⟩ | cases h

namespace Lexeme

/-! ## Characters that nothing begins with -/

/-- Some token begins with the character. -/
def Begins (c : Char) : Prop := ∃ token cs, Spells token (c :: cs)

/-- Marks are missing where a character is none by itself. -/
theorem munchSymbol_eq_error_iff {c : Char} {cs : List Char} {refusal : Refusal} :
    munchSymbol c cs = .error refusal ↔ refusal = .unexpected ∧ Symbol.ofChar? c = none := by
  cases hc : Symbol.ofChar? c with
  | some mark =>
    refine ⟨fun h => ?_, nofun⟩
    unfold munchSymbol at h
    cases cs with
    | nil =>
      rw [hc] at h
      cases h
    | cons d cs =>
      cases hp : Symbol.ofPair? c d with
      | none =>
        simp only [hp, hc, Option.map_none] at h
        cases h
      | some mark =>
        simp only [hp, Option.map_some] at h
        cases h
  | none =>
    have hpair : ∀ d, Symbol.ofPair? c d = none := by
      intro d
      by_contra hne
      obtain ⟨mark, hmark⟩ := Option.ne_none_iff_exists'.mp hne
      obtain ⟨first, hfirst⟩ := Symbol.exists_ofChar?_of_ofPair? hmark
      rw [hc] at hfirst
      cases hfirst
    have hmunch : munchSymbol c cs = .error .unexpected := by
      cases cs with
      | nil => simp only [munchSymbol, hc]
      | cons d cs => simp only [munchSymbol, hpair d, Option.map_none, hc]
    rw [hmunch]
    constructor
    · rintro ⟨⟩
      exact ⟨rfl, rfl⟩
    · rintro ⟨rfl, -⟩
      rfl

/-- A string fails where its quote does not come again. -/
theorem munchString_eq_error_iff {q : Char} {cs : List Char} {refusal : Refusal} :
    munchString q cs = .error refusal ↔ refusal = .unterminated ∧ q ∉ cs := by
  have hnil : cs.dropWhile (· ≠ q) = [] ↔ q ∉ cs := by
    rw [List.dropWhile_eq_nil_iff]
    constructor
    · intro h hmem
      exact of_decide_eq_true (h q hmem) rfl
    · intro h c hc
      exact decide_eq_true fun heq => h (heq ▸ hc)
  unfold munchString
  split
  · next heq =>
    constructor
    · rintro ⟨⟩
      exact ⟨rfl, hnil.mp heq⟩
    · rintro ⟨rfl, -⟩
      rfl
  · next heq =>
    constructor
    · rintro ⟨⟩
    · intro h
      rw [hnil.mpr h.2] at heq
      cases heq

/-- The ways to be refused. -/
theorem munch_error_cases {c : Char} {cs : List Char} {refusal : Refusal}
    (h : munch c cs = .error refusal) :
    (isQuote c = true ∧ refusal = .unterminated ∧ c ∉ cs) ∨
    (refusal = .unexpected ∧ c.isDigit = false ∧ isNameStart c = false ∧ isQuote c = false ∧
      Symbol.ofChar? c = none) := by
  unfold munch at h
  split at h
  · cases h
  · next hdigit =>
    split at h
    · cases h
    · next hname =>
      split at h
      · next hquote => exact .inl ⟨hquote, munchString_eq_error_iff.mp h⟩
      · next hquote =>
        split at h
        · cases h
        · cases h
        · obtain ⟨rfl, hmark⟩ := munchSymbol_eq_error_iff.mp h
          exact .inr ⟨rfl, Bool.eq_false_iff.mpr hdigit, Bool.eq_false_iff.mpr hname,
            Bool.eq_false_iff.mpr hquote, hmark⟩

/-- A character that is in no class is refused, whatever follows. -/
theorem munch_of_classless {c : Char} (digit : c.isDigit = false) (name : isNameStart c = false)
    (quote : isQuote c = false) (mark : Symbol.ofChar? c = none) (cs : List Char) :
    munch c cs = .error .unexpected := by
  unfold munch
  rw [digit, name, quote, if_neg Bool.false_ne_true, if_neg Bool.false_ne_true,
    if_neg Bool.false_ne_true]
  split
  · cases mark
  · cases mark
  · exact munchSymbol_eq_error_iff.mpr ⟨rfl, mark⟩

theorem begins_of_munch {c : Char} {cs : List Char} {m : Munch} (h : munch c cs = .ok m) :
    Begins c := by
  obtain ⟨ds, htext, -⟩ := text_eq_cons_of_munch h
  exact ⟨m.token, ds, htext ▸ spells_of_munch h⟩

/-- **A character is unexpected if no token begins with it.** -/
theorem munch_unexpected_iff {c : Char} {cs : List Char} :
    munch c cs = .error .unexpected ↔ ¬ Begins c := by
  constructor
  · rintro h ⟨token, ds, hspells⟩
    rcases munch_error_cases h with ⟨-, ⟨⟩, -⟩ | ⟨-, digit, name, quote, mark⟩
    obtain ⟨d, es, heq, -, hmunch⟩ := munch_of_spells hspells
    cases heq
    rw [munch_of_classless digit name quote mark] at hmunch
    cases hmunch
  · intro h
    cases hm : munch c cs with
    | ok m => exact absurd (begins_of_munch hm) h
    | error refusal =>
      rcases munch_error_cases hm with ⟨quote, -, -⟩ | ⟨rfl, -⟩
      · have hspells : Spells (.string (String.ofList [])) [c, c] := .string quote List.not_mem_nil
        exact absurd ⟨_, [c], hspells⟩ h
      · rfl

/-- **A string is unterminated if its quote does not come again.** -/
theorem munch_unterminated_iff {c : Char} {cs : List Char} :
    munch c cs = .error .unterminated ↔ isQuote c = true ∧ c ∉ cs := by
  constructor
  · intro h
    rcases munch_error_cases h with ⟨quote, -, hopen⟩ | ⟨⟨⟩, -⟩
    exact ⟨quote, hopen⟩
  · rintro ⟨quote, hopen⟩
    rw [munch_quote quote]
    exact munchString_eq_error_iff.mpr ⟨rfl, hopen⟩

/-! ## The longest token -/

/-- The text spells the token at the front of a source, and none that is longer spells one. -/
structure Longest (token : Token) (text source : List Char) : Prop where
  spelled : Spells token text
  front : text <+: source
  longest : ∀ token' text', Spells token' text' → text' <+: source → text'.length ≤ text.length

theorem longest_of_munch {c : Char} {cs : List Char} {m : Munch} (h : munch c cs = .ok m) :
    Longest m.token m.text (c :: cs) where
  spelled := spells_of_munch h
  front := ⟨m.rest, munch_text_append_rest h⟩
  longest := by
    rintro token text hspells ⟨rest, hrest⟩
    exact length_le_of_spells hspells hrest h

/-- A source that begins with a token is not refused. -/
theorem exists_munch_of_spells {token : Token} {text rest cs : List Char} {c : Char}
    (h : Spells token text) (heq : text ++ rest = c :: cs) : ∃ m, munch c cs = .ok m := by
  obtain ⟨d, ds, rfl, -, halone⟩ := munch_of_spells h
  rw [List.cons_append, List.cons.injEq] at heq
  obtain ⟨rfl, rfl⟩ := heq
  cases hm : munch d (ds ++ rest) with
  | ok m => exact ⟨m, rfl⟩
  | error refusal =>
    cases refusal with
    | unexpected => exact absurd (begins_of_munch halone) (munch_unexpected_iff.mp hm)
    | unterminated =>
      -- The string is closed inside its own text already.
      obtain ⟨quote, hopen⟩ := munch_unterminated_iff.mp hm
      have hinner : d ∉ ds := fun hmem => hopen (List.mem_append_left rest hmem)
      rw [munch_unterminated_iff.mpr ⟨quote, hinner⟩] at halone
      cases halone

/-- **The scanner takes the longest token.** -/
theorem Longest.munch {token : Token} {text source : List Char} (h : Longest token text source) :
    ∃ c cs rest, source = c :: cs ∧ munch c cs = .ok ⟨token, text, rest⟩ := by
  obtain ⟨rest, rfl⟩ := h.front
  obtain ⟨c, cs, rfl, -, -⟩ := munch_of_spells h.spelled
  obtain ⟨m, hm⟩ := exists_munch_of_spells h.spelled List.cons_append
  have hlonger := (longest_of_munch hm).longest _ _ h.spelled h.front
  have hshorter := h.longest _ _ (spells_of_munch hm) (longest_of_munch hm).front
  have htext : m.text = c :: cs :=
    (List.prefix_of_prefix_length_le (longest_of_munch hm).front h.front hshorter).eq_of_length
      (Nat.le_antisymm hshorter hlonger)
  have htoken : m.token = token := (htext ▸ spells_of_munch hm).unique h.spelled
  refine ⟨c, cs ++ rest, m.rest, rfl, ?_⟩
  rw [hm, ← htext, ← htoken]

/-! ## Boundaries -/

/-- The offset is reached from the start of the source by skipping blanks and taking the longest
token each time, and these are the lexemes on the way. -/
inductive Boundary (source : List Char) : Nat → List Lexeme → Prop
  | start : Boundary source 0 []
  | blank {k : Nat} {c : Char} {before : List Lexeme} (reached : Boundary source k before)
      (here : source[k]? = some c) (space : isSpace c = true) : Boundary source (k + 1) before
  | token {k : Nat} {token : Token} {text : List Char} {before : List Lexeme}
      (reached : Boundary source k before) (longest : Longest token text (source.drop k)) :
      Boundary source (k + text.length) (before ++
        [⟨token, ⟨.ofOffset source k, .ofOffset source (k + text.length)⟩⟩])

/-- What is wrong with the character at an offset: no token begins with it, or it is a quote that
does not come again. -/
inductive Fails (source : List Char) (k : Nat) : LexError → Prop
  | unexpected {c : Char} (here : source[k]? = some c) (space : isSpace c = false)
      (begins : ¬ Begins c) : Fails source k
        (.unexpectedCharacter c ⟨.ofOffset source k, .ofOffset source (k + 1)⟩)
  | unterminated {q : Char} (here : source[k]? = some q) (quote : isQuote q = true)
      (unclosed : q ∉ source.drop (k + 1)) : Fails source k
        (.unterminatedString q ⟨.ofOffset source k, .ofOffset source source.length⟩)

section Offsets

variable {source text : List Char} {k : Nat} {c : Char}

theorem drop_of_getElem? (h : source[k]? = some c) : source.drop k = c :: source.drop (k + 1) := by
  obtain ⟨hk, rfl⟩ := List.getElem?_eq_some_iff.mp h
  exact List.drop_eq_getElem_cons hk

theorem getElem?_of_drop {cs : List Char} (h : source.drop k = c :: cs) :
    source[k]? = some c ∧ source.drop (k + 1) = cs := by
  constructor
  · rw [← List.head?_drop, h]
    rfl
  · rw [← List.tail_drop, h]
    rfl

/-- Moving over the characters at an offset leads to the offset behind them. -/
theorem past_ofOffset (hk : k ≤ source.length) (h : text <+: source.drop k) :
    (Position.ofOffset source k).past text = .ofOffset source (k + text.length) := by
  obtain ⟨rest, hrest⟩ := h
  have hlength : (source.take k).length = k := List.length_take_of_le hk
  have hleft : source = source.take k ++ source.drop k := (List.take_append_drop k source).symm
  have hright : source = (source.take k ++ text) ++ rest := by
    rw [List.append_assoc, hrest]
    exact hleft
  have hstart := Position.past_start_eq_ofOffset hleft
  have hend := Position.past_start_eq_ofOffset hright
  rw [hlength] at hstart
  rw [List.length_append, hlength, Position.past_append, hstart] at hend
  exact hend

theorem advance_ofOffset (h : source[k]? = some c) :
    (Position.ofOffset source k).advance c = .ofOffset source (k + 1) :=
  past_ofOffset (Nat.le_of_lt (List.getElem?_eq_some_iff.mp h).1)
    (show [c] <+: source.drop k from ⟨_, (drop_of_getElem? h).symm⟩)

/-- Positions do not depend on what is behind them. -/
theorem ofOffset_take {n : Nat} (h : k ≤ n) :
    Position.ofOffset (source.take n) k = .ofOffset source k := by
  rw [Position.ofOffset, List.take_take, Nat.min_eq_left h]
  rfl

end Offsets

namespace Boundary

variable {source : List Char} {k : Nat} {before : List Lexeme}

theorem le (h : Boundary source k before) : k ≤ source.length := by
  induction h with
  | start => exact Nat.zero_le _
  | blank _ here _ _ => exact (List.getElem?_eq_some_iff.mp here).1
  | @token k token text before _ longest ih =>
    have hlength := longest.front.length_le
    rw [List.length_drop] at hlength
    omega

/-- **The scanner comes through every boundary**, with the lexemes on the way. -/
theorem scanFrom_eq (h : Boundary source k before) :
    scanFrom .start [] source = scanFrom (.ofOffset source k) before.reverse (source.drop k) := by
  induction h with
  | start => rfl
  | @blank k c before reached here space ih =>
    have hdrop := drop_of_getElem? here
    rw [ih, hdrop, scanFrom_space space, advance_ofOffset here]
  | @token k token text before reached longest ih =>
    obtain ⟨c, cs, rest, hdrop, hmunch⟩ := longest.munch
    have hrest : source.drop (k + text.length) = rest := by
      rw [← List.drop_drop, hdrop, ← munch_text_append_rest hmunch, List.drop_left]
    rw [ih, hdrop, scanFrom_munch (isSpace_eq_false_of_munch hmunch) hmunch,
      past_ofOffset reached.le longest.front, hrest, List.reverse_append]
    rfl

/-- What lies before a boundary has the same boundaries without the rest. -/
theorem take {n : Nat} (h : Boundary source k before) (hk : k ≤ n) :
    Boundary (source.take n) k before := by
  induction h with
  | start => exact .start
  | @blank k c before _ here space ih =>
    refine .blank (ih (Nat.le_of_succ_le hk)) ?_ space
    rw [List.getElem?_take_of_lt hk, here]
  | @token k token text before _ longest ih =>
    have hdrop : (source.take n).drop k = (source.drop k).take (n - k) := List.drop_take
    have hlongest : Longest token text ((source.take n).drop k) := by
      rw [hdrop]
      refine ⟨longest.spelled, List.prefix_take_iff.mpr ⟨longest.front, by omega⟩, ?_⟩
      intro token' text' hspells hfront
      exact longest.longest token' text' hspells (List.prefix_take_iff.mp hfront).1
    have hboundary := Boundary.token (ih (Nat.le_of_add_right_le hk)) hlongest
    rwa [ofOffset_take (Nat.le_of_add_right_le hk), ofOffset_take hk] at hboundary

/-- **What lies before a boundary is scanned alone as it is in front of the rest.** -/
theorem scan_take (h : Boundary source k before) :
    scan (String.ofList (source.take k)) =
      .ok (before ++ [⟨.endOfFile, ⟨.ofOffset source k, .ofOffset source k⟩⟩]) := by
  have hnil : (source.take k).drop k = [] :=
    List.drop_eq_nil_of_le (List.length_take_le k source)
  rw [scan, String.toList_ofList, (h.take (Nat.le_refl k)).scanFrom_eq, hnil, scanFrom,
    List.reverse_cons, List.reverse_reverse, ofOffset_take (Nat.le_refl k)]

/-- At a boundary that fails the scanner fails. -/
theorem scanFrom_of_fails {e : LexError} (h : Boundary source k before)
    (hfails : Fails source k e) : scanFrom .start [] source = .error e := by
  cases hfails with
  | unexpected here space begins =>
    rw [h.scanFrom_eq, drop_of_getElem? here,
      scanFrom_unexpected space (munch_unexpected_iff.mpr begins), advance_ofOffset here]
  | unterminated here quote unclosed =>
    have hspace := isSpace_eq_false (.inr (.inr quote))
    have hend := past_ofOffset h.le (List.prefix_refl (source.drop k))
    rw [List.length_drop, Nat.add_sub_cancel' h.le, drop_of_getElem? here] at hend
    rw [h.scanFrom_eq, drop_of_getElem? here,
      scanFrom_unterminated hspace (munch_unterminated_iff.mpr ⟨quote, unclosed⟩), hend]

/-- **From a boundary the source is read to its end, or to a character that fails.**  By induction
on what is left of the source. -/
theorem exists_end_or_fails (h : Boundary source k before) :
    (∃ all, Boundary source source.length all) ∨
      ∃ k' before' e, Boundary source k' before' ∧ Fails source k' e := by
  induction hn : source.length - k using Nat.strongRecOn generalizing k before with
  | ind n ih =>
    cases hdrop : source.drop k with
    | nil =>
      have hk : k = source.length := Nat.le_antisymm h.le (List.drop_eq_nil_iff.mp hdrop)
      exact .inl ⟨before, hk ▸ h⟩
    | cons c cs =>
      obtain ⟨here, hcs⟩ := getElem?_of_drop hdrop
      have hlt := (List.getElem?_eq_some_iff.mp here).1
      cases hspace : isSpace c with
      | true => exact ih _ (by omega) (.blank h here hspace) rfl
      | false =>
        cases hm : munch c cs with
        | ok m =>
          have hlongest := longest_of_munch hm
          have hpos := List.length_pos_iff.mpr (munch_text_ne_nil hm)
          rw [← hdrop] at hlongest
          exact ih _ (by omega) (.token h hlongest) rfl
        | error refusal =>
          refine .inr ⟨k, before, ?_⟩
          cases refusal with
          | unexpected => exact ⟨_, h, .unexpected here hspace (munch_unexpected_iff.mp hm)⟩
          | unterminated =>
            obtain ⟨quote, hopen⟩ := munch_unterminated_iff.mp hm
            exact ⟨_, h, .unterminated here quote (hcs ▸ hopen)⟩

end Boundary

/-! ## The whole source -/

/-- **Scanning fails exactly where it should.**  It fails if and only if some boundary carries a
character that no token begins with, or a quote that does not come again, and the error says which
and where.  What lies before a boundary is scanned alone to the lexemes on the way to it.  A number
literal always reads as a number, and a digit is never unexpected. -/
theorem scan_eq_error_iff (source : String) :
    (∀ e, scan source = .error e ↔
      ∃ k before, Boundary source.toList k before ∧ Fails source.toList k e) ∧
    (∀ k before, Boundary source.toList k before →
      scan (String.ofList (source.toList.take k)) =
        .ok (before ++ [⟨.endOfFile, ⟨.ofOffset source.toList k, .ofOffset source.toList k⟩⟩])) ∧
    (∀ value text, Spells (.number value) text →
      (Numeral.read? (text.rdropWhile (· = '.'))).map Numeral.value = some value) ∧
    ∀ c span, scan source = .error (.unexpectedCharacter c span) → c.isDigit = false := by
  have hiff : ∀ e, scan source = .error e ↔
      ∃ k before, Boundary source.toList k before ∧ Fails source.toList k e := by
    intro e
    constructor
    · intro h
      have hstart : Boundary source.toList 0 [] := .start
      rcases hstart.exists_end_or_fails with ⟨all, hall⟩ | ⟨k, before, e', hboundary, hfails⟩
      · have hscan := hall.scan_take
        rw [List.take_length, String.ofList_toList, h] at hscan
        cases hscan
      · have herror := hboundary.scanFrom_of_fails hfails
        cases h.symm.trans herror
        exact ⟨k, before, hboundary, hfails⟩
    · rintro ⟨k, before, hboundary, hfails⟩
      exact hboundary.scanFrom_of_fails hfails
  refine ⟨hiff, fun k before h => h.scan_take, fun value text h => h.read?, fun c span h => ?_⟩
  obtain ⟨k, before, -, hfails⟩ := (hiff _).mp h
  cases hfails with
  | unexpected _ _ begins =>
    rw [Bool.eq_false_iff]
    intro hdigit
    have hwhole : ∀ d ∈ [c], d.isDigit = true := List.forall_mem_singleton.mpr hdigit
    exact begins ⟨_, [], .whole hwhole (List.cons_ne_nil c [])⟩

/-- Inside a string the character does not count, behind it it does. -/
theorem scan_eq_error_iff_string :
    Boundary "'#' #".toList 4 [⟨.string "#", ⟨⟨0, 0, 0⟩, ⟨3, 0, 3⟩⟩⟩] ∧
      scan "'#' #" = .error (.unexpectedCharacter '#' ⟨⟨4, 0, 4⟩, ⟨5, 0, 5⟩⟩) ∧
      scan "'#' " = .ok [⟨.string "#", ⟨⟨0, 0, 0⟩, ⟨3, 0, 3⟩⟩⟩,
        ⟨.endOfFile, ⟨⟨4, 0, 4⟩, ⟨4, 0, 4⟩⟩⟩] := by
  have hmunch : munch '\x27' ['#', '\x27', ' ', '#'] =
      .ok ⟨.string "#", ['\x27', '#', '\x27'], [' ', '#']⟩ := rfl
  have hboundary : Boundary "'#' #".toList 4 [⟨.string "#", ⟨⟨0, 0, 0⟩, ⟨3, 0, 3⟩⟩⟩] :=
    .blank (.token .start (longest_of_munch hmunch)) rfl rfl
  have hmark : munch '#' [] = .error .unexpected := rfl
  have hfails : Fails "'#' #".toList 4 (.unexpectedCharacter '#' ⟨⟨4, 0, 4⟩, ⟨5, 0, 5⟩⟩) :=
    .unexpected rfl rfl (munch_unexpected_iff.mp hmark)
  exact ⟨hboundary, ((scan_eq_error_iff "'#' #").1 _).mpr ⟨4, _, hboundary, hfails⟩,
    (scan_eq_error_iff "'#' #").2.1 4 _ hboundary⟩

end Lexeme

end Script
