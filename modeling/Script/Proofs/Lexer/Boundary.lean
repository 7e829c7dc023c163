import Script.Proofs.Lexer.Spelling

/-!
# Where a token ends

A text that spells a token is taken from the front of a longer one if the next character does not go
on with the token.  `Stops token text next` lists what that means for each kind of token: a number
goes on with digits and at most one point, a word with more characters of a name, a mark with a
second character that makes another mark of it.  What the scanner takes always ends at such a place
(`stops_of_munch`), and it takes whatever does (`munch_of_stops`), so what is taken does not depend
on anything further behind.
-/

namespace Script

theorem Keyword.ofSpelling?_spelling (word : Keyword) : ofSpelling? word.spelling = some word := by
  cases word <;> rfl

/-- No mark goes on behind the end of a line. -/
theorem Symbol.ofPair?_lineFeed (c : Char) : ofPair? c '\n' = none := by
  unfold ofPair?
  split <;> first | rfl | contradiction

namespace Lexeme

/-- The text is a block comment that is never closed. -/
def IsOpenComment (text : List Char) : Prop :=
  ∃ cs, text = '/' :: '*' :: cs ∧ ¬ close <:+: cs

/-- The next character behind the text of a token does not belong to the token. -/
def Stops (token : Token) (text : List Char) (next : Char) : Prop :=
  match token with
  | .number _ => next.isDigit = false ∧ (next = '.' → '.' ∈ text)
  | .identifier _ | .keyword _ => isNamePart next = false
  | .comment _ =>
    (∀ cs, text = '/' :: '/' :: cs → isLineEnd next = true) ∧ ¬ IsOpenComment text
  | .symbol _ => ∀ c, text = [c] →
    Symbol.ofPair? c next = none ∧ (c = '/' → next ≠ '/' ∧ next ≠ '*')
  | .string _ | .endOfFile => True

theorem not_isOpenComment_closed (cs : List Char) :
    ¬ IsOpenComment ('/' :: '*' :: (cs ++ close)) := by
  rintro ⟨ds, heq, hopen⟩
  cases heq
  exact hopen (List.infix_append cs close [] |>.trans (by simp))

/-! ## What is taken ends where it stops -/

/-- What is left behind the longest run of a class of characters does not begin with one of them. -/
theorem not_head_dropWhile {p : Char → Bool} {cs : List Char} {d : Char}
    (h : d ∈ (cs.dropWhile p).head?) : p d = false := by
  have hnot := List.head?_dropWhile_not p cs
  rw [Option.mem_def.mp h] at hnot
  exact hnot

theorem stops_munchNumber {cs : List Char} {d : Char} (h : d ∈ (munchNumber cs).rest.head?) :
    Stops (munchNumber cs).token (munchNumber cs).text d := by
  unfold munchNumber at h ⊢
  split at h
  · exact ⟨not_head_dropWhile h, fun _ => List.mem_append_right _ List.mem_cons_self⟩
  · next rest hpoint =>
    refine ⟨not_head_dropWhile h, fun hd => ?_⟩
    subst hd
    obtain ⟨more, hmore⟩ := List.head?_eq_some_iff.mp (Option.mem_def.mp h)
    exact absurd hmore (hpoint more)

theorem stops_munchWord {cs : List Char} {d : Char} (h : d ∈ (munchWord cs).rest.head?) :
    Stops (munchWord cs).token (munchWord cs).text d := by
  have hd : isNamePart d = false := not_head_dropWhile h
  unfold munchWord
  simp only
  split <;> exact hd

theorem stops_munchString {q : Char} {cs : List Char} {m : Munch} (h : munchString q cs = .ok m)
    (d : Char) : Stops m.token m.text d := by
  unfold munchString at h
  split at h
  · cases h
  · cases h
    trivial

theorem stops_munchLineComment {cs : List Char} {d : Char}
    (h : d ∈ (munchLineComment cs).rest.head?) :
    Stops (munchLineComment cs).token (munchLineComment cs).text d := by
  have hd : (!isLineEnd d) = false := not_head_dropWhile h
  refine ⟨fun _ _ => by simpa using hd, ?_⟩
  rintro ⟨ds, heq, -⟩
  cases heq

theorem stops_munchBlockComment {cs : List Char} {d : Char}
    (h : d ∈ (munchBlockComment cs).rest.head?) :
    Stops (munchBlockComment cs).token (munchBlockComment cs).text d := by
  rcases closed_or_open cs with ⟨text, rest, rfl, htext⟩ | hopen
  · rw [munchBlockComment_closed htext]
    exact ⟨nofun, not_isOpenComment_closed text⟩
  · rw [munchBlockComment_open hopen] at h
    cases h

theorem stops_munchSymbol {c d : Char} {cs : List Char} {m : Munch} (h : munchSymbol c cs = .ok m)
    (hd : d ∈ m.rest.head?) (hcomment : c = '/' → cs.head? ≠ some '/' ∧ cs.head? ≠ some '*') :
    Stops m.token m.text d := by
  unfold munchSymbol at h
  cases cs with
  | nil =>
    cases hc : Symbol.ofChar? c with
    | none =>
      rw [hc] at h
      cases h
    | some mark =>
      rw [hc] at h
      cases h
      cases hd
  | cons e rest =>
    cases hp : Symbol.ofPair? c e with
    | some mark =>
      simp only [hp, Option.map_some] at h
      cases h
      exact nofun
    | none =>
      cases hc : Symbol.ofChar? c with
      | none =>
        simp only [hp, hc, Option.map_none] at h
        cases h
      | some mark =>
        simp only [hp, hc, Option.map_none] at h
        cases h
        cases hd
        rintro _ ⟨⟩
        refine ⟨hp, fun hslash => ?_⟩
        simpa using hcomment hslash

/-- Two characters that begin a comment are not taken for a mark. -/
theorem munch_not_comment {c : Char} {cs : List Char} {m : Munch} (h : munch c cs = .ok m)
    (hsymbol : munchSymbol c cs = .ok m) (hc : c = '/') :
    cs.head? ≠ some '/' ∧ cs.head? ≠ some '*' := by
  subst hc
  constructor
  · intro hhead
    obtain ⟨rest, rfl⟩ := List.head?_eq_some_iff.mp hhead
    cases h
    cases hsymbol
  · intro hhead
    obtain ⟨rest, rfl⟩ := List.head?_eq_some_iff.mp hhead
    have hm : m = munchBlockComment rest := (Except.ok.inj h).symm
    have hm' : m = ⟨.symbol .slash, ['/'], '*' :: rest⟩ := (Except.ok.inj hsymbol).symm
    rw [hm'] at hm
    cases hm

/-- **What is taken from a source ends where it stops.** -/
theorem stops_of_munch {c d : Char} {cs : List Char} {m : Munch} (h : munch c cs = .ok m)
    (hd : d ∈ m.rest.head?) : Stops m.token m.text d := by
  rcases munch_cases h with ⟨-, rfl⟩ | ⟨-, rfl⟩ | ⟨-, hstring⟩ | ⟨rest, -, -, rfl⟩ |
    ⟨rest, -, -, rfl⟩ | hsymbol
  · exact stops_munchNumber hd
  · exact stops_munchWord hd
  · exact stops_munchString hstring d
  · exact stops_munchLineComment hd
  · exact stops_munchBlockComment hd
  · exact stops_munchSymbol hsymbol hd (munch_not_comment h hsymbol)

/-! ## What stops is taken -/

section Taken

variable {cs rest : List Char} {p : Char → Bool}

/-- A run of a class of characters ends before the first character of another. -/
theorem takeWhile_append_of_stop (h : ∀ c ∈ cs, p c = true)
    (hstop : ∀ d ∈ rest.head?, p d = false) : (cs ++ rest).takeWhile p = cs := by
  rw [List.takeWhile_append_of_pos h]
  cases rest with
  | nil => simp
  | cons d rest =>
    rw [List.takeWhile_cons_of_neg (Bool.eq_false_iff.mp (hstop d rfl)), List.append_nil]

theorem dropWhile_append_of_stop (h : ∀ c ∈ cs, p c = true)
    (hstop : ∀ d ∈ rest.head?, p d = false) : (cs ++ rest).dropWhile p = rest := by
  rw [List.dropWhile_append_of_pos h]
  cases rest with
  | nil => rfl
  | cons d rest => exact List.dropWhile_cons_of_neg (Bool.eq_false_iff.mp (hstop d rfl))

theorem munchNumber_whole_stop (h : ∀ c ∈ cs, c.isDigit = true)
    (hstop : ∀ d ∈ rest.head?, d.isDigit = false ∧ d ≠ '.') :
    munchNumber (cs ++ rest) = ⟨.number (Numeral.value ⟨false, cs, [], 0⟩), cs, rest⟩ := by
  have hdigit : ∀ d ∈ rest.head?, d.isDigit = false := fun d hd => (hstop d hd).1
  simp only [munchNumber, takeWhile_append_of_stop h hdigit, dropWhile_append_of_stop h hdigit]
  split
  · next more => exact absurd rfl (hstop '.' rfl).2
  · rfl

theorem munchWord_stop (h : ∀ c ∈ cs, isNamePart c = true)
    (hstop : ∀ d ∈ rest.head?, isNamePart d = false) :
    munchWord (cs ++ rest) = ⟨(munchWord cs).token, cs, rest⟩ := by
  have htake : cs.takeWhile isNamePart = cs := List.takeWhile_eq_self_iff.mpr h
  simp only [munchWord, takeWhile_append_of_stop h hstop, dropWhile_append_of_stop h hstop, htake]

theorem munchLineComment_stop (h : ∀ c ∈ cs, isLineEnd c = false)
    (hstop : ∀ d ∈ rest.head?, isLineEnd d = true) :
    munchLineComment (cs ++ rest) =
      ⟨.comment (String.ofList cs), '/' :: '/' :: cs, rest⟩ := by
  have hline : ∀ c ∈ cs, (!isLineEnd c) = true := fun c hc => by rw [h c hc]; rfl
  have hend : ∀ d ∈ rest.head?, (!isLineEnd d) = false := fun d hd => by rw [hstop d hd]; rfl
  simp only [munchLineComment, takeWhile_append_of_stop hline hend,
    dropWhile_append_of_stop hline hend]

/-- A mark of one character is taken where it does not go on. -/
theorem munchSymbol_stop {c : Char} {mark : Symbol} (h : Symbol.ofChar? c = some mark)
    (hstop : ∀ d ∈ rest.head?, Symbol.ofPair? c d = none) :
    munchSymbol c rest = .ok ⟨.symbol mark, [c], rest⟩ := by
  cases rest with
  | nil => simp only [munchSymbol, h]
  | cons d rest => simp only [munchSymbol, hstop d rfl, Option.map_none, h]

end Taken

/-- A character that is a mark by itself is neither a blank nor part of another kind of token,
unless it begins a comment. -/
theorem munch_mark {c : Char} {mark : Symbol} (h : Symbol.ofChar? c = some mark) {rest : List Char}
    (hcomment : c = '/' → ∀ d ∈ rest.head?, d ≠ '/' ∧ d ≠ '*') :
    isSpace c = false ∧ munch c rest = munchSymbol c rest := by
  by_cases hc : c = '/'
  · subst hc
    refine ⟨rfl, ?_⟩
    cases rest with
    | nil => rfl
    | cons d rest =>
      obtain ⟨hslash, hstar⟩ := hcomment rfl d rfl
      unfold munch
      rw [if_neg (show ¬ '/'.isDigit = true by decide),
        if_neg (show ¬ isNameStart '/' = true by decide),
        if_neg (show ¬ isQuote '/' = true by decide)]
      split
      · next heq =>
        cases heq
        exact absurd rfl hslash
      · next heq =>
        cases heq
        exact absurd rfl hstar
      · rfl
  · unfold Symbol.ofChar? at h
    split at h <;> first | exact ⟨rfl, rfl⟩ | exact absurd rfl hc | cases h

/-- **A text that spells a token is taken whole if it stops behind it.** -/
theorem munch_of_stops {token : Token} {text rest : List Char} (h : Spells token text)
    (hstop : ∀ d ∈ rest.head?, Stops token text d) :
    ∃ c cs, text = c :: cs ∧ isSpace c = false ∧
      munch c (cs ++ rest) = .ok ⟨token, text, rest⟩ := by
  cases h with
  | @whole ds digits nonempty =>
    obtain ⟨c, cs, rfl⟩ := List.exists_cons_of_ne_nil nonempty
    have hc := digits c List.mem_cons_self
    refine ⟨c, cs, rfl, isSpace_eq_false (.inl hc), ?_⟩
    rw [munch_digit hc, ← List.cons_append, munchNumber_whole_stop digits]
    intro d hd
    refine ⟨(hstop d hd).1, fun hpoint => ?_⟩
    -- A point is no digit, so it is not among them.
    have hmem := digits d (hpoint ▸ (hstop d hd).2 hpoint)
    rw [hpoint] at hmem
    cases hmem
  | @decimal ds fs digits nonempty fraction =>
    obtain ⟨c, cs, rfl⟩ := List.exists_cons_of_ne_nil nonempty
    have hc := digits c List.mem_cons_self
    have hdigit : ∀ d ∈ rest.head?, d.isDigit = false := fun d hd => (hstop d hd).1
    refine ⟨c, cs ++ '.' :: fs, rfl, isSpace_eq_false (.inl hc), ?_⟩
    have htaken := munchNumber_decimal digits (fs ++ rest)
    rw [takeWhile_append_of_stop fraction hdigit, dropWhile_append_of_stop fraction hdigit]
      at htaken
    rw [munch_digit hc, List.append_assoc]
    exact congrArg Except.ok htaken
  | @string q cs quote plain =>
    refine ⟨q, cs ++ [q], rfl, isSpace_eq_false (.inr (.inr quote)), ?_⟩
    rw [munch_quote quote, List.append_assoc, List.singleton_append, munchString_closed plain]
  | keyword word =>
    obtain ⟨first, others, hspelling, start, parts⟩ := spelling_eq_cons word
    have hall : ∀ d ∈ first :: others, isNamePart d = true :=
      List.forall_mem_cons.mpr ⟨isNamePart_of_isNameStart start, parts⟩
    refine ⟨first, others, hspelling, isSpace_eq_false (.inr (.inl start)), ?_⟩
    have htoken : (munchWord (first :: others)).token = .keyword word := by
      have hname : String.ofList (first :: others) = word.spelling := by
        rw [← hspelling, String.ofList_toList]
      simp only [munchWord, List.takeWhile_eq_self_iff.mpr hall, hname,
        Keyword.ofSpelling?_spelling]
    rw [munch_nameStart start, ← List.cons_append, munchWord_stop hall hstop, htoken, hspelling]
  | @identifier c cs start parts free =>
    have hall : ∀ d ∈ c :: cs, isNamePart d = true :=
      List.forall_mem_cons.mpr ⟨isNamePart_of_isNameStart start, parts⟩
    have htoken : (munchWord (c :: cs)).token = .identifier (String.ofList (c :: cs)) := by
      simp only [munchWord, List.takeWhile_eq_self_iff.mpr hall, free]
    refine ⟨c, cs, rfl, isSpace_eq_false (.inr (.inl start)), ?_⟩
    rw [munch_nameStart start, ← List.cons_append, munchWord_stop hall hstop, htoken]
  | @lineComment cs line =>
    refine ⟨'/', '/' :: cs, rfl, rfl, ?_⟩
    have hend : ∀ d ∈ rest.head?, isLineEnd d = true := fun d hd => (hstop d hd).1 cs rfl
    exact congrArg Except.ok (munchLineComment_stop line hend)
  | @blockComment cs inner =>
    exact ⟨'/', '*' :: (cs ++ close), rfl, rfl,
      congrArg Except.ok (munchBlockComment_closed inner rest)⟩
  | @openComment cs inner =>
    obtain rfl : rest = [] := by
      cases rest with
      | nil => rfl
      | cons d rest => exact absurd ⟨cs, rfl, inner⟩ (hstop d rfl).2
    refine ⟨'/', '*' :: cs, rfl, rfl, ?_⟩
    rw [List.append_nil]
    exact congrArg Except.ok (munchBlockComment_open inner)
  | symbol mark =>
    have hsingle : ∀ c, mark.spelling.toList = [c] → Symbol.ofChar? c = some mark →
        isSpace c = false ∧ munch c rest = .ok ⟨.symbol mark, [c], rest⟩ := by
      intro c htext hc
      rw [htext] at hstop
      have hnext : ∀ d ∈ rest.head?, _ := fun d hd => hstop d hd c rfl
      obtain ⟨hspace, hmunch⟩ := munch_mark hc fun hslash d hd => (hnext d hd).2 hslash
      exact ⟨hspace, hmunch.trans (munchSymbol_stop hc fun d hd => (hnext d hd).1)⟩
    cases mark with
    | lessEqual | greaterEqual | equalEqual | bangEqual | plusAssign | minusAssign | starAssign |
      slashAssign | percentAssign | andAnd | orOr => exact ⟨_, _, rfl, rfl, rfl⟩
    | _ => exact ⟨_, _, rfl, hsingle _ rfl rfl⟩

/-- What is taken does not depend on what is further behind. -/
theorem munch_append {c : Char} {cs more : List Char} {m : Munch} (h : munch c cs = .ok m)
    (hstop : ∀ d ∈ (m.rest ++ more).head?, Stops m.token m.text d) :
    munch c (cs ++ more) = .ok ⟨m.token, m.text, m.rest ++ more⟩ := by
  obtain ⟨ds, htext, hrest⟩ := text_eq_cons_of_munch h
  obtain ⟨d, es, heq, -, hmunch⟩ := munch_of_stops (spells_of_munch h) hstop
  cases htext.symm.trans heq
  rwa [← hrest, List.append_assoc]

/-- No token begins with a blank. -/
theorem isSpace_eq_false_of_munch {c : Char} {cs : List Char} {m : Munch}
    (h : munch c cs = .ok m) : isSpace c = false := by
  obtain ⟨ds, htext, -⟩ := text_eq_cons_of_munch h
  obtain ⟨d, es, heq, hspace, -⟩ := munch_of_spells (spells_of_munch h)
  cases htext.symm.trans heq
  exact hspace

/-- A line feed ends every token but a comment that waits to be closed. -/
theorem stops_lineFeed {token : Token} {text : List Char} (h : ¬ IsOpenComment text) :
    Stops token text '\n' := by
  cases token with
  | number => exact ⟨rfl, nofun⟩
  | identifier | keyword => rfl
  | comment => exact ⟨fun _ _ => rfl, h⟩
  | symbol =>
    intro c _
    exact ⟨Symbol.ofPair?_lineFeed c, fun _ => ⟨nofun, nofun⟩⟩
  | string | endOfFile => trivial

/-- What is taken from the end of a line does not depend on the lines below. -/
theorem munch_append_lineFeed {c : Char} {cs : List Char} {m : Munch} (h : munch c cs = .ok m)
    (hclosed : ¬ IsOpenComment m.text) (more : List Char) :
    munch c (cs ++ '\n' :: more) = .ok ⟨m.token, m.text, m.rest ++ '\n' :: more⟩ := by
  refine munch_append h fun d hd => ?_
  cases hrest : m.rest with
  | nil =>
    rw [hrest] at hd
    cases hd
    exact stops_lineFeed hclosed
  | cons e rest =>
    rw [hrest] at hd
    cases hd
    exact stops_of_munch h (hrest ▸ rfl)

end Lexeme

end Script
