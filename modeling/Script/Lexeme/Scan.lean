import Script.Lexeme.Basic
import Script.Number.Numeral

/-!
# Cutting a source into lexemes

`Lexeme.scan` skips the blanks of a source and takes the longest possible token at every other
character.  What was taken and what is left always make up the source again (`Munch.text` and
`Munch.rest`), so nothing is lost, and as no token is empty the scan comes to an end.
-/

namespace Script

namespace Lexeme

/-! ## Classes of characters -/

/-- The characters that stand between tokens. -/
def isSpace (c : Char) : Bool := c = ' ' || c = '\t' || c = '\r' || c = '\n'

/-- The three characters that open a string; the same one closes it. -/
def isQuote (c : Char) : Bool := c = '\x22' || c = '\x27' || c = '\x60'

/-- The characters that a name starts with. -/
def isNameStart (c : Char) : Bool := c.isAlpha || c = '_'

/-- The characters that a name goes on with. -/
def isNamePart (c : Char) : Bool := c.isAlphanum || c = '_'

/-- A line comment ends before the first of these. -/
def isLineEnd (c : Char) : Bool := c = '\r' || c = '\n'

/-! ## One token -/

/-- A token taken from the front of a text: its characters, and the characters behind it. -/
structure Munch where
  token : Token
  text : List Char
  rest : List Char

/-- What can go wrong at the front of a text. -/
inductive Refusal where
  | unexpected
  | unterminated
deriving DecidableEq, Repr

/-- Digits, and a point with digits behind it.  The digits behind the point may be missing. -/
def munchNumber (cs : List Char) : Munch :=
  let whole := cs.takeWhile Char.isDigit
  match cs.dropWhile Char.isDigit with
  | '.' :: rest =>
    let fraction := rest.takeWhile Char.isDigit
    ⟨.number (Numeral.value ⟨false, whole, fraction, 0⟩), whole ++ '.' :: fraction,
      rest.dropWhile Char.isDigit⟩
  | rest => ⟨.number (Numeral.value ⟨false, whole, [], 0⟩), whole, rest⟩

/-- A name, which is a keyword if it is spelled like one. -/
def munchWord (cs : List Char) : Munch :=
  let word := cs.takeWhile isNamePart
  let name := String.ofList word
  let token := match Keyword.ofSpelling? name with
    | some keyword => .keyword keyword
    | none => .identifier name
  ⟨token, word, cs.dropWhile isNamePart⟩

/-- The contents of a string up to the closing quote, behind the opening one. -/
def munchString (quote : Char) (cs : List Char) : Except Refusal Munch :=
  let contents := cs.takeWhile (· ≠ quote)
  match cs.dropWhile (· ≠ quote) with
  | [] => .error .unterminated
  | _ :: rest => .ok ⟨.string (String.ofList contents), quote :: (contents ++ [quote]), rest⟩

/-- A comment to the end of the line, behind its two slashes. -/
def munchLineComment (cs : List Char) : Munch :=
  let text := cs.takeWhile (fun c => !isLineEnd c)
  ⟨.comment (String.ofList text), '/' :: '/' :: text, cs.dropWhile (fun c => !isLineEnd c)⟩

/-- Splits a text before the first `*/`, which goes with what follows.  `seen` holds the characters
before, the last one first. -/
def splitAtClose (seen : List Char) : List Char → List Char × List Char
  | [] => (seen.reverse, [])
  | c :: cs =>
    if c = '*' ∧ cs.head? = some '/' then (seen.reverse, c :: cs)
    else splitAtClose (c :: seen) cs

/-- A comment between `/*` and `*/`, behind its opening.  One that is never closed runs to the end
of the source. -/
def munchBlockComment (cs : List Char) : Munch :=
  let (text, close) := splitAtClose [] cs
  ⟨.comment (String.ofList text), '/' :: '*' :: (text ++ close.take 2), close.drop 2⟩

/-- A mark of two characters, or else of one. -/
def munchSymbol (c : Char) (cs : List Char) : Except Refusal Munch :=
  let pair := match cs with
    | [] => none
    | d :: rest => (Symbol.ofPair? c d).map fun mark => (⟨.symbol mark, [c, d], rest⟩ : Munch)
  match pair, Symbol.ofChar? c with
  | some munch, _ => .ok munch
  | none, some mark => .ok ⟨.symbol mark, [c], cs⟩
  | none, none => .error .unexpected

/-- The longest token at the front of `c :: cs`, where `c` is not a space. -/
def munch (c : Char) (cs : List Char) : Except Refusal Munch :=
  if c.isDigit then .ok (munchNumber (c :: cs))
  else if isNameStart c then .ok (munchWord (c :: cs))
  else if isQuote c then munchString c cs
  else match c, cs with
    | '/', '/' :: rest => .ok (munchLineComment rest)
    | '/', '*' :: rest => .ok (munchBlockComment rest)
    | _, _ => munchSymbol c cs

/-! ## Nothing is lost -/

theorem splitAtClose_append (seen cs : List Char) :
    (splitAtClose seen cs).1 ++ (splitAtClose seen cs).2 = seen.reverse ++ cs := by
  induction cs generalizing seen with
  | nil => simp [splitAtClose]
  | cons c cs ih =>
    unfold splitAtClose
    split
    · rfl
    · rw [ih]; simp

theorem munchNumber_text_append_rest (cs : List Char) :
    (munchNumber cs).text ++ (munchNumber cs).rest = cs := by
  have h : cs.takeWhile Char.isDigit ++ cs.dropWhile Char.isDigit = cs :=
    List.takeWhile_append_dropWhile
  unfold munchNumber
  split
  · next rest heq =>
    rw [heq] at h
    simp only [List.append_assoc, List.cons_append, List.takeWhile_append_dropWhile]
    exact h
  · exact h

/-- The text of the token and what is left behind it make up the source again. -/
theorem munch_text_append_rest {c : Char} {cs : List Char} {m : Munch}
    (h : munch c cs = .ok m) : m.text ++ m.rest = c :: cs := by
  unfold munch at h
  split at h
  · cases h
    exact munchNumber_text_append_rest _
  split at h
  · cases h
    exact List.takeWhile_append_dropWhile
  split at h
  · have whole : cs.takeWhile (· ≠ c) ++ cs.dropWhile (· ≠ c) = cs :=
      List.takeWhile_append_dropWhile
    have closing := List.head?_dropWhile_not (· ≠ c) cs
    unfold munchString at h
    split at h
    · cases h
    · next q rest heq =>
      cases h
      rw [heq] at whole closing
      have hq : q = c := by simpa using closing
      subst hq
      simpa using whole
  split at h
  · cases h
    simp [munchLineComment, List.takeWhile_append_dropWhile]
  · next rest _ _ _ =>
    cases h
    have hs := splitAtClose_append [] rest
    simp only [munchBlockComment, List.cons_append, List.append_assoc, List.take_append_drop]
    rw [hs]; rfl
  · unfold munchSymbol at h
    cases cs with
    | nil =>
      simp only at h
      cases hc : Symbol.ofChar? c <;> rw [hc] at h <;> cases h
      rfl
    | cons d rest =>
      simp only at h
      cases hp : Symbol.ofPair? c d <;> rw [hp] at h
      · cases hc : Symbol.ofChar? c <;> rw [hc] at h <;> cases h
        rfl
      · cases h
        rfl

/-- A token is never empty. -/
theorem munch_text_ne_nil {c : Char} {cs : List Char} {m : Munch}
    (h : munch c cs = .ok m) : m.text ≠ [] := by
  unfold munch at h
  split at h
  · next hd =>
    cases h
    unfold munchNumber
    split <;> simp [hd]
  split at h
  · next hn =>
    cases h
    have : isNamePart c = true := by
      simp only [isNameStart, isNamePart, Char.isAlphanum, Bool.or_eq_true] at hn ⊢
      exact hn.imp_left Or.inl
    simp [munchWord, this]
  split at h
  · unfold munchString at h
    split at h
    · cases h
    · cases h
      simp
  split at h
  · cases h
    simp [munchLineComment]
  · cases h
    simp [munchBlockComment]
  · unfold munchSymbol at h
    cases cs with
    | nil =>
      simp only at h
      cases hc : Symbol.ofChar? c <;> rw [hc] at h <;> cases h
      simp
    | cons d rest =>
      simp only at h
      cases hp : Symbol.ofPair? c d <;> rw [hp] at h
      · cases hc : Symbol.ofChar? c <;> rw [hc] at h <;> cases h
        simp
      · cases h
        simp

theorem munch_rest_length_lt {c : Char} {cs : List Char} {m : Munch}
    (h : munch c cs = .ok m) : m.rest.length < (c :: cs).length := by
  rw [← munch_text_append_rest h, List.length_append]
  have := List.length_pos_iff.2 (munch_text_ne_nil h)
  omega

/-! ## The whole source -/

/-- Cuts the rest of a source into lexemes, from the position where it starts.  `done` holds the
lexemes before, the last one first.  The end of the file is a lexeme of its own. -/
def scanFrom (position : Position) (done : List Lexeme) :
    List Char → Except LexError (List Lexeme)
  | [] => .ok (⟨.endOfFile, ⟨position, position⟩⟩ :: done).reverse
  | c :: cs =>
    if isSpace c then scanFrom (position.advance c) done cs
    else
      match _h : munch c cs with
      | .error .unexpected =>
        .error (.unexpectedCharacter c ⟨position, position.advance c⟩)
      | .error .unterminated =>
        .error (.unterminatedString c ⟨position, position.past (c :: cs)⟩)
      | .ok m =>
        let right := position.past m.text
        scanFrom right (⟨m.token, ⟨position, right⟩⟩ :: done) m.rest
termination_by cs => cs.length
decreasing_by
  · simp
  · exact munch_rest_length_lt _h

/-- Cuts a source into its lexemes. -/
def scan (source : String) : Except LexError (List Lexeme) :=
  scanFrom .start [] source.toList

end Lexeme

end Script
