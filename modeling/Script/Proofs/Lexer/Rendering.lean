import Mathlib.Data.List.Forall2
import Script.Proofs.Lexer.Boundary
import Script.Proofs.Lexer.Partition

/-!
# Texts for a list of tokens

`Renders tokens text` says that the text consists of spellings of the tokens, one behind the other,
with blanks anywhere between them.  Each spelling must stop before what follows it, and so a text is
put together from its end.  The scanner gives the tokens back (`scan_of_renders`).

A text that is to be put in front of others has to render its tokens whatever comes behind:
`Leads tokens text` asks for it behind which no word and no number goes on.
-/

namespace Script.Lexeme

/-- The text spells the tokens one behind the other. -/
inductive Renders : List Token → List Char → Prop
  | done : Renders [] []
  | blank {c : Char} {cs : List Char} {ts : List Token} (space : isSpace c = true)
      (more : Renders ts cs) : Renders ts (c :: cs)
  | token {t : Token} {text rest : List Char} {ts : List Token} (spelled : Spells t text)
      (stops : ∀ d ∈ rest.head?, Stops t text d) (more : Renders ts rest) :
      Renders (t :: ts) (text ++ rest)

/-- The scanner does what its runs say. -/
theorem scanFrom_of_scans {p : Position} {cs : List Char} {lexemes : List Lexeme}
    (h : Scans p cs lexemes) (seen : List Lexeme) :
    scanFrom p seen cs = .ok (seen.reverse ++ lexemes) := by
  induction h generalizing seen with
  | done => rw [scanFrom, List.reverse_cons]
  | blank space _ ih => rw [scanFrom_space space, ih]
  | token taken _ ih =>
    rw [scanFrom_munch (isSpace_eq_false_of_munch taken) taken, ih, List.reverse_cons,
      List.append_assoc, List.singleton_append]

theorem scan_of_scans {source : String} {lexemes : List Lexeme}
    (h : Scans .start source.toList lexemes) : scan source = .ok lexemes :=
  scanFrom_of_scans h []

/-- A run goes on in front with a token that stops before what follows. -/
theorem Scans.of_stops {p : Position} {token : Token} {text rest : List Char}
    {lexemes : List Lexeme} (spelled : Spells token text)
    (stops : ∀ d ∈ rest.head?, Stops token text d) (more : Scans (p.past text) rest lexemes) :
    Scans p (text ++ rest) (⟨token, ⟨p, p.past text⟩⟩ :: lexemes) := by
  obtain ⟨c, cs, htext, -, hmunch⟩ := munch_of_stops spelled stops
  have hscans := Scans.token hmunch more
  rwa [← List.cons_append, ← htext] at hscans

theorem Renders.scans {ts : List Token} {cs : List Char} (h : Renders ts cs) (p : Position) :
    ∃ lexemes, Scans p cs lexemes ∧ lexemes.map Lexeme.token = ts ++ [.endOfFile] := by
  induction h generalizing p with
  | done => exact ⟨_, .done, rfl⟩
  | blank space _ ih =>
    obtain ⟨lexemes, hscans, htokens⟩ := ih _
    exact ⟨lexemes, .blank space hscans, htokens⟩
  | @token t text rest ts spelled stops _ ih =>
    obtain ⟨lexemes, hscans, htokens⟩ := ih (p.past text)
    exact ⟨_, .of_stops spelled stops hscans, congrArg (t :: ·) htokens⟩

/-- **A text that renders tokens is scanned to them.** -/
theorem scan_of_renders {ts : List Token} {source : String} (h : Renders ts source.toList) :
    ∃ lexemes, scan source = .ok lexemes ∧ lexemes.map Lexeme.token = ts ++ [.endOfFile] := by
  obtain ⟨lexemes, hscans, htokens⟩ := h.scans .start
  exact ⟨lexemes, scan_of_scans hscans, htokens⟩

/-- A mark of one character that is no part of a longer one. -/
theorem Renders.mark {mark : Symbol} {c : Char} {ts : List Token} {rest : List Char}
    (h : Renders ts rest) (hmark : mark.spelling.toList = [c])
    (hstop : ∀ d ∈ rest.head?, Symbol.ofPair? c d = none ∧ (c = '/' → d ≠ '/' ∧ d ≠ '*')) :
    Renders (.symbol mark :: ts) (c :: rest) := by
  have hspelled := Spells.symbol mark
  rw [hmark] at hspelled
  refine .token hspelled (fun d hd => ?_) h
  rintro _ ⟨⟩
  exact hstop d hd

/-- A mark that stands alone whatever follows. -/
theorem Renders.single {mark : Symbol} {c : Char} {ts : List Token} {rest : List Char}
    (hmark : mark.spelling.toList = [c]) (hpair : ∀ d, Symbol.ofPair? c d = none)
    (hslash : c ≠ '/') (h : Renders ts rest) : Renders (.symbol mark :: ts) (c :: rest) :=
  h.mark hmark fun d _ => ⟨hpair d, fun hc => absurd hc hslash⟩

/-! ## Texts to be put in front of others -/

/-- No word and no number goes on with the character. -/
def Breaks (c : Char) : Prop := isNamePart c = false ∧ c ≠ '.'

/-- In front of whatever begins with no part of a word or a number, the text spells the tokens. -/
def Leads (ts : List Token) (text : List Char) : Prop :=
  ∀ us rest, (∀ d ∈ rest.head?, Breaks d) → Renders us rest → Renders (ts ++ us) (text ++ rest)

theorem Breaks.not_isDigit {c : Char} (h : Breaks c) : c.isDigit = false := by
  have hpart := h.1
  rw [isNamePart, Char.isAlphanum, Bool.or_eq_false_iff, Bool.or_eq_false_iff] at hpart
  exact hpart.1.2

theorem leads_number {value : Number} {text : List Char} (h : Spells (.number value) text) :
    Leads [.number value] text := by
  intro us rest hbreak hrest
  refine .token h (fun d hd => ?_) hrest
  exact ⟨(hbreak d hd).not_isDigit, fun hpoint => absurd hpoint (hbreak d hd).2⟩

theorem leads_string {value : String} {text : List Char} (h : Spells (.string value) text) :
    Leads [.string value] text :=
  fun _ _ _ hrest => .token h (fun _ _ => trivial) hrest

theorem leads_identifier {name : String} {text : List Char} (h : Spells (.identifier name) text) :
    Leads [.identifier name] text :=
  fun _ _ hbreak hrest => .token h (fun d hd => (hbreak d hd).1) hrest

/-! ## Putting texts together -/

theorem exists_digit_of_spells {value : Number} {text : List Char}
    (h : Spells (.number value) text) : ∃ c cs, text = c :: cs ∧ c.isDigit = true := by
  cases h with
  | whole digits nonempty =>
    obtain ⟨c, cs, rfl⟩ := List.exists_cons_of_ne_nil nonempty
    exact ⟨c, cs, rfl, digits c List.mem_cons_self⟩
  | @decimal ds fs digits nonempty =>
    obtain ⟨c, cs, rfl⟩ := List.exists_cons_of_ne_nil nonempty
    exact ⟨c, cs ++ '.' :: fs, rfl, digits c List.mem_cons_self⟩

/-- A sign in front of a number. -/
theorem leads_negated {value : Number} {text : List Char} (h : Spells (.number value) text) :
    Leads [.symbol .minus, .number value] ('-' :: text) := by
  intro us rest hbreak hrest
  obtain ⟨c, cs, rfl, hdigit⟩ := exists_digit_of_spells h
  have hpair : Symbol.ofPair? '-' c = none := by
    have hne : c ≠ '=' := by
      rintro rfl
      cases hdigit
    unfold Symbol.ofPair?
    split <;> first | rfl | contradiction
  refine (leads_number h us rest hbreak hrest).mark rfl ?_
  rintro d ⟨⟩
  exact ⟨hpair, fun hslash => absurd hslash (by decide)⟩

/-- Two texts with a comma and a blank between them. -/
theorem Leads.comma {ts us : List Token} {text more : List Char} (h : Leads ts text)
    (h' : Leads us more) : Leads (ts ++ .symbol .comma :: us) (text ++ ',' :: ' ' :: more) := by
  intro vs rest hbreak hrest
  have hmore := h' vs rest hbreak hrest
  rw [List.append_assoc, List.append_assoc]
  refine h _ _ ?_ (.single rfl (fun _ => rfl) (by decide) (.blank rfl hmore))
  rintro d ⟨⟩
  exact ⟨rfl, by decide⟩

/-- Any number of texts with commas between them. -/
theorem Leads.intercalate {tss : List (List Token)} {texts : List (List Char)}
    (h : List.Forall₂ Leads tss texts) :
    Leads ([.symbol .comma].intercalate tss) ([',', ' '].intercalate texts) := by
  induction h with
  | nil => exact fun _ _ _ hrest => hrest
  | @cons ts text tss texts hfirst hrest ih =>
    cases hrest with
    | nil =>
      rw [List.intercalate_singleton, List.intercalate_singleton]
      exact hfirst
    | cons hsecond hmore =>
      rw [List.intercalate_cons_cons, List.intercalate_cons_cons, List.append_assoc,
        List.append_assoc]
      exact hfirst.comma ih

/-- A text between brackets. -/
theorem Leads.bracketed {ts : List Token} {text : List Char} (h : Leads ts text) :
    Leads (.symbol .leftBracket :: ts ++ [.symbol .rightBracket]) ('[' :: (text ++ [']'])) := by
  intro us rest _ hrest
  have hclose : Renders (.symbol .rightBracket :: us) (']' :: rest) :=
    .single rfl (fun _ => rfl) (by decide) hrest
  have hinner := h _ _ (by rintro d ⟨⟩; exact ⟨rfl, by decide⟩) hclose
  simp only [List.cons_append, List.append_assoc, List.nil_append]
  exact .single rfl (fun _ => rfl) (by decide) hinner

/-- A text between braces, with blanks inside them. -/
theorem Leads.braced {ts : List Token} {text : List Char} (h : Leads ts text) :
    Leads (.symbol .leftBrace :: ts ++ [.symbol .rightBrace])
      ('\x7b' :: ' ' :: (text ++ [' ', '\x7d'])) := by
  intro us rest _ hrest
  have hclose : Renders (.symbol .rightBrace :: us) (' ' :: '\x7d' :: rest) :=
    .blank rfl (.single rfl (fun _ => rfl) (by decide) hrest)
  have hinner := h _ _ (by rintro d ⟨⟩; exact ⟨rfl, by decide⟩) hclose
  simp only [List.cons_append, List.append_assoc, List.nil_append]
  exact .single rfl (fun _ => rfl) (by decide) (.blank rfl hinner)

/-- A name and a text with a colon and a blank between them. -/
theorem Leads.keyed {ts : List Token} {text name : List Char} {key : String} (h : Leads ts text)
    (hname : Spells (.identifier key) name) :
    Leads (.identifier key :: .symbol .colon :: ts) (name ++ ':' :: ' ' :: text) := by
  intro us rest hbreak hrest
  have hvalue : Renders (.symbol .colon :: (ts ++ us)) (':' :: ' ' :: (text ++ rest)) :=
    .single rfl (fun _ => rfl) (by decide) (.blank rfl (h us rest hbreak hrest))
  rw [List.append_assoc]
  exact leads_identifier hname _ _ (by rintro d ⟨⟩; exact ⟨rfl, by decide⟩) hvalue

end Script.Lexeme
