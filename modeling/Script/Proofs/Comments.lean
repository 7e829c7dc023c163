import Script.Proofs.Lexer.Rendering
import Script.Proofs.Sources

/-!
# Comments are inert

A source says the same when its comments are blanked out: every character of a comment is replaced
by a blank, and only the line feeds stay.  The scanner comes to the same lexemes at the same places,
comments left out (`Scans.blankFrom`).  Behind a token a blank stops it as well as the comment did,
and moving over the blanks leads to the same position, since only line feeds start a line.  The
parser sets comments aside anyway, and so the source is read and run as before
(`Session.run_blanked`).
-/

namespace Script

namespace Position

theorem index_past (p : Position) (cs : List Char) : (p.past cs).index = p.index + cs.length := by
  induction cs generalizing p with
  | nil => rfl
  | cons c cs ih =>
    have hnext : (p.advance c).index = p.index + 1 := by
      unfold advance
      split <;> rfl
    rw [past_cons, ih, hnext, List.length_cons]
    omega

end Position

namespace Lexeme

/-- The offset lies in a comment. -/
def inComment (lexemes : List Lexeme) (offset : Nat) : Bool :=
  lexemes.any fun x => x.token.isComment &&
    decide (x.span.left.index ≤ offset ∧ offset < x.span.right.index)

/-- What stands in place of a character of a comment: a blank, but line feeds stay. -/
def blankOut (c : Char) : Char := if c = '\n' then '\n' else ' '

/-- The characters from an offset on, with blanks for those that lie in comments. -/
def blankFrom (offset : Nat) (lexemes : List Lexeme) : List Char → List Char
  | [] => []
  | c :: cs => (if inComment lexemes offset then blankOut c else c) ::
    blankFrom (offset + 1) lexemes cs

/-- The source with blanks for its comments. -/
def blanked (lexemes : List Lexeme) (source : String) : String :=
  String.ofList (blankFrom 0 lexemes source.toList)

/-! ## Blanks -/

theorem isSpace_blankOut (c : Char) : isSpace (blankOut c) = true := by
  unfold blankOut
  split <;> rfl

theorem advance_blankOut (p : Position) (c : Char) : p.advance (blankOut c) = p.advance c := by
  unfold blankOut
  split
  · next hc => rw [hc]
  · next hc => rw [Position.advance, Position.advance, if_neg hc, if_neg (by decide)]

theorem past_map_blankOut (p : Position) (cs : List Char) :
    p.past (cs.map blankOut) = p.past cs := by
  induction cs generalizing p with
  | nil => rfl
  | cons c cs ih => rw [List.map_cons, Position.past_cons, Position.past_cons, advance_blankOut, ih]

/-- A blank ends every token but a comment. -/
theorem stops_of_isSpace {token : Token} (text : List Char) {d : Char}
    (h : token.isComment = false) (hspace : isSpace d = true) : Stops token text d := by
  have hclass : isNamePart d = false ∧ d.isDigit = false ∧ d ≠ '.' ∧ d ≠ '/' ∧ d ≠ '*' ∧
      d ≠ '=' ∧ d ≠ '&' ∧ d ≠ '|' := by
    have hmem := mem_blanks_of_isSpace hspace
    simp only [List.mem_cons, List.not_mem_nil, or_false] at hmem
    rcases hmem with rfl | rfl | rfl | rfl <;> decide
  obtain ⟨hpart, hdigit, hpoint, hslash, hstar, hequals, hand, hor⟩ := hclass
  have hpair : ∀ c, Symbol.ofPair? c d = none := by
    intro c
    unfold Symbol.ofPair?
    split <;> first | rfl | contradiction
  cases token with
  | number => exact ⟨hdigit, fun hd => absurd hd hpoint⟩
  | identifier | keyword => exact hpart
  | comment => cases h
  | symbol => exact fun c _ => ⟨hpair c, fun _ => ⟨hslash, hstar⟩⟩
  | string | endOfFile => trivial

theorem Scans.blanks {p : Position} {text cs : List Char} {lexemes : List Lexeme}
    (hspace : ∀ c ∈ text, isSpace c = true) (h : Scans (p.past text) cs lexemes) :
    Scans p (text ++ cs) lexemes := by
  induction text generalizing p with
  | nil => exact h
  | cons c text ih =>
    obtain ⟨hc, hothers⟩ := List.forall_mem_cons.mp hspace
    exact .blank hc (ih hothers h)

/-! ## What lies in comments -/

section Offsets

variable {k n : Nat} {lexemes lexemes' : List Lexeme} {x : Lexeme} {cs : List Char}

theorem inComment_cons : inComment (x :: lexemes) n =
    ((x.token.isComment && decide (x.span.left.index ≤ n ∧ n < x.span.right.index)) ||
      inComment lexemes n) :=
  List.any_cons

/-- Before the first lexeme there is no comment. -/
theorem inComment_of_lt (h : ∀ x ∈ lexemes, n < x.span.left.index) :
    inComment lexemes n = false := by
  refine List.any_eq_false.mpr fun x hx hin => ?_
  have hspan := of_decide_eq_true (Bool.and_eq_true_iff.mp hin).2
  exact absurd hspan.1 (Nat.not_le_of_lt (h x hx))

/-- Inside a lexeme with all others behind it, what counts is whether it is a comment itself. -/
theorem inComment_inside (hleft : x.span.left.index ≤ n) (hright : n < x.span.right.index)
    (hbehind : ∀ y ∈ lexemes, x.span.right.index ≤ y.span.left.index) :
    inComment (x :: lexemes) n = x.token.isComment := by
  rw [inComment_cons, inComment_of_lt fun y hy => Nat.lt_of_lt_of_le hright (hbehind y hy),
    decide_eq_true ⟨hleft, hright⟩, Bool.and_true, Bool.or_false]

/-- Behind a lexeme it does not count. -/
theorem inComment_behind (h : x.span.right.index ≤ n) :
    inComment (x :: lexemes) n = inComment lexemes n := by
  rw [inComment_cons, decide_eq_false fun hin => absurd hin.2 (Nat.not_lt_of_le h), Bool.and_false,
    Bool.false_or]

theorem blankFrom_append (k : Nat) (lexemes : List Lexeme) (cs ds : List Char) :
    blankFrom k lexemes (cs ++ ds) =
      blankFrom k lexemes cs ++ blankFrom (k + cs.length) lexemes ds := by
  induction cs generalizing k with
  | nil => rfl
  | cons c cs ih =>
    rw [List.cons_append, blankFrom, blankFrom, ih, List.length_cons, List.cons_append,
      Nat.add_right_comm, Nat.add_assoc]

/-- What is blanked out from an offset on hangs on the comments from there on. -/
theorem blankFrom_congr (h : ∀ n, k ≤ n → inComment lexemes n = inComment lexemes' n) :
    blankFrom k lexemes cs = blankFrom k lexemes' cs := by
  induction cs generalizing k with
  | nil => rfl
  | cons c cs ih =>
    rw [blankFrom, blankFrom, h k (Nat.le_refl k), ih fun n hn => h n (Nat.le_of_succ_le hn)]

/-- A text that lies in a comment with all or none of its characters. -/
theorem blankFrom_uniform {within : Bool}
    (h : ∀ n, k ≤ n → n < k + cs.length → inComment lexemes n = within) :
    blankFrom k lexemes cs = if within then cs.map blankOut else cs := by
  induction cs generalizing k with
  | nil => cases within <;> rfl
  | cons c cs ih =>
    rw [List.length_cons] at h
    rw [blankFrom, h k (Nat.le_refl k) (by omega), ih fun n hn hlt => h n (by omega) (by omega)]
    cases within <;> rfl

end Offsets

/-! ## Scanning -/

variable {p : Position} {cs : List Char} {lexemes : List Lexeme}

/-- Lexemes do not begin before the scanner. -/
theorem Scans.index_le (h : Scans p cs lexemes) : ∀ x ∈ lexemes, p.index ≤ x.span.left.index := by
  induction h with
  | done => exact List.forall_mem_singleton.mpr (Nat.le_refl _)
  | @blank p c cs lexemes _ _ ih =>
    have hnext := p.index_past [c]
    exact fun x hx => Nat.le_trans (hnext ▸ Nat.le_add_right _ _) (ih x hx)
  | @token p c cs m lexemes _ _ ih =>
    rw [Position.index_past] at ih
    exact List.forall_mem_cons.mpr
      ⟨Nat.le_refl _, fun x hx => Nat.le_trans (Nat.le_add_right _ _) (ih x hx)⟩

/-- A lexeme in front of the others is blanked out as a whole or not at all. -/
theorem Scans.blankFrom_token {token : Token} {text rest : List Char}
    (h : Scans (p.past text) rest lexemes) :
    blankFrom p.index (⟨token, ⟨p, p.past text⟩⟩ :: lexemes) (text ++ rest) =
      (if token.isComment then text.map blankOut else text) ++
        blankFrom (p.past text).index lexemes rest := by
  have hend := p.index_past text
  rw [blankFrom_append, ← hend]
  congr 1
  · exact blankFrom_uniform fun n hle hlt => inComment_inside hle (hend ▸ hlt) h.index_le
  · exact blankFrom_congr fun n hle => inComment_behind hle

/-- **A source with blanks for its comments is scanned to the other lexemes,** at the same places.
By induction on the run of the scanner. -/
theorem Scans.blankFrom (h : Scans p cs lexemes) :
    Scans p (blankFrom p.index lexemes cs) (lexemes.filter fun x => !x.token.isComment) := by
  induction h with
  | done => exact .done
  | @blank p c cs lexemes hspace more ih =>
    have hnext : (p.advance c).index = p.index + 1 := p.index_past [c]
    have hout : inComment lexemes p.index = false :=
      inComment_of_lt fun x hx => Nat.lt_of_lt_of_le (by omega) (more.index_le x hx)
    rw [Lexeme.blankFrom, hout, if_neg Bool.false_ne_true, ← hnext]
    exact .blank hspace ih
  | @token p c cs m lexemes hm more ih =>
    rw [← munch_text_append_rest hm, more.blankFrom_token]
    cases hcomment : m.token.isComment with
    | true =>
      -- The comment is left out, and blanks of the same extent are skipped.
      rw [List.filter_cons_of_neg (by simp [hcomment]), if_pos rfl]
      refine .blanks (fun d hd => ?_) ((past_map_blankOut p m.text).symm ▸ ih)
      obtain ⟨d', -, rfl⟩ := List.mem_map.mp hd
      exact isSpace_blankOut d'
    | false =>
      rw [List.filter_cons_of_pos (by simp [hcomment]), if_neg Bool.false_ne_true]
      refine .of_stops (spells_of_munch hm) (fun d hd => ?_) ih
      cases hrest : m.rest with
      | nil =>
        rw [hrest] at hd
        cases hd
      | cons e rest =>
        rw [hrest, Lexeme.blankFrom] at hd
        cases hd
        split
        · exact stops_of_isSpace m.text hcomment (isSpace_blankOut e)
        · exact stops_of_munch hm (hrest ▸ rfl)

theorem scan_blanked {source : String} (h : scan source = .ok lexemes) :
    scan (blanked lexemes source) = .ok (lexemes.filter fun x => !x.token.isComment) := by
  apply scan_of_scans
  rw [blanked, String.toList_ofList]
  exact (scans_of_scan h).blankFrom

end Lexeme

/-! ## Reading and running -/

theorem Comment.ofLexeme?_eq_none {x : Lexeme} (h : x.token.isComment = false) :
    ofLexeme? x = none := by
  obtain ⟨token, span⟩ := x
  cases token with
  | comment => cases h
  | _ => rfl

namespace Program

/-- A program is read from the lexemes that are no comments as from all of them, and then it has no
comments.  The last lexeme, which the span ends with, must stay. -/
theorem parse_filter {tokens : List Lexeme} {last : Lexeme}
    (hlast : last.token.isComment = false) :
    parse ((tokens ++ [last]).filter fun x => !x.token.isComment) =
      (parse (tokens ++ [last])).map fun program => { program with comments := [] } := by
  have hbody : ((tokens ++ [last]).filter fun x => !x.token.isComment).filter
      (fun x => !x.token.isComment) = (tokens ++ [last]).filter fun x => !x.token.isComment := by
    rw [List.filter_filter]
    simp only [Bool.and_self]
  have hcomments : ((tokens ++ [last]).filter fun x => !x.token.isComment).filterMap
      Comment.ofLexeme? = [] := by
    refine List.filterMap_eq_nil_iff.mpr fun x hx => ?_
    exact Comment.ofLexeme?_eq_none (by simpa using (List.mem_filter.mp hx).2)
  have hspan : spanOf ((tokens ++ [last]).filter fun x => !x.token.isComment) =
      spanOf (tokens ++ [last]) := by
    rw [List.filter_append, List.filter_cons_of_pos (by simp [hlast]), List.filter_nil, spanOf,
      spanOf, List.getLast?_concat, List.getLast?_concat]
  unfold parse
  rw [hbody, hcomments, hspan]
  cases Parse.run ((tokens ++ [last]).filter fun x => !x.token.isComment) with
  | ok body => rfl
  | error e => rfl

/-- A source with blanks for its comments is the same program without comments, or none for the same
reason. -/
theorem ofSource_blanked {source : String} {lexemes : List Lexeme}
    (h : Lexeme.scan source = .ok lexemes) (file : String) :
    ofSource file (Lexeme.blanked lexemes source) =
      (ofSource file source).map fun program => { program with comments := [] } := by
  rw [ofSource_of_scan (Lexeme.scan_blanked h), ofSource_of_scan h]
  obtain ⟨tokens, rfl, -⟩ := (Lexeme.scans_of_scan h).cut_start
  rw [parse_filter rfl]
  cases parse (tokens ++ _) with
  | ok program => rfl
  | error e => rfl

end Program

/-- **Comments are inert.**  A source that is scanned to some lexemes is scanned to those of them
that are no comments when it has blanks for its comments.  It is the same program then, without
comments, or it fails to be one with the same error, and it runs alike in every session. -/
theorem Session.run_blanked {source : String} {lexemes : List Lexeme}
    (h : Lexeme.scan source = .ok lexemes) :
    Lexeme.scan (Lexeme.blanked lexemes source) =
      .ok (lexemes.filter fun x => !x.token.isComment) ∧
    (∀ file, Program.ofSource file (Lexeme.blanked lexemes source) =
      (Program.ofSource file source).map fun program => { program with comments := [] }) ∧
    ∀ (session : Session) steps file,
      session.run steps file (Lexeme.blanked lexemes source) = session.run steps file source := by
  refine ⟨Lexeme.scan_blanked h, Program.ofSource_blanked h, fun session steps file => ?_⟩
  have hprogram := Program.ofSource_blanked h file
  cases hsource : Program.ofSource file source with
  | ok program =>
    rw [hsource] at hprogram
    rw [run_eq_evaluate hprogram, run_eq_evaluate hsource]
    rfl
  | error d =>
    rw [hsource] at hprogram
    rw [run, run, hprogram, hsource]
    rfl

/-- A comment over two lines is all that parts two names.  With blanks in its place they are still
two, at the same places. -/
theorem Session.run_blanked_between :
    let lexemes : List Lexeme := [⟨.identifier "a", ⟨⟨0, 0, 0⟩, ⟨1, 0, 1⟩⟩⟩,
      ⟨.comment "\n", ⟨⟨1, 0, 1⟩, ⟨6, 1, 2⟩⟩⟩, ⟨.identifier "b", ⟨⟨6, 1, 2⟩, ⟨7, 1, 3⟩⟩⟩,
      ⟨.endOfFile, ⟨⟨7, 1, 3⟩, ⟨7, 1, 3⟩⟩⟩]
    Lexeme.scan "a/*\n*/b" = .ok lexemes ∧
      Lexeme.blanked lexemes "a/*\n*/b" = "a  \n  b" ∧
      Lexeme.scan "a  \n  b" = .ok [⟨.identifier "a", ⟨⟨0, 0, 0⟩, ⟨1, 0, 1⟩⟩⟩,
        ⟨.identifier "b", ⟨⟨6, 1, 2⟩, ⟨7, 1, 3⟩⟩⟩, ⟨.endOfFile, ⟨⟨7, 1, 3⟩, ⟨7, 1, 3⟩⟩⟩] ∧
      ∀ (session : Session) steps file,
        session.run steps file "a  \n  b" = session.run steps file "a/*\n*/b" := by
  intro lexemes
  have hsource : "a/*\n*/b".toList = ['a', '/', '*', '\n', '*', '/', 'b'] := rfl
  have ha : Lexeme.munch 'a' ['/', '*', '\n', '*', '/', 'b'] =
      .ok ⟨.identifier "a", ['a'], ['/', '*', '\n', '*', '/', 'b']⟩ := rfl
  have hcomment : Lexeme.munch '/' ['*', '\n', '*', '/', 'b'] =
      .ok ⟨.comment "\n", ['/', '*', '\n', '*', '/'], ['b']⟩ := rfl
  have hb : Lexeme.munch 'b' [] = .ok ⟨.identifier "b", ['b'], []⟩ := rfl
  have hscan : Lexeme.scan "a/*\n*/b" = .ok lexemes := by
    rw [Lexeme.scan, hsource, Lexeme.scanFrom_munch rfl ha, Lexeme.scanFrom_munch rfl hcomment,
      Lexeme.scanFrom_munch rfl hb, Lexeme.scanFrom]
    rfl
  have hblanked : Lexeme.blanked lexemes "a/*\n*/b" = "a  \n  b" := rfl
  have hinert := run_blanked hscan
  rw [hblanked] at hinert
  exact ⟨hscan, hblanked, hinert.1, hinert.2.2⟩

end Script
