import Script.Proofs.Lexer.Boundary
import Script.Proofs.Lexer.Partition

/-!
# Sources below one another

A line feed ends every token except a block comment that is still open.  So a source that is put
below another one, with a line feed between them, is scanned as if it stood alone, and all that
changes is where it stands: `below origin` moves a place of a source to where it is when the source
begins on a new line at `origin`.
-/

namespace Script

namespace Position

/-- The place of a position when its source begins at `origin`, on a new line. -/
def below (p origin : Position) : Position :=
  ⟨origin.index + p.index, origin.line + p.line, p.column⟩

variable {origin p q : Position}

theorem advance_below (c : Char) : (p.below origin).advance c = (p.advance c).below origin := by
  unfold advance
  split
  · rfl
  · rfl

theorem past_below (cs : List Char) : (p.below origin).past cs = (p.past cs).below origin := by
  induction cs generalizing p with
  | nil => rfl
  | cons c cs ih => rw [past_cons, past_cons, advance_below, ih]

theorem below_start (h : origin.column = 0) : start.below origin = origin := by
  cases origin
  cases h
  rfl

/-- Behind a line feed a new line begins. -/
theorem column_advance_lineFeed (p : Position) : (p.advance '\n').column = 0 := rfl

end Position

/-- The span of a part of a source that begins at `origin`, on a new line. -/
def Span.below (origin : Position) (span : Span) : Span :=
  ⟨span.left.below origin, span.right.below origin⟩

def Lexeme.below (origin : Position) (lexeme : Lexeme) : Lexeme :=
  ⟨lexeme.token, lexeme.span.below origin⟩

def LexError.below (origin : Position) : LexError → LexError
  | unexpectedCharacter c span => unexpectedCharacter c (span.below origin)
  | unterminatedString q span => unterminatedString q (span.below origin)

namespace Lexeme

/-- What scanning a source comes to when the source begins at `origin`, behind some lexemes. -/
def resumed (origin : Position) (before : List Lexeme) :
    Except LexError (List Lexeme) → Except LexError (List Lexeme)
  | .ok lexemes => .ok (before ++ lexemes.map (below origin))
  | .error e => .error (e.below origin)

theorem scanFrom_unexpected {p : Position} {seen : List Lexeme} {c : Char} {cs : List Char}
    (hspace : isSpace c = false) (h : munch c cs = .error .unexpected) :
    scanFrom p seen (c :: cs) = .error (.unexpectedCharacter c ⟨p, p.advance c⟩) := by
  rw [scanFrom, hspace, if_neg Bool.false_ne_true]
  split
  · rfl
  · next hother =>
    rw [h] at hother
    cases hother
  · next hother =>
    rw [h] at hother
    cases hother

theorem scanFrom_unterminated {p : Position} {seen : List Lexeme} {c : Char} {cs : List Char}
    (hspace : isSpace c = false) (h : munch c cs = .error .unterminated) :
    scanFrom p seen (c :: cs) = .error (.unterminatedString c ⟨p, p.past (c :: cs)⟩) := by
  rw [scanFrom, hspace, if_neg Bool.false_ne_true]
  split
  · next hother =>
    rw [h] at hother
    cases hother
  · rfl
  · next hother =>
    rw [h] at hother
    cases hother

/-- **Scanning does not depend on where a source begins**, nor on what was scanned before. -/
theorem scanFrom_below (origin : Position) (before : List Lexeme) (p : Position)
    (seen : List Lexeme) (cs : List Char) :
    scanFrom (p.below origin) (seen.map (below origin) ++ before.reverse) cs =
      resumed origin before (scanFrom p seen cs) := by
  induction hn : cs.length using Nat.strongRecOn generalizing p seen cs with
  | ind n ih =>
    cases cs with
    | nil =>
      rw [scanFrom, scanFrom]
      simp [resumed, below, Span.below]
    | cons c cs =>
      cases hspace : isSpace c with
      | true =>
        rw [scanFrom_space hspace, scanFrom_space hspace, Position.advance_below]
        exact ih _ (by rw [← hn]; exact Nat.lt_succ_self _) _ _ _ rfl
      | false =>
        cases hm : munch c cs with
        | error refusal =>
          cases refusal with
          | unexpected =>
            rw [scanFrom_unexpected hspace hm, scanFrom_unexpected hspace hm,
              Position.advance_below]
            rfl
          | unterminated =>
            rw [scanFrom_unterminated hspace hm, scanFrom_unterminated hspace hm,
              Position.past_below]
            rfl
        | ok m =>
          rw [scanFrom_munch hspace hm, scanFrom_munch hspace hm, Position.past_below]
          exact ih _ (by rw [← hn]; exact munch_rest_length_lt hm) _
            (⟨m.token, ⟨p, p.past m.text⟩⟩ :: seen) _ rfl

/-- The text of what was taken is the slice of its lexeme. -/
theorem slice_of_munch {source before cs : List Char} {c : Char} {m : Munch}
    (hsource : source = before ++ c :: cs) (hm : munch c cs = .ok m) :
    slice source ⟨m.token, ⟨Position.start.past before,
      (Position.start.past before).past m.text⟩⟩ = m.text := by
  rw [← munch_text_append_rest hm] at hsource
  rw [← Position.past_append, Position.past_start, Position.past_start]
  exact slice_of_covers hsource rfl List.length_append

/-- **A line that is scanned to its end is scanned alike above others.**  By induction on the run of
the scanner, with all that came before as a variable. -/
theorem Scans.above {source cs : List Char} {p : Position} {lexemes : List Lexeme}
    (h : Scans p cs lexemes) (before : List Char) (hsource : source = before ++ cs)
    (hp : p = Position.start.past before)
    (hclosed : ∀ x ∈ lexemes, ¬ IsOpenComment (x.slice source)) :
    ∃ tokens last, lexemes = tokens ++ [⟨.endOfFile, last⟩] ∧
      (∀ x ∈ tokens, x.token ≠ .endOfFile) ∧ ∀ seen more,
        scanFrom p seen (cs ++ '\n' :: more) =
          scanFrom ((p.past cs).advance '\n') (tokens.reverse ++ seen) more := by
  induction h generalizing before with
  | @done p => exact ⟨[], _, rfl, nofun, fun seen more => scanFrom_space rfl⟩
  | @blank p c cs lexemes hspace _ ih =>
    have hnext : p.advance c = Position.start.past (before ++ [c]) := by
      rw [hp, Position.past_append]
      rfl
    obtain ⟨tokens, last, hlexemes, htokens, hscan⟩ :=
      ih (before ++ [c]) (by simp [hsource]) hnext hclosed
    refine ⟨tokens, last, hlexemes, htokens, fun seen more => ?_⟩
    rw [List.cons_append, scanFrom_space hspace]
    exact hscan seen more
  | @token p c cs m lexemes hm _ ih =>
    have hwhole := munch_text_append_rest hm
    obtain ⟨hfirst, hothers⟩ := List.forall_mem_cons.mp hclosed
    rw [hp, slice_of_munch hsource hm] at hfirst
    have hsplit : source = before ++ m.text ++ m.rest := by
      rw [hsource, List.append_assoc, hwhole]
    have hright : p.past m.text = Position.start.past (before ++ m.text) := by
      rw [hp, Position.past_append]
    obtain ⟨tokens, last, hlexemes, htokens, hscan⟩ := ih _ hsplit hright hothers
    refine ⟨_ :: tokens, last, congrArg _ hlexemes, ?_, fun seen more => ?_⟩
    · exact List.forall_mem_cons.mpr ⟨(spells_of_munch hm).ne_endOfFile, htokens⟩
    rw [List.cons_append, scanFrom_munch (isSpace_eq_false_of_munch hm)
      (munch_append_lineFeed hm hfirst more), hscan, ← hwhole, Position.past_append]
    simp

/-- The source leaves a block comment open at its end. -/
def LeavesOpen (source : String) : Prop :=
  ∃ lexemes, scan source = .ok lexemes ∧ ∃ x ∈ lexemes, IsOpenComment (x.slice source.toList)

/-- Without a star there are no block comments. -/
theorem not_leavesOpen_of_notMem {source : String} (h : '*' ∉ source.toList) :
    ¬ LeavesOpen source := by
  rintro ⟨lexemes, -, x, -, cs, hslice, -⟩
  have hmem : '*' ∈ x.slice source.toList := by
    rw [hslice]
    exact List.mem_cons_of_mem _ List.mem_cons_self
  exact h (List.mem_of_mem_drop (List.mem_of_mem_take hmem))

/-- **A source below another one.**  If the first source is scanned and leaves no comment open, the
second one is scanned below it as it is alone. -/
theorem scan_below {above : String} {lexemes : List Lexeme} (h : scan above = .ok lexemes)
    (hclosed : ¬ LeavesOpen above) :
    ∃ tokens last, lexemes = tokens ++ [⟨.endOfFile, last⟩] ∧
      (∀ x ∈ tokens, x.token ≠ .endOfFile) ∧ ∀ source, scan (above ++ "\n" ++ source) =
        resumed ((Position.start.past above.toList).advance '\n') tokens (scan source) := by
  obtain ⟨tokens, last, rfl, htokens, hscan⟩ := (scans_of_scan h).above [] rfl rfl fun x hx hopen =>
    hclosed ⟨lexemes, h, x, hx, hopen⟩
  refine ⟨tokens, last, rfl, htokens, fun source => ?_⟩
  have hsource : (above ++ "\n" ++ source).toList = above.toList ++ '\n' :: source.toList := by
    rw [String.toList_append, String.toList_append, List.append_assoc]
    rfl
  have hbelow := scanFrom_below ((Position.start.past above.toList).advance '\n') tokens .start []
    source.toList
  rw [Position.below_start (Position.column_advance_lineFeed _)] at hbelow
  rw [scan, hsource, hscan, List.append_nil]
  exact hbelow

/-- A source that is put behind others can be scanned if and only if it can be scanned alone. -/
theorem exists_resumed_eq_ok {origin : Position} {before : List Lexeme}
    {outcome : Except LexError (List Lexeme)} :
    (∃ both, resumed origin before outcome = .ok both) ↔ ∃ lexemes, outcome = .ok lexemes := by
  cases outcome with
  | ok lexemes => exact ⟨fun _ => ⟨lexemes, rfl⟩, fun _ => ⟨_, rfl⟩⟩
  | error e => exact ⟨nofun, nofun⟩

/-- **Sources are scanned line by line.**  Below a source that leaves no comment open, another one
fails or succeeds as it does alone.  Its lexemes come behind the tokens of the first one, further
down by the characters and the lines above it and in the same columns, and so does its error. -/
theorem scan_append_lineFeed {above : String} {lexemes : List Lexeme}
    (h : scan above = .ok lexemes) (hclosed : ¬ LeavesOpen above) (source : String) :
    let origin : Position := ⟨above.toList.length + 1, above.toList.count '\n' + 1, 0⟩
    ((∃ both, scan (above ++ "\n" ++ source) = .ok both) ↔ ∃ more, scan source = .ok more) ∧
    (∀ more, scan source = .ok more → scan (above ++ "\n" ++ source) =
      .ok ((lexemes.filter fun x => x.token ≠ .endOfFile) ++ more.map (below origin))) ∧
    ∀ e, scan source = .error e → scan (above ++ "\n" ++ source) = .error (e.below origin) := by
  intro origin
  obtain ⟨tokens, last, rfl, htokens, hscan⟩ := scan_below h hclosed
  have horigin : (Position.start.past above.toList).advance '\n' = origin := by
    rw [Position.past_start]
    rfl
  rw [horigin] at hscan
  have hfilter : ((tokens ++ [Lexeme.mk .endOfFile last]).filter fun x =>
      x.token ≠ .endOfFile) = tokens := by
    rw [List.filter_append, List.filter_eq_self.mpr fun x hx => decide_eq_true (htokens x hx)]
    exact List.append_nil tokens
  rw [hscan, hfilter]
  refine ⟨exists_resumed_eq_ok, fun more hmore => ?_, fun e he => ?_⟩
  · rw [hmore]
    rfl
  · rw [he]
    rfl

/-- Two slashes stay two marks with a line feed between them, where `//` is a comment. -/
theorem scan_append_lineFeed_slashes :
    scan "/" = .ok
        [⟨.symbol .slash, ⟨⟨0, 0, 0⟩, ⟨1, 0, 1⟩⟩⟩, ⟨.endOfFile, ⟨⟨1, 0, 1⟩, ⟨1, 0, 1⟩⟩⟩] ∧
      ¬ LeavesOpen "/" ∧ scan ("/" ++ "\n" ++ "/") = .ok
        [⟨.symbol .slash, ⟨⟨0, 0, 0⟩, ⟨1, 0, 1⟩⟩⟩, ⟨.symbol .slash, ⟨⟨2, 1, 0⟩, ⟨3, 1, 1⟩⟩⟩,
          ⟨.endOfFile, ⟨⟨3, 1, 1⟩, ⟨3, 1, 1⟩⟩⟩] := by
  have hscan := scan_of_spells (.symbol .slash)
  have hclosed : ¬ LeavesOpen "/" := not_leavesOpen_of_notMem (by decide)
  exact ⟨hscan, hclosed, (scan_append_lineFeed hscan hclosed "/").2.1 _ hscan⟩

end Lexeme

end Script
