import Mathlib.Data.List.Induction
import Script.Proofs.Lexer.Spelling

/-!
# Lexemes partition the source

What the scanner yields covers a source: each lexeme spans the longest text at its place that spells
a token, the lexemes stand one behind the other, and between them there is nothing but blanks.

The argument follows the scanner from left to right.  `Scans` is the run of the scanner as a
relation, and `Cut source start tokens` is what it has achieved on a source from an offset on; each
step puts a blank or a token in front of a cut.
-/

namespace Script

namespace Position

/-- The position of a character offset: how many line feeds come before, and how many characters
since the last of them. -/
def ofOffset (source : List Char) (offset : Nat) : Position :=
  ⟨offset, (source.take offset).count '\n',
    ((source.take offset).reverse.takeWhile (· ≠ '\n')).length⟩

theorem past_start (cs : List Char) :
    start.past cs = ⟨cs.length, cs.count '\n', (cs.reverse.takeWhile (· ≠ '\n')).length⟩ := by
  induction cs using List.reverseRecOn with
  | nil => rfl
  | append_singleton cs c ih =>
    rw [past_append, ih, List.reverse_append]
    show advance _ c = _
    by_cases hc : c = '\n'
    · subst hc
      rw [advance, if_pos rfl]
      simp
    · rw [advance, if_neg hc]
      simp [hc]

/-- Moving from the start over the first characters leads to the position of their number. -/
theorem past_start_eq_ofOffset {source before after : List Char} (h : source = before ++ after) :
    start.past before = ofOffset source before.length := by
  rw [past_start, ofOffset, h, List.take_left]

end Position

namespace Lexeme

/-! ## Runs of the scanner -/

/-- A run of the scanner over a text that starts at a position, with the lexemes it yields. -/
inductive Scans : Position → List Char → List Lexeme → Prop
  | done {p : Position} : Scans p [] [⟨.endOfFile, ⟨p, p⟩⟩]
  | blank {p : Position} {c : Char} {cs : List Char} {lexemes : List Lexeme}
      (space : isSpace c = true) (more : Scans (p.advance c) cs lexemes) :
      Scans p (c :: cs) lexemes
  | token {p : Position} {c : Char} {cs : List Char} {m : Munch} {lexemes : List Lexeme}
      (taken : munch c cs = .ok m) (more : Scans (p.past m.text) m.rest lexemes) :
      Scans p (c :: cs) (⟨m.token, ⟨p, p.past m.text⟩⟩ :: lexemes)

theorem scanFrom_space {p : Position} {seen : List Lexeme} {c : Char} {cs : List Char}
    (hspace : isSpace c = true) : scanFrom p seen (c :: cs) = scanFrom (p.advance c) seen cs := by
  rw [scanFrom, if_pos hspace]

theorem scanFrom_munch {p : Position} {seen : List Lexeme} {c : Char} {cs : List Char} {m : Munch}
    (hspace : isSpace c = false) (h : munch c cs = .ok m) :
    scanFrom p seen (c :: cs) =
      scanFrom (p.past m.text) (⟨m.token, ⟨p, p.past m.text⟩⟩ :: seen) m.rest := by
  rw [scanFrom, hspace, if_neg Bool.false_ne_true]
  split
  · next herror =>
    rw [h] at herror
    cases herror
  · next herror =>
    rw [h] at herror
    cases herror
  · next m' hok =>
    rw [h] at hok
    cases hok
    rfl

/-- What is scanned goes behind the lexemes that were there before. -/
theorem scans_of_scanFrom {p : Position} {seen lexemes : List Lexeme} {cs : List Char}
    (h : scanFrom p seen cs = .ok lexemes) :
    ∃ more, lexemes = seen.reverse ++ more ∧ Scans p cs more := by
  induction hn : cs.length using Nat.strongRecOn generalizing p seen cs with
  | ind n ih =>
    cases cs with
    | nil =>
      rw [scanFrom] at h
      cases h
      exact ⟨_, List.reverse_cons, .done⟩
    | cons c cs =>
      cases hspace : isSpace c with
      | true =>
        rw [scanFrom_space hspace] at h
        obtain ⟨more, rfl, hmore⟩ := ih _ (by rw [← hn]; exact Nat.lt_succ_self _) h rfl
        exact ⟨more, rfl, .blank hspace hmore⟩
      | false =>
        rw [scanFrom, hspace, if_neg Bool.false_ne_true] at h
        split at h
        · cases h
        · cases h
        · next m hm =>
          obtain ⟨more, rfl, hmore⟩ := ih _ (by rw [← hn]; exact munch_rest_length_lt hm) h rfl
          refine ⟨_ :: more, ?_, .token hm hmore⟩
          rw [List.reverse_cons, List.append_assoc, List.singleton_append]

theorem scans_of_scan {source : String} {lexemes : List Lexeme} (h : scan source = .ok lexemes) :
    Scans .start source.toList lexemes := by
  obtain ⟨more, rfl, hmore⟩ := scans_of_scanFrom h
  exact hmore

/-- A text that spells a token is scanned to a lexeme that covers it, and the end of the file. -/
theorem scan_of_spells {token : Token} {text : List Char} (h : Spells token text) :
    scan (String.ofList text) = .ok
      [⟨token, ⟨.start, .ofOffset text text.length⟩⟩,
        ⟨.endOfFile, ⟨.ofOffset text text.length, .ofOffset text text.length⟩⟩] := by
  obtain ⟨c, cs, rfl, hspace, hm⟩ := munch_of_spells h
  rw [scan, String.toList_ofList, scanFrom_munch hspace hm, scanFrom,
    Position.past_start_eq_ofOffset (List.append_nil _).symm]
  rfl

/-! ## Cuts -/

/-- The characters that a lexeme spans. -/
def slice (source : List Char) (lexeme : Lexeme) : List Char :=
  (source.drop lexeme.span.left.index).take (lexeme.span.right.index - lexeme.span.left.index)

/-- A lexeme whose span covers a text has it for its slice. -/
theorem slice_of_covers {source before text rest : List Char} {lexeme : Lexeme}
    (hsource : source = before ++ (text ++ rest)) (hleft : lexeme.span.left.index = before.length)
    (hright : lexeme.span.right.index = before.length + text.length) :
    lexeme.slice source = text := by
  rw [slice, hleft, hright, hsource, List.drop_left, Nat.add_sub_cancel_left, List.take_left]

/-- The lexeme sits where its span says, and it is the longest one that may sit there. -/
structure Sits (source : List Char) (lexeme : Lexeme) : Prop where
  left : lexeme.span.left = .ofOffset source lexeme.span.left.index
  right : lexeme.span.right = .ofOffset source lexeme.span.right.index
  nonempty : lexeme.span.left.index < lexeme.span.right.index
  inside : lexeme.span.right.index ≤ source.length
  spelled : Spells lexeme.token (lexeme.slice source)
  /-- By itself the text of the lexeme is scanned to the same token, and nothing else. -/
  alone : (scan (String.ofList (lexeme.slice source))).map (·.map Lexeme.token) =
    .ok [lexeme.token, .endOfFile]
  /-- No longer text at this place spells a token. -/
  longest : ∀ token text, Spells token text → text <+: source.drop lexeme.span.left.index →
    text.length ≤ (lexeme.slice source).length

/-- The tokens cut the source from an offset on: they sit one behind the other, and what none of
them covers is blank. -/
structure Cut (source : List Char) (start : Nat) (tokens : List Lexeme) : Prop where
  sits : ∀ x ∈ tokens, x.Sits source
  behind : ∀ x ∈ tokens, start ≤ x.span.left.index
  ordered : tokens.Pairwise fun x y => x.span.right.index ≤ y.span.left.index
  blank : ∀ k c, start ≤ k → source[k]? = some c →
    (∀ x ∈ tokens, k < x.span.left.index ∨ x.span.right.index ≤ k) → c ∈ [' ', '\t', '\r', '\n']

theorem mem_blanks_of_isSpace {c : Char} (h : isSpace c = true) :
    c ∈ [' ', '\t', '\r', '\n'] := by
  simpa [isSpace, or_assoc] using h

namespace Cut

variable {source before cs : List Char} {tokens : List Lexeme} {c : Char} {m : Munch}

theorem nil : Cut source source.length [] where
  sits := nofun
  behind := nofun
  ordered := .nil
  blank k c hk hc _ := by
    rw [List.getElem?_eq_none hk] at hc
    cases hc

/-- A blank in front of a cut. -/
theorem space (hsource : source = before ++ c :: cs) (hspace : isSpace c = true)
    (h : Cut source (before.length + 1) tokens) : Cut source before.length tokens where
  sits := h.sits
  behind x hx := Nat.le_of_succ_le (h.behind x hx)
  ordered := h.ordered
  blank k d hk hd hout := by
    rcases Nat.eq_or_lt_of_le hk with rfl | hlt
    · rw [hsource, List.getElem?_append_right (Nat.le_refl _), Nat.sub_self] at hd
      cases hd
      exact mem_blanks_of_isSpace hspace
    · exact h.blank k d hlt hd hout

end Cut

section Tokens

variable {source before cs : List Char} {tokens : List Lexeme} {c : Char} {m : Munch}

/-- A token that is taken sits behind what was taken before. -/
theorem sits_of_munch (hsource : source = before ++ c :: cs) (hm : munch c cs = .ok m) :
    Sits source ⟨m.token, ⟨.ofOffset source before.length,
      .ofOffset source (before.length + m.text.length)⟩⟩ := by
  have hwhole := munch_text_append_rest hm
  have hdrop : source.drop before.length = c :: cs := by rw [hsource, List.drop_left]
  have hslice : slice source ⟨m.token, ⟨.ofOffset source before.length,
      .ofOffset source (before.length + m.text.length)⟩⟩ = m.text :=
    slice_of_covers (hwhole ▸ hsource) rfl rfl
  have hpos : 0 < m.text.length := List.length_pos_iff.mpr (munch_text_ne_nil hm)
  have hlength : source.length = before.length + m.text.length + m.rest.length := by
    rw [hsource, ← hwhole, List.length_append, List.length_append, Nat.add_assoc]
  refine ⟨rfl, rfl, ?_, ?_, ?_, ?_, ?_⟩
  · show before.length < before.length + m.text.length
    omega
  · show before.length + m.text.length ≤ source.length
    omega
  · rw [hslice]
    exact spells_of_munch hm
  · rw [hslice, scan_of_spells (spells_of_munch hm)]
    rfl
  · intro token text htext hfront
    obtain ⟨rest, hrest⟩ := hfront
    rw [hslice]
    exact length_le_of_spells htext (hrest.trans hdrop) hm

theorem Cut.token (hsource : source = before ++ c :: cs) (hm : munch c cs = .ok m)
    (h : Cut source (before.length + m.text.length) tokens) :
    Cut source before.length (⟨m.token, ⟨.ofOffset source before.length,
      .ofOffset source (before.length + m.text.length)⟩⟩ :: tokens) where
  sits := List.forall_mem_cons.mpr ⟨sits_of_munch hsource hm, h.sits⟩
  behind := by
    refine List.forall_mem_cons.mpr ⟨Nat.le_refl _, fun x hx => ?_⟩
    exact Nat.le_trans (Nat.le_add_right _ _) (h.behind x hx)
  ordered := List.pairwise_cons.mpr ⟨h.behind, h.ordered⟩
  blank k d hk hd hout := by
    obtain ⟨hfirst, hothers⟩ := List.forall_mem_cons.mp hout
    rcases hfirst with hbefore | hafter
    · exact absurd hk (Nat.not_le_of_lt hbefore)
    · exact h.blank k d hafter hd hothers

/-- **A run of the scanner cuts what is left of the source.**  By induction on the run, with all
that came before as a variable. -/
theorem Scans.cut {p : Position} {lexemes : List Lexeme} (h : Scans p cs lexemes)
    (before : List Char) (hsource : source = before ++ cs) (hp : p = Position.start.past before) :
    ∃ tokens, lexemes = tokens ++ [⟨.endOfFile, ⟨.ofOffset source source.length,
      .ofOffset source source.length⟩⟩] ∧ Cut source before.length tokens := by
  induction h generalizing before with
  | done =>
    rw [List.append_nil] at hsource
    subst hsource
    rw [hp, Position.past_start_eq_ofOffset (List.append_nil _).symm]
    exact ⟨[], rfl, .nil⟩
  | @blank p c cs lexemes hspace _ ih =>
    have hnext : p.advance c = Position.start.past (before ++ [c]) := by
      rw [hp, Position.past_append]
      rfl
    obtain ⟨tokens, hlexemes, hcut⟩ := ih (before ++ [c]) (by simp [hsource]) hnext
    rw [List.length_append] at hcut
    exact ⟨tokens, hlexemes, hcut.space hsource hspace⟩
  | @token p c cs m lexemes hm _ ih =>
    have hwhole := munch_text_append_rest hm
    have hsplit : source = before ++ m.text ++ m.rest := by
      rw [hsource, List.append_assoc, hwhole]
    have hright : p.past m.text = Position.start.past (before ++ m.text) := by
      rw [hp, Position.past_append]
    obtain ⟨tokens, hlexemes, hcut⟩ := ih _ hsplit hright
    rw [List.length_append] at hcut
    refine ⟨_, ?_, hcut.token hsource hm⟩
    rw [hlexemes, hright, hp, Position.past_start_eq_ofOffset hsource,
      Position.past_start_eq_ofOffset hsplit, List.length_append]
    rfl

theorem Scans.cut_start {lexemes : List Lexeme} (h : Scans .start source lexemes) :
    ∃ tokens, lexemes = tokens ++ [⟨.endOfFile, ⟨.ofOffset source source.length,
      .ofOffset source source.length⟩⟩] ∧ Cut source 0 tokens :=
  h.cut [] rfl rfl

end Tokens

/-! ## The whole source -/

/-- No token is spelled like the end of the file. -/
theorem Spells.ne_endOfFile {token : Token} {text : List Char} (h : Spells token text) :
    token ≠ .endOfFile := by
  cases h <;> nofun

/-- **Lexemes partition the source.**  The last lexeme is the end of the file, with an empty span
behind the last character.  All others are tokens that cut the source from its start. -/
theorem scan_partition {source : String} {lexemes : List Lexeme} (h : scan source = .ok lexemes) :
    (∃ tokens, lexemes = tokens ++ [⟨.endOfFile,
        ⟨.ofOffset source.toList source.toList.length,
          .ofOffset source.toList source.toList.length⟩⟩] ∧
      (∀ x ∈ tokens, x.token ≠ .endOfFile) ∧ Cut source.toList 0 tokens) ∧
    lexemes.Pairwise fun x y => x.span.right.index ≤ y.span.left.index := by
  obtain ⟨tokens, rfl, hcut⟩ := (scans_of_scan h).cut_start
  refine ⟨⟨tokens, rfl, fun x hx => (hcut.sits x hx).spelled.ne_endOfFile, hcut⟩, ?_⟩
  refine List.pairwise_append.mpr ⟨hcut.ordered, List.pairwise_singleton _ _, ?_⟩
  intro x hx y hy
  rw [List.mem_singleton.mp hy]
  exact (hcut.sits x hx).inside

/-- A keyword, and a name that begins with it: the longest match is taken. -/
theorem scan_partition_keyword :
    ∃ lexemes, scan "if\nifs" = .ok lexemes ∧
      lexemes.map Lexeme.token = [.keyword .ifWord, .identifier "ifs", .endOfFile] ∧
      lexemes.Pairwise fun x y => x.span.right.index ≤ y.span.left.index := by
  have hsource : "if\nifs".toList = ['i', 'f', '\n', 'i', 'f', 's'] := rfl
  have hif : munch 'i' ['f', '\n', 'i', 'f', 's'] =
      .ok ⟨.keyword .ifWord, ['i', 'f'], ['\n', 'i', 'f', 's']⟩ := rfl
  have hifs : munch 'i' ['f', 's'] = .ok ⟨.identifier "ifs", ['i', 'f', 's'], []⟩ := rfl
  have h : scan "if\nifs" = .ok
      [⟨.keyword .ifWord, ⟨⟨0, 0, 0⟩, ⟨2, 0, 2⟩⟩⟩, ⟨.identifier "ifs", ⟨⟨3, 1, 0⟩, ⟨6, 1, 3⟩⟩⟩,
        ⟨.endOfFile, ⟨⟨6, 1, 3⟩, ⟨6, 1, 3⟩⟩⟩] := by
    rw [scan, hsource, scanFrom_munch rfl hif, scanFrom_space rfl, scanFrom_munch rfl hifs,
      scanFrom]
    rfl
  exact ⟨_, h, rfl, (scan_partition h).2⟩

/-- The texts that spell a token are those that the scanner takes whole. -/
theorem spells_iff_scan {token : Token} {text : List Char} :
    Spells token text ↔ scan (String.ofList text) = .ok
      [⟨token, ⟨.start, .ofOffset text text.length⟩⟩,
        ⟨.endOfFile, ⟨.ofOffset text text.length, .ofOffset text text.length⟩⟩] := by
  refine ⟨scan_of_spells, fun h => ?_⟩
  have hscans := scans_of_scan h
  rw [String.toList_ofList] at hscans
  obtain ⟨tokens, hlexemes, hcut⟩ := hscans.cut_start
  have htokens : [⟨token, ⟨.start, .ofOffset text text.length⟩⟩] = tokens :=
    List.append_cancel_right (show [_] ++ [_] = tokens ++ [_] from hlexemes)
  have hspelled := (hcut.sits _ (htokens ▸ List.mem_singleton_self _)).spelled
  have hslice : slice text ⟨token, ⟨.start, .ofOffset text text.length⟩⟩ = text := by
    show (text.drop 0).take (text.length - 0) = text
    rw [List.drop_zero, Nat.sub_zero, List.take_length]
  rwa [hslice] at hspelled

end Lexeme

end Script
