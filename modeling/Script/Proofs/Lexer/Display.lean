import Script.Proofs.Lexer.Rendering
import Script.Proofs.Literals
import Script.Proofs.Number.Literal

/-!
# Scanning undoes the display of tokens

A token shows as a text that spells it, if its contents have a spelling at all
(`Token.Writable.spells`): a string shows in double quotes and so may not hold one, a comment shows
behind two slashes and so may not hold the end of a line.  A line feed ends every such text, and
tokens that are shown one on each line are scanned to the same tokens (`scan_display`).
-/

namespace Script

/-- The token shows as it may stand in a source. -/
def Token.Writable : Token → Prop
  | number value => IsDecimal (value.written .token).toList ∧
    (Numeral.read? (value.written .token).toList).map Numeral.value = some value
  | string contents => '"' ∉ contents.toList
  | identifier name => IsName name
  | comment text => ∀ c ∈ text.toList, c ≠ '\r' ∧ c ≠ '\n'
  | keyword _ | symbol _ => True
  | endOfFile => False

open Lexeme

/-- **What a token shows as spells it.** -/
theorem Token.Writable.spells {t : Token} (h : t.Writable) : Spells t t.display.toList := by
  cases t with
  | number value => exact h.1.spells h.2
  | string contents =>
    have hspells := Spells.string (q := '"') rfl h
    rw [String.ofList_toList] at hspells
    rw [display, String.toList_append, String.toList_append]
    exact hspells
  | identifier name => exact IsName.spells h
  | comment text =>
    have hline : ∀ c ∈ text.toList, isLineEnd c = false := by
      intro c hc
      rw [isLineEnd, decide_eq_false (h c hc).1, decide_eq_false (h c hc).2]
      rfl
    have hspells := Spells.lineComment hline
    rw [String.ofList_toList] at hspells
    rw [display, String.toList_append]
    exact hspells
  | keyword word => exact .keyword word
  | symbol mark => exact .symbol mark
  | endOfFile => exact h.elim

/-- A token does not show as a comment that waits to be closed. -/
theorem Token.Writable.not_isOpenComment {t : Token} (h : t.Writable) :
    ¬ IsOpenComment t.display.toList := by
  rintro ⟨cs, htext, hopen⟩
  -- The text spells one token only, and that would be a comment, which shows behind two slashes.
  obtain rfl : t = .comment (String.ofList cs) := by
    have hspells := h.spells
    rw [htext] at hspells
    exact hspells.unique (.openComment hopen)
  rw [display, String.toList_append] at htext
  cases htext

namespace Lexeme

/-- Tokens that are shown one on each line render themselves. -/
theorem renders_display {tokens : List Token} (h : ∀ t ∈ tokens, t.Writable) :
    Renders tokens (String.join (tokens.map fun t => t.display ++ "\n")).toList := by
  induction tokens with
  | nil => exact .done
  | cons t tokens ih =>
    obtain ⟨ht, hothers⟩ := List.forall_mem_cons.mp h
    rw [List.map_cons, String.join_cons, String.toList_append, String.toList_append,
      List.append_assoc]
    refine .token ht.spells ?_ (.blank rfl (ih hothers))
    rintro d ⟨⟩
    exact stops_lineFeed ht.not_isOpenComment

/-- **Scanning undoes the display of tokens.**  Tokens that are shown one on each line are scanned
to the same tokens, and the end of the file. -/
theorem scan_display {tokens : List Token} (h : ∀ t ∈ tokens, t.Writable) :
    ∃ lexemes, scan (String.join (tokens.map fun t => t.display ++ "\n")) = .ok lexemes ∧
      lexemes.map Lexeme.token = tokens ++ [.endOfFile] :=
  scan_of_renders (renders_display h)

/-- Tokens that hold the marks of others: a comment and a string with the beginnings of comments in
them, a name that begins with a keyword, and two marks that are one if nothing parts them. -/
theorem scan_display_lookalikes :
    let tokens : List Token := [.comment "/*", .string "//", .identifier "lets", .keyword .letWord,
      .symbol .less, .symbol .equals, .number ⟨0x3fb999999999999a⟩]
    (∀ t ∈ tokens, t.Writable) ∧
      ∃ lexemes, scan (String.join (tokens.map fun t => t.display ++ "\n")) = .ok lexemes ∧
        lexemes.map Lexeme.token = tokens ++ [.endOfFile] := by
  intro tokens
  have hcomment : (Token.comment "/*").Writable :=
    List.forall_mem_cons.mpr ⟨by decide, List.forall_mem_singleton.mpr (by decide)⟩
  have hstring : (Token.string "//").Writable := show '"' ∉ "//".toList by decide
  have hname : (Token.identifier "lets").Writable :=
    ⟨⟨'l', ['e', 't', 's'], rfl, rfl, List.all_eq_true.mp rfl⟩, rfl⟩
  have hnumber : (Token.number ⟨0x3fb999999999999a⟩).Writable :=
    Number.isDecimal_written rfl rfl
  have h : ∀ t ∈ tokens, t.Writable := by
    simp only [tokens, List.forall_mem_cons]
    exact ⟨hcomment, hstring, hname, trivial, trivial, trivial, hnumber, List.forall_mem_nil _⟩
  exact ⟨h, scan_display h⟩

end Lexeme

end Script
