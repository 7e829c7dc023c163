import Script.Proofs.Parser.Completeness
import Script.Proofs.Parser.Effort
import Script.Proofs.Parser.Printer
import Script.Proofs.Parser.Soundness

/-!
# Parsing undoes printing

A program that was read can be written down in many ways: with parentheses wherever the ranks of the
grammar ask for them and with more of them anywhere else, with one semicolon or several between its
statements.  All of them are read as the same program again.
-/

namespace Script

open Token

namespace Program

variable {lexemes : List Lexeme} {program : Program} {body : List Stmt} {tokens : List Token}

/-- The statements of a program that is read are well named. -/
theorem wellNamed_of_parse (h : Program.parse lexemes = .ok program) :
    stmtsWellNamed program.body := by
  obtain ⟨hrun, -⟩ := run_of_parse h
  obtain ⟨rest, hreads⟩ := Parse.reads_of_run hrun
  obtain ⟨ts, -, hbody⟩ := hreads.means
  exact hbody.named

theorem exists_parse_of_run
    (h : Parse.run (lexemes.filter fun lexeme => !lexeme.token.isComment) = .ok body) :
    ∃ program, Program.parse lexemes = .ok program ∧ program.body = body := by
  unfold Program.parse
  rw [h]
  exact ⟨_, rfl, rfl⟩

/-- Statements with semicolons between them are read from any lexemes that write them down. -/
theorem exists_parse_of_yields (hnamed : stmtsWellNamed body)
    (hyields : Yields 1 (.statements body) tokens)
    (htokens : ((lexemes.map Lexeme.token).filter fun token => !token.isComment) =
      tokens ++ [endOfFile]) :
    ∃ program, Program.parse lexemes = .ok program ∧ bareStmts program.body = bareStmts body := by
  rw [List.filter_map] at htokens
  obtain ⟨ls, sp, tail, hsplit, hls, htail⟩ := Lexeme.map_token_eq_append_cons htokens
  obtain rfl := List.map_eq_nil_iff.mp htail
  obtain ⟨body', hbody, -, hprogram⟩ := hyields.recovers hnamed hls
  have hrun := Parse.run_of_reads (hprogram sp [])
  rw [← hsplit] at hrun
  obtain ⟨program, hparse, rfl⟩ := exists_parse_of_run hrun
  exact ⟨program, hparse, hbody⟩

/-- An operand, and behind it operators with their right operands. -/
def printChain (l : Level) (first : Expr) (others : List (Connective × Expr)) : List Token :=
  first.print (.operand l) ++
    others.flatMap fun x => symbol x.1.symbol :: x.2.print (.operand l)

/-- The tree of a chain, which leans to the left. -/
def chainTree (first : Expr) (others : List (Connective × Expr)) : Expr :=
  others.foldl (fun left x => x.1.node left x.2 .none) first

theorem yields_chain {l : Level} {first : Expr} {others : List (Connective × Expr)}
    {ts : List Token} (hfirst : Yields 1 (.expr (.level l) first) ts)
    (hothers : ∀ x ∈ others, x.1.level = l ∧ x.2.WellNamed) :
    Yields 1 (.expr (.level l) (chainTree first others))
      (ts ++ others.flatMap fun x => symbol x.1.symbol :: x.2.print (.operand l)) := by
  induction others generalizing first ts with
  | nil =>
    rw [List.flatMap_nil, List.append_nil]
    exact hfirst
  | cons x others ih =>
    obtain ⟨⟨rfl, hx⟩, hmore⟩ := List.forall_mem_cons.mp hothers
    rw [List.flatMap_cons, ← List.append_assoc]
    exact ih (.connective x.1 hfirst (x.2.yields_print hx _)) hmore

theorem chainTree_wellNamed {first : Expr} {others : List (Connective × Expr)}
    (hfirst : first.WellNamed) (hothers : ∀ x ∈ others, x.2.WellNamed) :
    (chainTree first others).WellNamed := by
  induction others generalizing first with
  | nil => exact hfirst
  | cons x others ih =>
    obtain ⟨hx, hmore⟩ := List.forall_mem_cons.mp hothers
    exact ih (x.1.node_wellNamed.mpr ⟨hfirst, hx⟩) hmore

/-- Operators of one level lean to the left, however many there are: a chain of them is read as the
tree in which each operator has all that is before it as its left operand. -/
theorem exists_parse_chain {l : Level} {first : Expr} {others : List (Connective × Expr)}
    (hfirst : first.WellNamed) (hothers : ∀ x ∈ others, x.1.level = l ∧ x.2.WellNamed)
    (plain : opensStatement (printChain l first others) = false)
    (htokens : ((lexemes.map Lexeme.token).filter fun token => !token.isComment) =
      printChain l first others ++ [endOfFile]) :
    ∃ program, Program.parse lexemes = .ok program ∧
      bareStmts program.body = [.expr (chainTree first others).bare] := by
  have hchain : Yields 1 (.expr (.level l) (chainTree first others)) (printChain l first others) :=
    yields_chain (.ofOperand (first.yields_print hfirst _)) hothers
  have hyields := Yields.statementsSome
    (.expressionStatement plain (hchain.loosen (Nat.zero_le _))) .statementsNone (absurd rfl)
  rw [List.append_nil] at hyields
  have hnamed : stmtsWellNamed [.expr (chainTree first others)] :=
    ⟨chainTree_wellNamed hfirst fun x hx => (hothers x hx).2, trivial⟩
  exact exists_parse_of_yields hnamed hyields htokens

end Program

end Script
