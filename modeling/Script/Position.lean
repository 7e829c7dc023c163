/-!
# Positions and spans

A position counts Unicode scalar values from the start of a source, and says on which line and in
which column it falls.  Only a line feed ends a line: a carriage return is a column like any other.
A span is the stretch between two positions; every token, every node of a syntax tree and every
diagnostic carries one.
-/

namespace Script

/-- A place in a source.  All three counts start at zero. -/
structure Position where
  /-- How many characters come before. -/
  index : Nat
  /-- How many line feeds come before. -/
  line : Nat
  /-- How many characters come before on the same line. -/
  column : Nat
deriving DecidableEq, Repr, Inhabited

namespace Position

/-- The start of a source. -/
def start : Position := ⟨0, 0, 0⟩

/-- The position after the character `c`. -/
def advance (p : Position) (c : Char) : Position :=
  if c = '\n' then ⟨p.index + 1, p.line + 1, 0⟩ else ⟨p.index + 1, p.line, p.column + 1⟩

/-- The position after all of `cs`. -/
def past (p : Position) (cs : List Char) : Position :=
  cs.foldl advance p

/-- Positions order by index, then by line, then by column. -/
def compare (p q : Position) : Ordering :=
  (Ord.compare p.index q.index).then
    ((Ord.compare p.line q.line).then (Ord.compare p.column q.column))

/-- The earlier of two positions, taken whole. -/
def min (p q : Position) : Position :=
  if compare p q = .gt then q else p

/-- The later of two positions, taken whole. -/
def max (p q : Position) : Position :=
  if compare p q = .gt then p else q

/-- Line and column as a reader counts them, from one. -/
def display (p : Position) : String :=
  toString (p.line + 1) ++ ":" ++ toString (p.column + 1)

@[simp] theorem past_nil (p : Position) : p.past [] = p := rfl

@[simp] theorem past_cons (p : Position) (c : Char) (cs : List Char) :
    p.past (c :: cs) = (p.advance c).past cs := rfl

theorem past_append (p : Position) (xs ys : List Char) :
    p.past (xs ++ ys) = (p.past xs).past ys := by
  simp [past, List.foldl_append]

end Position

/-- The stretch of a source from `left` up to `right`, which is not part of it. -/
structure Span where
  left : Position
  right : Position
deriving DecidableEq, Repr, Inhabited

namespace Span

/-- The empty span at the start of a source; it stands in where there is no source to point at. -/
def none : Span := ⟨.start, .start⟩

/-- The least span that covers both. -/
def join (a b : Span) : Span :=
  ⟨a.left.min b.left, a.right.max b.right⟩

end Span

end Script
