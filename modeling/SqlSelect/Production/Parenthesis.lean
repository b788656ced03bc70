import SqlSelect.Production.Rule

namespace SqlSelect

/-- What a parenthesis can enclose. -/
inductive Enclosed where
  | selectQuery
  | condition
  | expression
deriving DecidableEq, Repr

/-- Parses inside a parenthesis, if the nesting allows one more; the first index is of the token
to complain about if it does not. -/
abbrev Nest := Nat → Enclosed → Rule

variable (ts : TokenList)

/-- Goes on from index `i` to the parenthesis that closes the outermost open one. Those that are
open are `inner` and, from the inside, `outer`; `bound` is the number of tokens left to look at. -/
def closeFrom : (bound i inner : Nat) → (outer : List Nat) → Except Fault Nat
  | 0, _, inner, _ => .error ⟨.unclosed, inner⟩
  | bound + 1, i, inner, outer =>
    match ts.kind i with
    | .leftParen => closeFrom bound (i + 1) i (inner :: outer)
    | .rightParen =>
      match outer with
      | [] => .ok i
      | next :: outer => closeFrom bound (i + 1) next outer
    | .eof => .error ⟨.unclosed, inner⟩
    | _ => closeFrom bound (i + 1) inner outer

/-- The index of the parenthesis that closes the one at an index. -/
def closing (start : Nat) : Except Fault Nat :=
  if ts.kind start = .leftParen then closeFrom ts (ts.size - start) (start + 1) start []
  else Fault.expected .parenthesis start

def Rule.parenthesis : Rule := fun start => do
  let close ← closing ts start
  .ok (.leaf .parenthesis start close)

/-- What must fill a parenthesis whose inside begins at `start`. -/
def fill (nest : Nest) (blame : Nat) (e : Enclosed) (start close : Nat) (x : Expectation) :
    Except Fault Node := do
  let inner ← nest blame e start
  if inner.last + 1 = close then .ok inner else Fault.expected x (inner.last + 1)

end SqlSelect
