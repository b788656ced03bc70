import SqlSelect.Production.Parenthesis

namespace SqlSelect.Rule

variable (ts : TokenList)

/-- The last token of the operator that starts at an index, if one does. -/
def operatorLast (i : Nat) : Except Fault (Option Nat) :=
  if (ts.kind i).isOperator then .ok (some i)
  else if ts.kind i = .not then
    if (ts.kind (i + 1)).isNegatable then .ok (some (i + 1))
    else Fault.expected .operatorAfterNot (i + 1)
  else .ok none

variable (nest : Nest)

/-- A call of a function with one argument. -/
def function : Rule := fun start => do
  if !(ts.kind start).isFunction then Fault.expected .functionName start
  else
    expect ts .leftParen (start + 1)
    let close ← closing ts (start + 1)
    let argument ← fill nest start .expression (start + 2) close .callEnd
    .ok ⟨.function, start, close, [argument]⟩

/-- An expression in parentheses. A lone operand or call inside stands by itself. -/
def enclosedExpression : Rule := fun start => do
  let close ← closing ts start
  let inner ← fill nest start .expression (start + 1) close .expressionEnd
  .ok ⟨.parenthesis, start, close, [inner.collapse [.operand, .function]]⟩

def operand : Rule := fun start =>
  if ts.kind start = .literal then .ok (.leaf .operand start (nameLast ts true start))
  else if (ts.kind start).isAtom then .ok (.leaf .operand start start)
  else if ts.kind start = .leftParen then enclosedExpression ts nest start
  else if (ts.kind start).isFunction then function ts nest start
  else Fault.expected .operand start

/-- An operand with one sign before it at most. -/
def signedOperand : Rule := fun start =>
  if !(ts.kind start).isSign then operand ts nest start
  else if (ts.kind (start + 1)).isSign then .error ⟨.secondSign, start + 1⟩
  else do
    let inner ← operand ts nest (start + 1)
    .ok ⟨.unaryOperator, start, inner.last, [inner]⟩

/-- What `IN` compares with: expressions that fill a parenthesis, one level deeper. -/
def valueList : Rule := fun start => do
  if ts.kind start ≠ .leftParen then Fault.expected .valueList start
  else
    let close ← closing ts start
    let values ← commaList ts (nest start .expression) (start + 1)
    if values.last + 1 = close then .ok ⟨.list, start, close, values.nodes⟩
    else Fault.expected .valueListEnd (values.last + 1)

/-- An operator after the token at `last`, and what stands to the right of it. -/
def operation (last : Nat) : Except Fault (Option Stretch) := do
  match ← operatorLast ts (last + 1) with
  | none => .ok none
  | some e =>
    let right ←
      if ts.kind e = .in then valueList ts nest (e + 1) else signedOperand ts nest (e + 1)
    .ok (some ⟨[.leaf .operator (last + 1) e, right], right.last⟩)

/-- Operands with an operator between every two; no operator binds closer than another. -/
def expression : Rule := fun start => do
  let s ← chain ts.size (signedOperand ts nest) (operation ts nest) start
  .ok ⟨.expression, start, s.last, s.nodes⟩

end SqlSelect.Rule
