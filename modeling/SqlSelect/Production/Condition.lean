import SqlSelect.Production.Expression

namespace SqlSelect.Rule

variable (ts : TokenList) (nest : Nest)

/-- A condition in parentheses that end at `close`. One that is a lone expression stands for
that expression, and the term still ends at the parenthesis. -/
def enclosedCondition (start close : Nat) : Except Fault Stretch := do
  let inner ← fill nest start .condition (start + 1) close .conditionEnd
  .ok ⟨[inner.collapse [.expression]], close⟩

def plainTerm (start : Nat) : Except Fault Stretch := do
  let e ← expression ts nest start
  .ok (.ofNode e)

/-- One term of a condition: what begins with a parenthesis is a condition of its own, unless an
operator after the parenthesis shows it to be an operand. -/
def term (start : Nat) : Except Fault Stretch := do
  if ts.kind start = .leftParen then
    let close ← closing ts start
    match ← operatorLast ts (close + 1) with
    | none => enclosedCondition nest start close
    | some _ => plainTerm ts nest start
  else plainTerm ts nest start

/-- A connective after the token at `last`, and its right-hand term. -/
def connected (last : Nat) : Except Fault (Option Stretch) := do
  if !(ts.kind (last + 1)).isConnective then .ok none
  else if !(ts.kind (last + 2)).beginsExpression then
    .error ⟨.incomplete (ts.kind (last + 1)), last + 2⟩
  else
    let right ← term ts nest (last + 2)
    .ok (some ⟨.leaf .operator (last + 1) (last + 1) :: right.nodes, right.last⟩)

/-- Terms with `AND` or `OR` between every two; neither binds closer than the other. -/
def condition : Rule := fun start => do
  let first ← term ts nest start
  let more ← many (connected ts nest) ts.size first.last
  .ok ⟨.condition, start, more.last, first.nodes ++ more.nodes⟩

end SqlSelect.Rule
