import SqlSelect.Options
import SqlSelect.TokenList

namespace SqlSelect

/-- What may not be missing at some place of a query. -/
inductive Expectation where
  | kind (k : TokenKind)
  | queryEnd
  | source
  | subqueryEnd
  | join
  | conditionEnd
  | operand
  | expressionEnd
  | functionName
  | callEnd
  | valueList
  | valueListEnd
  | operatorAfterNot
  | parenthesis
  | columnName
  | aliasName
deriving DecidableEq, Repr

def Expectation.text : Expectation → String
  | .kind k => s!"'{k.spelling}'"
  | .queryEnd => "end of query"
  | .source => "table name or subquery"
  | .subqueryEnd => "')' after the subquery"
  | .join => "JOIN"
  | .conditionEnd => "')' closing the condition"
  | .operand => "an operand"
  | .expressionEnd => "')' closing the expression"
  | .functionName => "function name"
  | .callEnd => "')' closing the function call"
  | .valueList => "'(' after IN"
  | .valueListEnd => "',' or ')' in the IN list"
  | .operatorAfterNot => "LIKE, BETWEEN or IN after NOT"
  | .parenthesis => "'('"
  | .columnName => "column name"
  | .aliasName => "alias name after AS"

/-- What is wrong with a token. -/
inductive Complaint where
  | expected (e : Expectation)
  | missingArm
  | unclosed
  | incomplete (connective : TokenKind)
  | secondSign
  | limitArgument
  | tooDeep
deriving DecidableEq, Repr

/-- A complaint about the token at an index. -/
structure Fault where
  complaint : Complaint
  index : Nat
deriving DecidableEq, Repr

/-- The error that says what is wrong with a token, where parentheses may nest `limit` deep. -/
def Complaint.toError (limit : Nat) (t : Token) : Complaint → ParseError
  | .expected e => .unexpected e.text t
  | .missingArm => .atToken "UNION must be followed by a SELECT query" t
  | .unclosed => .atToken "unmatched parenthesis: '(' is never closed" t
  | .incomplete k =>
    .atToken s!"incomplete condition: expected an expression after {k.spelling}" t
  | .secondSign => .atToken "an operand takes at most one sign" t
  | .limitArgument =>
    .atToken s!"malformed LIMIT argument: expected an unsigned integer, found {t.describe}" t
  | .tooDeep => .tooDeep limit t.position

namespace Fault

def expected {α : Type} (e : Expectation) (i : Nat) : Except Fault α := .error ⟨.expected e, i⟩

def toError (f : Fault) (ts : TokenList) (options : Options) : ParseError :=
  f.complaint.toError options.maxDepth (ts.token f.index)

end Fault

end SqlSelect
