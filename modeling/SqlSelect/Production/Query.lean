import SqlSelect.Production.Clause

namespace SqlSelect.Rule

variable (ts : TokenList) (nest : Nest)

/-- One entry of a select list. -/
def field : Rule := fun start => do
  let s ← aliased ts (expression ts nest) start
  .ok ⟨.field, start, s.last, s.nodes⟩

def selectClause : Rule := fun start => do
  expect ts .select start
  let s ← commaList ts (field ts nest) (start + 1)
  .ok ⟨.select, start, s.last, s.nodes⟩

/-- The clauses that are there, of those that may follow one another from the token after `last`
on, each after its keyword. -/
def clauses : List (TokenKind × Rule) → Nat → Except Fault Stretch
  | [], last => .ok ⟨[], last⟩
  | (keyword, rule) :: rest, last => do
    let s ← many (announced ts (· == keyword) rule) 1 last
    let more ← clauses rest s.last
    .ok ⟨s.nodes ++ more.nodes, more.last⟩

def optionalClauses : List (TokenKind × Rule) :=
  [(.where, whereClause ts nest), (.groupBy, groupByClause ts), (.having, havingClause ts nest),
   (.orderBy, orderByClause ts), (.limit, limitClause ts)]

def selectQuery : Rule := fun start => do
  let select ← selectClause ts nest start
  let source ← fromClause ts nest (select.last + 1)
  let joins ← many (announced ts TokenKind.isJoin (joinClause ts nest)) ts.size source.last
  let rest ← clauses ts (optionalClauses ts nest) joins.last
  .ok ⟨.selectQuery, start, rest.last, select :: source :: joins.nodes ++ rest.nodes⟩

/-- A select query after `UNION`, which the end of input may not follow. -/
def arm : Rule := fun union =>
  if ts.kind (union + 1) = .eof then .error ⟨.missingArm, union + 1⟩
  else selectQuery ts nest (union + 1)

/-- Select queries with `UNION` between every two. -/
def query : Rule := fun start => do
  let s ← chain ts.size (selectQuery ts nest) (announced ts (· == .union) (arm ts nest)) start
  .ok ⟨.query, start, s.last, s.nodes⟩

end SqlSelect.Rule
