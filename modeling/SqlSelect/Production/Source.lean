import SqlSelect.Production.Condition

namespace SqlSelect.Rule

variable (ts : TokenList)

/-- A name given with `AS` or without, after the token at `last`. -/
def aliasAfter (last : Nat) : Except Fault (Option Stretch) :=
  if ts.kind (last + 1) = .as then
    if ts.kind (last + 2) = .literal then
      .ok (some (.ofNode (.leaf .alias (last + 1) (last + 2))))
    else Fault.expected .aliasName (last + 2)
  else if ts.kind (last + 1) = .literal then
    .ok (some (.ofNode (.leaf .alias (last + 1) (last + 1))))
  else .ok none

/-- A node and the name that may follow it. -/
def aliased (rule : Rule) (start : Nat) : Except Fault Stretch := chain 1 rule (aliasAfter ts) start

variable (nest : Nest)

/-- A select query in parentheses. -/
def subquery : Rule := fun start => do
  let close ← closing ts start
  let inner ← fill nest start .selectQuery (start + 1) close .subqueryEnd
  .ok ⟨.source, start, close, [inner]⟩

def source : Rule := fun start =>
  if ts.kind start = .literal then .ok (.leaf .source start (nameLast ts true start))
  else if ts.kind start = .leftParen then subquery ts nest start
  else Fault.expected .source start

def fromClause : Rule := fun start => do
  expect ts .from start
  let s ← aliased ts (source ts nest) (start + 1)
  .ok ⟨.from, start, s.last, s.nodes⟩

/-- The condition of a join, after the token at `last`. -/
def onCondition (last : Nat) : Except Fault (Option Stretch) :=
  announced ts (· == .on) (fun on => condition ts nest (on + 1)) last

def joinClause : Rule := fun start => do
  if !(ts.kind start).isJoin then Fault.expected .join start
  else
    let s ← aliased ts (source ts nest) (start + 1)
    let on ← many (onCondition ts nest) 1 s.last
    .ok ⟨.join, start, on.last, s.nodes ++ on.nodes⟩

end SqlSelect.Rule
