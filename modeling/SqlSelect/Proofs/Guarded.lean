import SqlSelect.Parser

namespace SqlSelect

/-- What stops a parse that checks each index before it uses it: a fault of the tokens, or an index
that is out of place. -/
inductive Halt where
  | fault (f : Fault)
  | misplaced
deriving DecidableEq, Repr

/-- The parser with all its arithmetic and all its reading of tokens spelt out and checked. Only an
index of a token may be added to, only a token that is there may be read, and a node, kept or not,
must cover tokens that are there and no end of input. -/
abbrev Guarded := Except Halt

namespace Guarded

abbrev Rule := Nat → Guarded Node

abbrev Step := Nat → Guarded (Option Stretch)

abbrev Nest := Nat → Enclosed → Rule

def many (step : Step) : Nat → Nat → Guarded Stretch
  | 0, last => .ok ⟨[], last⟩
  | bound + 1, last => do
    match ← step last with
    | none => .ok ⟨[], last⟩
    | some s =>
      let more ← many step bound s.last
      .ok ⟨s.nodes ++ more.nodes, more.last⟩

def chain (bound : Nat) (first : Rule) (step : Step) (start : Nat) : Guarded Stretch := do
  let head ← first start
  let more ← many step bound head.last
  .ok ⟨head :: more.nodes, more.last⟩

variable (ts : TokenList)

/-- The index `n` after another. -/
def ahead (i n : Nat) : Guarded Nat := if i < ts.size then .ok (i + n) else .error .misplaced

/-- The token at an index, or the last token where the index is beyond that. -/
def token (i : Nat) : Guarded Token :=
  match ts.toList[min i (ts.size - 1)]? with
  | some t => .ok t
  | none => .error .misplaced

def kind (i : Nat) : Guarded TokenKind := do
  .ok (← token ts i).kind

def node (kind : NodeKind) (first last : Nat) (children : List Node) : Guarded Node :=
  if first ≤ last ∧ last < ts.size ∧ ∀ t ∈ ts.span first last, t.isEof = false then
    .ok ⟨kind, first, last, children⟩
  else .error .misplaced

def leaf (kind : NodeKind) (first last : Nat) : Guarded Node := node ts kind first last []

/-- A complaint describes the token that it is about. -/
def complain {α : Type} (c : Complaint) (i : Nat) : Guarded α := do
  let _ ← token ts i
  .error (.fault ⟨c, i⟩)

def expected {α : Type} (e : Expectation) (i : Nat) : Guarded α := complain ts (.expected e) i

def expect (k : TokenKind) (i : Nat) : Guarded Unit := do
  if (← kind ts i) = k then .ok () else expected ts (.kind k) i

def announced (p : TokenKind → Bool) (rule : Rule) : Step := fun last => do
  let i ← ahead ts last 1
  if p (← kind ts i) then do
    let n ← rule i
    .ok (some (.ofNode n))
  else .ok none

/-- What comes after a token that announces it. -/
def after (rule : Rule) : Rule := fun i => do
  rule (← ahead ts i 1)

def commaList (item : Rule) (start : Nat) : Guarded Stretch :=
  chain ts.size item (announced ts (· == .comma) (after ts item)) start

def nameLast (star : Bool) (start : Nat) : Guarded Nat := do
  let member ← ahead ts start 2
  let k ← kind ts member
  let dot ← ahead ts start 1
  if (← kind ts dot) = .dot && (k = .literal || star && k = .star) then .ok member else .ok start

def closeFrom : (bound i inner : Nat) → (outer : List Nat) → Guarded Nat
  | 0, _, inner, _ => complain ts .unclosed inner
  | bound + 1, i, inner, outer => do
    match ← kind ts i with
    | .leftParen => closeFrom bound (← ahead ts i 1) i (inner :: outer)
    | .rightParen =>
      match outer with
      | [] => .ok i
      | next :: outer => closeFrom bound (← ahead ts i 1) next outer
    | .eof => complain ts .unclosed inner
    | _ => closeFrom bound (← ahead ts i 1) inner outer

def parenthesis : Rule := fun start => do
  if (← kind ts start) = .leftParen then
    let close ← closeFrom ts (ts.size - start) (← ahead ts start 1) start []
    leaf ts .parenthesis start close
  else expected ts .parenthesis start

/-- The closing parenthesis is known by a node that is given up. -/
def closing (start : Nat) : Guarded Nat := do
  .ok (← parenthesis ts start).last

def fill (nest : Nest) (blame : Nat) (e : Enclosed) (start close : Nat) (x : Expectation) :
    Guarded Node := do
  let inner ← nest blame e start
  let next ← ahead ts inner.last 1
  if next = close then .ok inner else expected ts x next

def operatorLast (i : Nat) : Guarded (Option Nat) := do
  let k ← kind ts i
  if k.isOperator then .ok (some i)
  else if k = .not then
    let next ← ahead ts i 1
    if (← kind ts next).isNegatable then .ok (some next)
    else expected ts .operatorAfterNot next
  else .ok none

variable (nest : Nest)

def function : Rule := fun start => do
  if !(← kind ts start).isFunction then expected ts .functionName start
  else
    let parenthesis ← ahead ts start 1
    expect ts .leftParen parenthesis
    let close ← closing ts parenthesis
    let argument ← fill ts nest start .expression (← ahead ts start 2) close .callEnd
    node ts .function start close [argument]

def enclosedExpression : Rule := fun start => do
  let close ← closing ts start
  let inner ← fill ts nest start .expression (← ahead ts start 1) close .expressionEnd
  node ts .parenthesis start close [inner.collapse [.operand, .function]]

def operand : Rule := fun start => do
  let k ← kind ts start
  if k = .literal then leaf ts .operand start (← nameLast ts true start)
  else if k.isAtom then leaf ts .operand start start
  else if k = .leftParen then enclosedExpression ts nest start
  else if k.isFunction then function ts nest start
  else expected ts .operand start

def signedOperand : Rule := fun start => do
  if !(← kind ts start).isSign then operand ts nest start
  else
    let next ← ahead ts start 1
    if (← kind ts next).isSign then complain ts .secondSign next
    else
      let inner ← operand ts nest next
      node ts .unaryOperator start inner.last [inner]

def valueList : Rule := fun start => do
  if (← kind ts start) ≠ .leftParen then expected ts .valueList start
  else
    let close ← closing ts start
    let values ← commaList ts (nest start .expression) (← ahead ts start 1)
    let next ← ahead ts values.last 1
    if next = close then node ts .list start close values.nodes
    else expected ts .valueListEnd next

def operation : Step := fun last => do
  let i ← ahead ts last 1
  match ← operatorLast ts i with
  | none => .ok none
  | some e =>
    let operator ← leaf ts .operator i e
    let k ← kind ts e
    let next ← ahead ts e 1
    let right ← if k = .in then valueList ts nest next else signedOperand ts nest next
    .ok (some ⟨[operator, right], right.last⟩)

def expression : Rule := fun start => do
  let s ← chain ts.size (signedOperand ts nest) (operation ts nest) start
  node ts .expression start s.last s.nodes

def enclosedCondition (start close : Nat) : Guarded Stretch := do
  let inner ← fill ts nest start .condition (← ahead ts start 1) close .conditionEnd
  .ok ⟨[inner.collapse [.expression]], close⟩

def plainTerm (start : Nat) : Guarded Stretch := do
  let e ← expression ts nest start
  .ok (.ofNode e)

def term (start : Nat) : Guarded Stretch := do
  if (← kind ts start) = .leftParen then
    let close ← closing ts start
    match ← operatorLast ts (← ahead ts close 1) with
    | none => enclosedCondition ts nest start close
    | some _ => plainTerm ts nest start
  else plainTerm ts nest start

def connected : Step := fun last => do
  let connective ← ahead ts last 1
  let k ← kind ts connective
  if !k.isConnective then .ok none
  else
    let next ← ahead ts connective 1
    if !(← kind ts next).beginsExpression then complain ts (.incomplete k) next
    else
      let operator ← leaf ts .operator connective connective
      let right ← term ts nest next
      .ok (some ⟨operator :: right.nodes, right.last⟩)

def condition : Rule := fun start => do
  let first ← term ts nest start
  let more ← many (connected ts nest) ts.size first.last
  node ts .condition start more.last (first.nodes ++ more.nodes)

def conditionClause (keyword : TokenKind) (kind : NodeKind) : Rule := fun start => do
  expect ts keyword start
  let c ← condition ts nest (← ahead ts start 1)
  node ts kind start c.last [c]

def aliasAfter : Step := fun last => do
  let i ← ahead ts last 1
  let k ← kind ts i
  if k = .as then
    let name ← ahead ts i 1
    if (← kind ts name) = .literal then
      let n ← leaf ts .alias i name
      .ok (some (.ofNode n))
    else expected ts .aliasName name
  else if k = .literal then
    let n ← leaf ts .alias i i
    .ok (some (.ofNode n))
  else .ok none

def aliased (rule : Rule) (start : Nat) : Guarded Stretch := chain 1 rule (aliasAfter ts) start

def subquery : Rule := fun start => do
  let close ← closing ts start
  let inner ← fill ts nest start .selectQuery (← ahead ts start 1) close .subqueryEnd
  node ts .source start close [inner]

def source : Rule := fun start => do
  let k ← kind ts start
  if k = .literal then leaf ts .source start (← nameLast ts true start)
  else if k = .leftParen then subquery ts nest start
  else expected ts .source start

def fromClause : Rule := fun start => do
  expect ts .from start
  let s ← aliased ts (source ts nest) (← ahead ts start 1)
  node ts .from start s.last s.nodes

def joinClause : Rule := fun start => do
  if !(← kind ts start).isJoin then expected ts .join start
  else
    let s ← aliased ts (source ts nest) (← ahead ts start 1)
    let on ← many (announced ts (· == .on) (after ts (condition ts nest))) 1 s.last
    node ts .join start on.last (s.nodes ++ on.nodes)

def columnName : Rule := fun start => do
  if (← kind ts start) = .literal then leaf ts .columnName start (← nameLast ts false start)
  else expected ts .columnName start

def direction : Step := fun last => do
  let i ← ahead ts last 1
  let k ← kind ts i
  if k = .asc || k = .desc then
    let n ← leaf ts .order i i
    .ok (some (.ofNode n))
  else .ok none

def orderedColumn : Rule := fun start => do
  let s ← chain 1 (columnName ts) (direction ts) start
  node ts .field start s.last s.nodes

def columnsClause (keyword : TokenKind) (kind : NodeKind) : Rule := fun start => do
  expect ts keyword start
  let s ← commaList ts (orderedColumn ts) (← ahead ts start 1)
  node ts kind start s.last s.nodes

def limitArgument : Rule := fun i => do
  let t ← token ts i
  if t.kind = .number && (unsigned? t.text).isSome then leaf ts .operand i i
  else complain ts .limitArgument i

def limitClause : Rule := fun start => do
  expect ts .limit start
  let offset := announced ts (fun k => k == .comma || k == .offset) (after ts (limitArgument ts))
  let s ← chain 1 (limitArgument ts) offset (← ahead ts start 1)
  node ts .limit start s.last s.nodes

def field : Rule := fun start => do
  let s ← aliased ts (expression ts nest) start
  node ts .field start s.last s.nodes

def selectClause : Rule := fun start => do
  expect ts .select start
  let s ← commaList ts (field ts nest) (← ahead ts start 1)
  node ts .select start s.last s.nodes

def clauses : List (TokenKind × Rule) → Nat → Guarded Stretch
  | [], last => .ok ⟨[], last⟩
  | (keyword, rule) :: rest, last => do
    let s ← many (announced ts (· == keyword) rule) 1 last
    let more ← clauses rest s.last
    .ok ⟨s.nodes ++ more.nodes, more.last⟩

def optionalClauses : List (TokenKind × Rule) :=
  [(.where, conditionClause ts nest .where .where), (.groupBy, columnsClause ts .groupBy .groupBy),
   (.having, conditionClause ts nest .having .having),
   (.orderBy, columnsClause ts .orderBy .orderBy), (.limit, limitClause ts)]

def selectQuery : Rule := fun start => do
  let select ← selectClause ts nest start
  let source ← fromClause ts nest (← ahead ts select.last 1)
  let joins ← many (announced ts TokenKind.isJoin (joinClause ts nest)) ts.size source.last
  let rest ← clauses ts (optionalClauses ts nest) joins.last
  node ts .selectQuery start rest.last (select :: source :: joins.nodes ++ rest.nodes)

def arm : Rule := fun union => do
  let next ← ahead ts union 1
  if (← kind ts next) = .eof then complain ts .missingArm next else selectQuery ts nest next

def query : Rule := fun start => do
  let s ← chain ts.size (selectQuery ts nest) (announced ts (· == .union) (arm ts nest)) start
  node ts .query start s.last s.nodes

def rule : Production → Rule
  | .query => query ts nest
  | .selectQuery => selectQuery ts nest
  | .select => selectClause ts nest
  | .field => field ts nest
  | .from => fromClause ts nest
  | .source => source ts nest
  | .join => joinClause ts nest
  | .where => conditionClause ts nest .where .where
  | .having => conditionClause ts nest .having .having
  | .condition => condition ts nest
  | .expression => expression ts nest
  | .function => function ts nest
  | .parenthesis => parenthesis ts
  | .groupBy => columnsClause ts .groupBy .groupBy
  | .orderBy => columnsClause ts .orderBy .orderBy
  | .limit => limitClause ts

def nested : (depth : Nat) → Nest
  | 0 => fun blame _ _ => complain ts .tooDeep blame
  | depth + 1 => fun _ e start => rule ts (nested depth) e.production start

/-- Parses one part of the grammar with every index checked. -/
def run (part : Production) (depth : Nat) : Rule := rule ts (nested ts depth) part

def queryEnd (last : Nat) : Guarded Nat := do
  let next ← ahead ts last 1
  if (← kind ts next) = .semicolon then ahead ts next 1 else .ok next

/-- Parses a whole query with every index checked. -/
def complete (options : Options) : Guarded Node := do
  let query ← run ts .query options.maxDepth 0
  let next ← queryEnd ts query.last
  if options.allowTrailingInput || (← kind ts next) = .eof then .ok query
  else expected ts .queryEnd next

end Guarded

end SqlSelect
