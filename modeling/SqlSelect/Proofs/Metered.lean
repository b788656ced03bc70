import SqlSelect.Parser

namespace SqlSelect

/-- What stops a parse whose calls and loops are watched: a fault of the tokens, calls that nest
deeper than the budget, a call that goes neither forward nor down, or a turn of a loop that does
not go forward. -/
inductive Stop where
  | fault (f : Fault)
  | overrun
  | astray
  | stalled
deriving DecidableEq, Repr

/-- The parser as routines that call one another: a call is charged to a budget and must go forward
among the tokens or down the ranks, and a loop has no bound but must go forward with each turn. -/
abbrev Metered := Except Stop

/-- What calls and is called: the parts of the grammar that can be parsed by themselves, and those
that are within them. -/
inductive Routine where
  | part (p : Production)
  | term
  | signedOperand
  | operand
  | valueList
  | orderedColumn
deriving DecidableEq, Repr

namespace Routine

/-- Without going into a parenthesis, a routine calls only those of a lower rank. -/
def rank : Routine → Nat
  | .part .parenthesis | .part .limit | .orderedColumn => 0
  | .part .groupBy | .part .orderBy | .part .function | .part .source | .valueList => 1
  | .operand | .part .from => 2
  | .signedOperand => 3
  | .part .expression => 4
  | .part .field | .term => 5
  | .part .select | .part .condition => 6
  | .part .where | .part .having | .part .join => 7
  | .part .selectQuery => 8
  | .part .query => 9

/-- The number of ranks. -/
def ranks : Nat := 10

theorem rank_lt_ranks (r : Routine) : r.rank < ranks := by
  cases r with
  | part p => cases p <;> decide
  | _ => decide

end Routine

namespace Metered

abbrev Rule := Nat → Metered Stretch

abbrev Step := Nat → Metered (Option Stretch)

/-- How a routine calls others, from an index on: as deep as it is itself, or inside a parenthesis,
where the first index is of the token to complain about if that is too deep. -/
structure Calls where
  same : Routine → Rule
  inside : Nat → Enclosed → Rule

/-- What is found without a watch, in the form in which it is wanted. -/
def carry {α β : Type} (form : α → β) : Except Fault α → Metered β
  | .ok a => .ok (form a)
  | .error f => .error (.fault f)

/-- What makes no call and has no loop is taken as it is. -/
abbrev lift {α : Type} (x : Except Fault α) : Metered α := carry (fun a => a) x

abbrev wrap (x : Except Fault Node) : Metered Stretch := carry .ofNode x

def expected {α : Type} (e : Expectation) (i : Nat) : Metered α := lift (Fault.expected e i)

def once (step : Step) (last : Nat) : Metered Stretch := do
  match ← step last with
  | none => .ok ⟨[], last⟩
  | some s => .ok s

variable (ts : TokenList)

/-- Repeats a step for as long as it goes forward and stays among the tokens. -/
def loop (step : Step) (last : Nat) : Metered Stretch := do
  match ← step last with
  | none => .ok ⟨[], last⟩
  | some s =>
    if last < s.last ∧ s.last < ts.size then
      let more ← loop step s.last
      .ok ⟨s.nodes ++ more.nodes, more.last⟩
    else .error .stalled
termination_by ts.size - last

def node (kind : NodeKind) (start : Nat) (s : Stretch) : Metered Stretch :=
  .ok (.ofNode ⟨kind, start, s.last, s.nodes⟩)

def leaf (kind : NodeKind) (first last : Nat) : Metered Stretch :=
  .ok (.ofNode (.leaf kind first last))

/-- What a rule finds, and what comes after it. -/
def followed (first : Rule) (more : Rule) (start : Nat) : Metered Stretch := do
  let head ← first start
  let more ← more head.last
  .ok ⟨head.nodes ++ more.nodes, more.last⟩

def announced (p : TokenKind → Bool) (rule : Rule) : Step := fun last =>
  if p (ts.kind (last + 1)) then do
    let s ← rule (last + 1)
    .ok (some s)
  else .ok none

def commaList (item : Rule) : Rule :=
  followed item (loop ts (announced ts (· == .comma) fun comma => item (comma + 1)))

def aliased (rule : Rule) : Rule := followed rule (once fun last => lift (Rule.aliasAfter ts last))

variable (calls : Calls)

/-- The closing parenthesis is known by a node that is given up. -/
def closing (start : Nat) : Metered Nat := do
  .ok (← calls.same (.part .parenthesis) start).last

def fill (blame : Nat) (e : Enclosed) (start close : Nat) (x : Expectation) : Metered Stretch := do
  let inner ← calls.inside blame e start
  if inner.last + 1 = close then .ok inner else expected x (inner.last + 1)

def function : Rule := fun start => do
  if !(ts.kind start).isFunction then expected .functionName start
  else
    lift (expect ts .leftParen (start + 1))
    let close ← closing calls (start + 1)
    let argument ← fill calls start .expression (start + 2) close .callEnd
    node .function start ⟨argument.nodes, close⟩

def enclosedExpression : Rule := fun start => do
  let close ← closing calls start
  let inner ← fill calls start .expression (start + 1) close .expressionEnd
  node .parenthesis start ⟨inner.nodes.map (·.collapse [.operand, .function]), close⟩

def operand : Rule := fun start =>
  if ts.kind start = .literal then leaf .operand start (nameLast ts true start)
  else if (ts.kind start).isAtom then leaf .operand start start
  else if ts.kind start = .leftParen then enclosedExpression calls start
  else if (ts.kind start).isFunction then calls.same (.part .function) start
  else expected .operand start

def signedOperand : Rule := fun start =>
  if !(ts.kind start).isSign then calls.same .operand start
  else if (ts.kind (start + 1)).isSign then lift (.error ⟨.secondSign, start + 1⟩)
  else do
    let inner ← calls.same .operand (start + 1)
    node .unaryOperator start inner

def valueList : Rule := fun start => do
  if ts.kind start ≠ .leftParen then expected .valueList start
  else
    let close ← closing calls start
    let values ← commaList ts (calls.inside start .expression) (start + 1)
    if values.last + 1 = close then node .list start ⟨values.nodes, close⟩
    else expected .valueListEnd (values.last + 1)

def operation : Step := fun last => do
  match ← lift (Rule.operatorLast ts (last + 1)) with
  | none => .ok none
  | some e =>
    let right ←
      if ts.kind e = .in then calls.same .valueList (e + 1)
      else calls.same .signedOperand (e + 1)
    .ok (some ⟨.leaf .operator (last + 1) e :: right.nodes, right.last⟩)

def expression : Rule := fun start => do
  let s ← followed (calls.same .signedOperand) (loop ts (operation ts calls)) start
  node .expression start s

def enclosedCondition (start close : Nat) : Metered Stretch := do
  let inner ← fill calls start .condition (start + 1) close .conditionEnd
  .ok ⟨inner.nodes.map (·.collapse [.expression]), close⟩

def term : Rule := fun start => do
  if ts.kind start = .leftParen then
    let close ← closing calls start
    match ← lift (Rule.operatorLast ts (close + 1)) with
    | none => enclosedCondition calls start close
    | some _ => calls.same (.part .expression) start
  else calls.same (.part .expression) start

def connected : Step := fun last => do
  if !(ts.kind (last + 1)).isConnective then .ok none
  else if !(ts.kind (last + 2)).beginsExpression then
    lift (.error ⟨.incomplete (ts.kind (last + 1)), last + 2⟩)
  else
    let right ← calls.same .term (last + 2)
    .ok (some ⟨.leaf .operator (last + 1) (last + 1) :: right.nodes, right.last⟩)

def condition : Rule := fun start => do
  let first ← calls.same .term start
  let more ← loop ts (connected ts calls) first.last
  node .condition start ⟨first.nodes ++ more.nodes, more.last⟩

def conditionClause (keyword : TokenKind) (kind : NodeKind) : Rule := fun start => do
  lift (expect ts keyword start)
  let c ← calls.same (.part .condition) (start + 1)
  node kind start c

def subquery : Rule := fun start => do
  let close ← closing calls start
  let inner ← fill calls start .selectQuery (start + 1) close .subqueryEnd
  node .source start ⟨inner.nodes, close⟩

def source : Rule := fun start =>
  if ts.kind start = .literal then leaf .source start (nameLast ts true start)
  else if ts.kind start = .leftParen then subquery calls start
  else expected .source start

def fromClause : Rule := fun start => do
  lift (expect ts .from start)
  let s ← aliased ts (calls.same (.part .source)) (start + 1)
  node .from start s

def joinClause : Rule := fun start => do
  if !(ts.kind start).isJoin then expected .join start
  else
    let s ← aliased ts (calls.same (.part .source)) (start + 1)
    let on ← once (announced ts (· == .on) fun on => calls.same (.part .condition) (on + 1)) s.last
    node .join start ⟨s.nodes ++ on.nodes, on.last⟩

def orderedColumn : Rule := fun start => do
  let s ← followed (fun i => wrap (Rule.columnName ts i))
    (once fun last => lift (Rule.direction ts last)) start
  node .field start s

def columnsClause (keyword : TokenKind) (kind : NodeKind) : Rule := fun start => do
  lift (expect ts keyword start)
  let s ← commaList ts (calls.same .orderedColumn) (start + 1)
  node kind start s

def limitClause : Rule := fun start => do
  lift (expect ts .limit start)
  let s ← followed (fun i => wrap (Rule.limitArgument ts i))
    (once fun last => lift (Rule.offsetArgument ts last)) (start + 1)
  node .limit start s

def field : Rule := fun start => do
  let s ← aliased ts (calls.same (.part .expression)) start
  node .field start s

def selectClause : Rule := fun start => do
  lift (expect ts .select start)
  let s ← commaList ts (calls.same (.part .field)) (start + 1)
  node .select start s

def clauses : List (TokenKind × Production) → Rule
  | [], last => .ok ⟨[], last⟩
  | (keyword, part) :: rest, last =>
    followed (once (announced ts (· == keyword) (calls.same (.part part)))) (clauses rest) last

def optionalClauses : List (TokenKind × Production) :=
  [(.where, .where), (.groupBy, .groupBy), (.having, .having), (.orderBy, .orderBy),
   (.limit, .limit)]

def selectQuery : Rule := fun start => do
  let select ← calls.same (.part .select) start
  let source ← calls.same (.part .from) (select.last + 1)
  let joins ← loop ts (announced ts TokenKind.isJoin (calls.same (.part .join))) source.last
  let rest ← clauses ts calls optionalClauses joins.last
  node .selectQuery start ⟨select.nodes ++ source.nodes ++ joins.nodes ++ rest.nodes, rest.last⟩

def arm : Rule := fun union =>
  if ts.kind (union + 1) = .eof then lift (.error ⟨.missingArm, union + 1⟩)
  else calls.same (.part .selectQuery) (union + 1)

def query : Rule := fun start => do
  let s ← followed (calls.same (.part .selectQuery))
    (loop ts (announced ts (· == .union) (arm ts calls))) start
  node .query start s

/-- What a routine does, with the calls that it makes. -/
def body : Routine → Rule
  | .part .query => query ts calls
  | .part .selectQuery => selectQuery ts calls
  | .part .select => selectClause ts calls
  | .part .field => field ts calls
  | .part .from => fromClause ts calls
  | .part .source => source ts calls
  | .part .join => joinClause ts calls
  | .part .where => conditionClause ts calls .where .where
  | .part .having => conditionClause ts calls .having .having
  | .part .condition => condition ts calls
  | .part .expression => expression ts calls
  | .part .function => function ts calls
  | .part .parenthesis => fun start => wrap (Rule.parenthesis ts start)
  | .part .groupBy => columnsClause ts calls .groupBy .groupBy
  | .part .orderBy => columnsClause ts calls .orderBy .orderBy
  | .part .limit => limitClause ts
  | .term => term ts calls
  | .signedOperand => signedOperand ts calls
  | .operand => operand ts calls
  | .valueList => valueList ts calls
  | .orderedColumn => orderedColumn ts

/-- Runs a routine `depth` levels of parentheses deep, of at most `limit`. The budget says how deep
calls may nest, whether or not they go into a parenthesis. -/
def run (limit : Nat) : (budget depth : Nat) → Routine → Rule
  | 0, _, _, _ => .error .overrun
  | budget + 1, depth, r, i =>
    let call (depth : Nat) (r' : Routine) (j : Nat) : Metered Stretch :=
      if i < j ∨ j = i ∧ r'.rank < r.rank then run limit budget depth r' j else .error .astray
    let inside (blame : Nat) (e : Enclosed) (j : Nat) : Metered Stretch :=
      if limit ≤ depth then .error (.fault ⟨.tooDeep, blame⟩)
      else call (depth + 1) (.part e.production) j
    body ts ⟨call depth, inside⟩ r i

end Metered

end SqlSelect
