import SqlSelect.Numeral.Unsigned
import SqlSelect.Production.Source

namespace SqlSelect.Rule

variable (ts : TokenList)

def columnName : Rule := fun start =>
  if ts.kind start = .literal then .ok (.leaf .columnName start (nameLast ts false start))
  else Fault.expected .columnName start

def direction (last : Nat) : Except Fault (Option Stretch) :=
  if ts.kind (last + 1) = .asc || ts.kind (last + 1) = .desc then
    .ok (some (.ofNode (.leaf .order (last + 1) (last + 1))))
  else .ok none

/-- A column and the direction that may follow it. -/
def orderedColumn : Rule := fun start => do
  let s ← chain 1 (columnName ts) (direction ts) start
  .ok ⟨.field, start, s.last, s.nodes⟩

def columnsClause (keyword : TokenKind) (kind : NodeKind) : Rule := fun start => do
  expect ts keyword start
  let s ← commaList ts (orderedColumn ts) (start + 1)
  .ok ⟨kind, start, s.last, s.nodes⟩

def groupByClause : Rule := columnsClause ts .groupBy .groupBy

def orderByClause : Rule := columnsClause ts .orderBy .orderBy

/-- A number whose text has a value of 64 bits. -/
def limitArgument : Rule := fun i =>
  if ts.kind i = .number && (unsigned? (ts.token i).text).isSome then .ok (.leaf .operand i i)
  else .error ⟨.limitArgument, i⟩

/-- The offset is written after a comma or after `OFFSET`. -/
def offsetArgument (last : Nat) : Except Fault (Option Stretch) :=
  announced ts (fun k => k == .comma || k == .offset) (fun i => limitArgument ts (i + 1)) last

def limitClause : Rule := fun start => do
  expect ts .limit start
  let s ← chain 1 (limitArgument ts) (offsetArgument ts) (start + 1)
  .ok ⟨.limit, start, s.last, s.nodes⟩

variable (nest : Nest)

def conditionClause (keyword : TokenKind) (kind : NodeKind) : Rule := fun start => do
  expect ts keyword start
  let c ← condition ts nest (start + 1)
  .ok ⟨kind, start, c.last, [c]⟩

def whereClause : Rule := conditionClause ts nest .where .where

def havingClause : Rule := conditionClause ts nest .having .having

end SqlSelect.Rule
