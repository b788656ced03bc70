import SqlSelect.Production.Query

namespace SqlSelect

/-- The parts of the grammar that can be parsed by themselves, from any index. -/
inductive Production where
  | query | selectQuery | select | field | «from» | source | join | «where» | having
  | condition | expression | function | parenthesis | groupBy | orderBy | limit
deriving DecidableEq, Repr

namespace Production

def name : Production → String
  | .query => "query"
  | .selectQuery => "select_query"
  | .select => "select"
  | .field => "field"
  | .from => "from"
  | .source => "source"
  | .join => "join"
  | .where => "where"
  | .having => "having"
  | .condition => "condition"
  | .expression => "expression"
  | .function => "function"
  | .parenthesis => "parenthesis"
  | .groupBy => "group_by"
  | .orderBy => "order_by"
  | .limit => "limit"

def all : List Production :=
  [.query, .selectQuery, .select, .field, .from, .source, .join, .where, .having, .condition,
   .expression, .function, .parenthesis, .groupBy, .orderBy, .limit]

def ofName? (s : String) : Option Production := all.find? (·.name == s)

def rule (ts : TokenList) (nest : Nest) : Production → Rule
  | .query => Rule.query ts nest
  | .selectQuery => Rule.selectQuery ts nest
  | .select => Rule.selectClause ts nest
  | .field => Rule.field ts nest
  | .from => Rule.fromClause ts nest
  | .source => Rule.source ts nest
  | .join => Rule.joinClause ts nest
  | .where => Rule.whereClause ts nest
  | .having => Rule.havingClause ts nest
  | .condition => Rule.condition ts nest
  | .expression => Rule.expression ts nest
  | .function => Rule.function ts nest
  | .parenthesis => Rule.parenthesis ts
  | .groupBy => Rule.groupByClause ts
  | .orderBy => Rule.orderByClause ts
  | .limit => Rule.limitClause ts

end Production

def Enclosed.production : Enclosed → Production
  | .selectQuery => .selectQuery
  | .condition => .condition
  | .expression => .expression

/-- Parses inside a parenthesis that may have `depth - 1` levels of parentheses within it, and
not at all if `depth` is zero. -/
def nested (ts : TokenList) : (depth : Nat) → Nest
  | 0 => fun blame _ _ => .error ⟨.tooDeep, blame⟩
  | depth + 1 => fun _ e start => e.production.rule ts (nested ts depth) start

/-- Parses with no more than `depth` levels of parentheses. -/
def Production.run (p : Production) (ts : TokenList) (depth : Nat) : Rule :=
  p.rule ts (nested ts depth)

end SqlSelect
