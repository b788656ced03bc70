namespace SqlSelect

/-- What a part of a query is. -/
inductive NodeKind where
  | query | selectQuery | select | «from» | join | «where» | having | groupBy | orderBy | limit
  | condition | expression | operand | operator | unaryOperator | function | alias | source
  | parenthesis | columnName | order | field | list
deriving DecidableEq, Repr

namespace NodeKind

def name : NodeKind → String
  | .query => "Query"
  | .selectQuery => "SelectQuery"
  | .select => "Select"
  | .from => "From"
  | .join => "Join"
  | .where => "Where"
  | .having => "Having"
  | .groupBy => "GroupBy"
  | .orderBy => "OrderBy"
  | .limit => "Limit"
  | .condition => "Condition"
  | .expression => "Expression"
  | .operand => "Operand"
  | .operator => "Operator"
  | .unaryOperator => "UnaryOperator"
  | .function => "Function"
  | .alias => "Alias"
  | .source => "Source"
  | .parenthesis => "Parenthesis"
  | .columnName => "ColumnName"
  | .order => "Order"
  | .field => "Field"
  | .list => "List"

def all : List NodeKind :=
  [.query, .selectQuery, .select, .from, .join, .where, .having, .groupBy, .orderBy, .limit,
   .condition, .expression, .operand, .operator, .unaryOperator, .function, .alias, .source,
   .parenthesis, .columnName, .order, .field, .list]

/-- Names are read with their exact letter case. -/
def ofName? (s : String) : Option NodeKind := all.find? (·.name == s)

theorem ofName?_name (k : NodeKind) : ofName? k.name = some k := by
  cases k <;> decide +kernel

end NodeKind

end SqlSelect
