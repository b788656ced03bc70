namespace SqlSelect

/-- What a token is. A function name is a kind only where a call begins. -/
inductive TokenKind where
  | equal | notEqual | greater | greaterEqual | less | lessEqual
  | question | percent | star | plus | minus | slash
  | dot | leftParen | rightParen | comma | semicolon
  | number | string | literal | parameter
  | select | «from» | «where» | groupBy | orderBy | having | union
  | join | innerJoin | outerJoin | leftJoin | rightJoin | on
  | limit | offset | as | and | or | not | asc | desc | between | like | «in»
  | create | table | view | drop
  | sum | min | max | avg | count | greatest
  | eof | error
deriving DecidableEq, Repr

namespace TokenKind

/-- The wording of a kind in messages: its SQL spelling, or what it is where it has none. -/
def spelling : TokenKind → String
  | .equal => "="
  | .notEqual => "<>"
  | .greater => ">"
  | .greaterEqual => ">="
  | .less => "<"
  | .lessEqual => "<="
  | .question => "?"
  | .percent => "%"
  | .star => "*"
  | .plus => "+"
  | .minus => "-"
  | .slash => "/"
  | .dot => "."
  | .leftParen => "("
  | .rightParen => ")"
  | .comma => ","
  | .semicolon => ";"
  | .number => "number"
  | .string => "string"
  | .literal => "literal"
  | .parameter => "parameter"
  | .select => "SELECT"
  | .from => "FROM"
  | .where => "WHERE"
  | .groupBy => "GROUP BY"
  | .orderBy => "ORDER BY"
  | .having => "HAVING"
  | .union => "UNION"
  | .join => "JOIN"
  | .innerJoin => "INNER JOIN"
  | .outerJoin => "OUTER JOIN"
  | .leftJoin => "LEFT JOIN"
  | .rightJoin => "RIGHT JOIN"
  | .on => "ON"
  | .limit => "LIMIT"
  | .offset => "OFFSET"
  | .as => "AS"
  | .and => "AND"
  | .or => "OR"
  | .not => "NOT"
  | .asc => "ASC"
  | .desc => "DESC"
  | .between => "BETWEEN"
  | .like => "LIKE"
  | .in => "IN"
  | .create => "CREATE"
  | .table => "TABLE"
  | .view => "VIEW"
  | .drop => "DROP"
  | .sum => "SUM"
  | .min => "MIN"
  | .max => "MAX"
  | .avg => "AVG"
  | .count => "COUNT"
  | .greatest => "GREATEST"
  | .eof => "end of input"
  | .error => "error"

/-- The identifier under which a kind is written in a token list. -/
def name : TokenKind → String
  | .equal => "Equal"
  | .notEqual => "NotEqual"
  | .greater => "Greater"
  | .greaterEqual => "GreaterEqual"
  | .less => "Less"
  | .lessEqual => "LessEqual"
  | .question => "Question"
  | .percent => "Percent"
  | .star => "Star"
  | .plus => "Plus"
  | .minus => "Minus"
  | .slash => "Slash"
  | .dot => "Dot"
  | .leftParen => "LeftParen"
  | .rightParen => "RightParen"
  | .comma => "Comma"
  | .semicolon => "Semicolon"
  | .number => "Number"
  | .string => "String"
  | .literal => "Literal"
  | .parameter => "Parameter"
  | .select => "Select"
  | .from => "From"
  | .where => "Where"
  | .groupBy => "GroupBy"
  | .orderBy => "OrderBy"
  | .having => "Having"
  | .union => "Union"
  | .join => "Join"
  | .innerJoin => "InnerJoin"
  | .outerJoin => "OuterJoin"
  | .leftJoin => "LeftJoin"
  | .rightJoin => "RightJoin"
  | .on => "On"
  | .limit => "Limit"
  | .offset => "Offset"
  | .as => "As"
  | .and => "And"
  | .or => "Or"
  | .not => "Not"
  | .asc => "Asc"
  | .desc => "Desc"
  | .between => "Between"
  | .like => "Like"
  | .in => "In"
  | .create => "Create"
  | .table => "Table"
  | .view => "View"
  | .drop => "Drop"
  | .sum => "Sum"
  | .min => "Min"
  | .max => "Max"
  | .avg => "Avg"
  | .count => "Count"
  | .greatest => "Greatest"
  | .eof => "Eof"
  | .error => "Error"

def all : List TokenKind :=
  [.equal, .notEqual, .greater, .greaterEqual, .less, .lessEqual, .question, .percent, .star,
   .plus, .minus, .slash, .dot, .leftParen, .rightParen, .comma, .semicolon, .number, .string,
   .literal, .parameter, .select, .from, .where, .groupBy, .orderBy, .having, .union, .join,
   .innerJoin, .outerJoin, .leftJoin, .rightJoin, .on, .limit, .offset, .as, .and, .or, .not,
   .asc, .desc, .between, .like, .in, .create, .table, .view, .drop, .sum, .min, .max, .avg,
   .count, .greatest, .eof, .error]

/-- Names are read with their exact letter case. -/
def ofName? (s : String) : Option TokenKind := all.find? (·.name == s)

theorem ofName?_name (k : TokenKind) : ofName? k.name = some k := by
  cases k <;> decide +kernel

def isJoin : TokenKind → Bool
  | .join | .innerJoin | .outerJoin | .leftJoin | .rightJoin => true
  | _ => false

def isFunction : TokenKind → Bool
  | .sum | .min | .max | .avg | .count | .greatest => true
  | _ => false

/-- No token follows one of these in a finished list. -/
def isTerminal : TokenKind → Bool
  | .eof | .error => true
  | _ => false

def isSign : TokenKind → Bool
  | .plus | .minus => true
  | _ => false

def isConnective : TokenKind → Bool
  | .and | .or => true
  | _ => false

/-- The kinds that may come after `NOT` in an operator. -/
def isNegatable : TokenKind → Bool
  | .like | .between | .in => true
  | _ => false

/-- The kinds that are an operator by themselves; a remainder sign is not. -/
def isOperator : TokenKind → Bool
  | .plus | .minus | .star | .slash
  | .equal | .notEqual | .greater | .greaterEqual | .less | .lessEqual => true
  | k => k.isNegatable

/-- The kinds that are an operand by themselves. -/
def isAtom : TokenKind → Bool
  | .number | .string | .star | .parameter | .question => true
  | _ => false

/-- The kinds an expression can begin with. -/
def beginsExpression (k : TokenKind) : Bool :=
  k.isFunction || k.isSign || k.isAtom || k == .literal || k == .leftParen

end TokenKind

end SqlSelect
