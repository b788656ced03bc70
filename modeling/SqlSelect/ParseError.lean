import SqlSelect.Token

namespace SqlSelect

/-- Why a text has no tree. A message that tells of a token stands with the token's place. -/
inductive ParseError where
  | lexical (message : String) (position : Position)
  | grammatical (message : String) (position : Position)
  | emptyInput
  | tooDeep (limit : Nat) (position : Position)
deriving DecidableEq, Repr

namespace ParseError

def ofErrorToken (t : Token) : ParseError := .lexical t.text t.position

def atToken (message : String) (t : Token) : ParseError := .grammatical message t.position

def unexpected (expected : String) (found : Token) : ParseError :=
  atToken s!"expected {expected}, found {found.describe}" found

def text : ParseError → String
  | .lexical message _ => s!"Lexical error: {message}"
  | .grammatical message p => s!"Syntax error at {p.phrase}: {message}"
  | .emptyInput => "Empty input: no SQL query found"
  | .tooDeep limit p => s!"Nesting depth limit of {limit} exceeded at {p.phrase}"

def position? : ParseError → Option Position
  | .lexical _ p | .grammatical _ p | .tooDeep _ p => some p
  | .emptyInput => none

/-- Whether the tokens are at fault; too deep a nesting counts. -/
def isGrammatical : ParseError → Bool
  | .grammatical _ _ | .tooDeep _ _ => true
  | _ => false

def isLexical : ParseError → Bool
  | .lexical _ _ => true
  | _ => false

end ParseError

end SqlSelect
