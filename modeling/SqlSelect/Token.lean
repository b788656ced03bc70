import SqlSelect.Position
import SqlSelect.TokenKind

namespace SqlSelect

/-- A piece of a text. The text of an error token is the message that explains it. -/
structure Token where
  kind : TokenKind
  text : String
  position : Position
deriving DecidableEq, Repr

namespace Token

def isEof (t : Token) : Bool := t.kind == .eof

def isError (t : Token) : Bool := t.kind == .error

/-- How a message names the token that was found. -/
def describe (t : Token) : String :=
  if t.isEof then t.kind.spelling else s!"'{t.text}'"

end Token

end SqlSelect
