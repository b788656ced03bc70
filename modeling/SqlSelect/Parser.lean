import SqlSelect.Lexer
import SqlSelect.Production
import SqlSelect.Tree

namespace SqlSelect

/-- A token list, and how it is to be parsed. -/
structure Parser where
  tokens : TokenList
  options : Options

namespace Parser

def ofTokens (tokens : List Token) (options : Options) : Except ParseError Parser := do
  let ts ← TokenList.ofTokens tokens
  .ok ⟨ts, options⟩

def ofText (text : String) (options : Options) : Except ParseError Parser :=
  ofTokens (tokenize text) options

def toTree (p : Parser) : Except Fault Node → Except ParseError Tree
  | .ok n => .ok ⟨p.tokens, n⟩
  | .error f => .error (f.toError p.tokens p.options)

/-- Parses one part of the grammar at an index, whatever stands before and after it. -/
def run (p : Parser) (part : Production) (start : Nat) : Except ParseError Tree :=
  p.toTree (part.run p.tokens p.options.maxDepth start)

/-- The index after a query whose last token is at `last`, and after a semicolon that ends it. -/
def queryEnd (ts : TokenList) (last : Nat) : Nat :=
  if ts.kind (last + 1) = .semicolon then last + 2 else last + 1

/-- A query at the start of the tokens, and, unless more is allowed, nothing after it. -/
def complete (p : Parser) : Except Fault Node := do
  let query ← Production.query.run p.tokens p.options.maxDepth 0
  if p.options.allowTrailingInput || p.tokens.kind (queryEnd p.tokens query.last) = .eof then
    .ok query
  else Fault.expected .queryEnd (queryEnd p.tokens query.last)

def parse (p : Parser) : Except ParseError Tree :=
  if p.tokens.size ≤ 1 then .error .emptyInput else p.toTree p.complete

end Parser

/-- The tree of the query that a text is. -/
def parse (text : String) (options : Options) : Except ParseError Tree := do
  (← Parser.ofText text options).parse

end SqlSelect
