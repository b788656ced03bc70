import SqlSelect.Numeral.Unsigned
import SqlSelect.Proofs.Form
import SqlSelect.TokenList

namespace SqlSelect

/-- What a rule can ask of a token: to be of one of some kinds, or a number that has a value. -/
inductive Terminal where
  | among (kinds : List TokenKind)
  | value

def Terminal.Accepts (t : Token) : Terminal → Prop
  | .among kinds => t.kind ∈ kinds
  | .value => t.kind = .number ∧ (unsigned? t.text).isSome = true

/-- The names of the rules of the grammar. -/
inductive Nonterminal where
  | query | selectQuery | select | field | «from» | source | join | «where» | having
  | condition | conditionTerm | expression | operand | operator | function | list
  | groupBy | orderBy | orderedColumn | limit
deriving DecidableEq, Repr

abbrev Phrase := Form Terminal Nonterminal

namespace Phrase

variable {ν : Type}

def kinds (ks : List TokenKind) : Form Terminal ν := .one (.among ks)

def kind (k : TokenKind) : Form Terminal ν := kinds [k]

def value : Form Terminal ν := .one .value

def parenthesized (f : Form Terminal ν) : Form Terminal ν :=
  .between (.among [.leftParen]) (.among [.rightParen]) f

end Phrase

namespace Nonterminal

open Phrase

def joinKinds : List TokenKind := [.join, .innerJoin, .outerJoin, .leftJoin, .rightJoin]

def functionKinds : List TokenKind := [.sum, .min, .max, .avg, .count, .greatest]

/-- The operators of one token that a list may not follow. -/
def operatorKinds : List TokenKind :=
  [.plus, .minus, .star, .slash, .equal, .notEqual, .greater, .greaterEqual, .less, .lessEqual,
   .like, .between]

/-- The operators that a list follows. -/
def membership : Phrase := kind .in + kind .not * kind .in

def signed : Phrase := (kinds [.plus, .minus]).opt * .part .operand

def aliasing : Phrase := (kind .as).opt * kind .literal

/-- The grammar of queries. -/
def rule : Nonterminal → Phrase
  | .query => .separated (.part .selectQuery) (kind .union)
  | .selectQuery =>
    .part .select * .part .from * (Form.part .join).star * (Form.part .where).opt
      * (Form.part .groupBy).opt * (Form.part .having).opt * (Form.part .orderBy).opt
      * (Form.part .limit).opt
  | .select => kind .select * .separated (.part .field) (kind .comma)
  | .field => .part .expression * aliasing.opt
  | .from => kind .from * .part .source * aliasing.opt
  | .source =>
    kind .literal * (kind .dot * kinds [.literal, .star]).opt
      + parenthesized (.part .selectQuery)
  | .join =>
    kinds joinKinds * .part .source * aliasing.opt * (kind .on * .part .condition).opt
  | .where => kind .where * .part .condition
  | .having => kind .having * .part .condition
  | .condition => .separated (.part .conditionTerm) (kinds [.and, .or])
  | .conditionTerm => parenthesized (.part .condition) + .part .expression
  | .expression => signed * (.part .operator * signed + membership * .part .list).star
  | .operand =>
    kind .literal * (kind .dot * kinds [.literal, .star]).opt
      + kinds [.number, .string, .star, .parameter, .question] + .part .function
      + parenthesized (.part .expression)
  | .operator => kinds operatorKinds + kind .not * kinds [.like, .between]
  | .function => kinds functionKinds * parenthesized (.part .expression)
  | .list => parenthesized (.separated (.part .expression) (kind .comma))
  | .groupBy => kind .groupBy * .separated (.part .orderedColumn) (kind .comma)
  | .orderBy => kind .orderBy * .separated (.part .orderedColumn) (kind .comma)
  | .orderedColumn =>
    kind .literal * (kind .dot * kind .literal).opt * (kinds [.asc, .desc]).opt
  | .limit =>
    kind .limit * value * (kinds [.comma, .offset] * value).opt

end Nonterminal

/-- The first token of what is left is of the wanted sort and is taken away. -/
def Terminal.Takes (t : Terminal) (left left' : List Token) : Prop :=
  ∃ token, t.Accepts token ∧ left = token :: left'

/-- The sentences of a rule: the token lists of which it can take away all. -/
def Nonterminal.Sentence (n : Nonterminal) (tokens : List Token) : Prop :=
  Form.Spans Terminal.Takes rule (.part n) tokens []

end SqlSelect
