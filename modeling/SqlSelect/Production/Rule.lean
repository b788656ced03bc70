import SqlSelect.Production.Fault
import SqlSelect.Tree.Node

namespace SqlSelect

/-- Parses from the token at an index; the node it finds says where it ends. -/
abbrev Rule := Nat → Except Fault Node

/-- Nodes that follow one another, up to the token at `last`. -/
structure Stretch where
  nodes : List Node
  last : Nat

def Stretch.ofNode (n : Node) : Stretch := ⟨[n], n.last⟩

/-- Repeats a step that says what comes after the token at an index, until nothing more does.
The first number bounds the repetitions; one for each token is enough. -/
def many (step : Nat → Except Fault (Option Stretch)) : Nat → Nat → Except Fault Stretch
  | 0, last => .ok ⟨[], last⟩
  | bound + 1, last => do
    match ← step last with
    | none => .ok ⟨[], last⟩
    | some s =>
      let more ← many step bound s.last
      .ok ⟨s.nodes ++ more.nodes, more.last⟩

/-- One node, and what follows it by steps. -/
def chain (bound : Nat) (first : Rule) (step : Nat → Except Fault (Option Stretch)) (start : Nat) :
    Except Fault Stretch := do
  let head ← first start
  let more ← many step bound head.last
  .ok ⟨head :: more.nodes, more.last⟩

variable (ts : TokenList)

def expect (k : TokenKind) (i : Nat) : Except Fault Unit :=
  if ts.kind i = k then .ok () else Fault.expected (.kind k) i

/-- What the token after `last` announces, if `p` accepts that token; the rule starts at it. -/
def announced (p : TokenKind → Bool) (rule : Rule) (last : Nat) :
    Except Fault (Option Stretch) :=
  if p (ts.kind (last + 1)) then do
    let n ← rule (last + 1)
    .ok (some (.ofNode n))
  else .ok none

def afterComma (item : Rule) (last : Nat) : Except Fault (Option Stretch) :=
  announced ts (· == .comma) (fun comma => item (comma + 1)) last

/-- Items with a comma between every two. -/
def commaList (item : Rule) (start : Nat) : Except Fault Stretch :=
  chain ts.size item (afterComma ts item) start

/-- The last token of the name that starts at an index: of `a`, `a.b` or, with `star`, `a.*`. -/
def nameLast (star : Bool) (start : Nat) : Nat :=
  if ts.kind (start + 1) = .dot
      && (ts.kind (start + 2) = .literal || star && ts.kind (start + 2) = .star) then start + 2
  else start

end SqlSelect
