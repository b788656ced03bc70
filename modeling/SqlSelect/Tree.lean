import SqlSelect.Numeral.Unsigned
import SqlSelect.TokenList
import SqlSelect.Tree.Node

namespace SqlSelect

/-- What a limit clause asks for: at most `rowCount` rows, after the first `offset` ones. -/
structure LimitClause where
  rowCount : Nat
  offset : Nat
deriving DecidableEq, Repr

namespace Node

def tokens (ts : TokenList) (n : Node) : List Token := ts.span n.first n.last

/-- The texts of the tokens, with one blank between every two. -/
def text (ts : TokenList) (n : Node) : String :=
  String.intercalate " " ((n.tokens ts).map (·.text))

def firstValue? (ts : TokenList) (n : Node) : Option Nat := unsigned? (ts.token n.first).text

/-- The offset is zero where it is not given. -/
def limit? (ts : TokenList) (n : Node) : Option LimitClause :=
  if n.kind ≠ .limit then none
  else
    match n.children with
    | [] => none
    | [rows] => return ⟨← rows.firstValue? ts, 0⟩
    | rows :: offset :: _ => return ⟨← rows.firstValue? ts, ← offset.firstValue? ts⟩

/-- The line of a node in an outline; only a leaf shows its text. -/
def outlineLine (ts : TokenList) (depth : Nat) (n : Node) : String :=
  String.ofList (List.replicate (2 * depth) ' ')
    ++ s!"{n.kind.name} [{n.first}..{n.last}]"
    ++ (if n.children.isEmpty then " " ++ n.text ts else "")
    ++ "\n"

end Node

/-- A part of a query, and all the tokens it was found among. -/
structure Tree where
  source : TokenList
  root : Node
deriving DecidableEq

namespace Tree

/-- All nodes with their depths, parents before children. -/
def nodes (t : Tree) : List (Nat × Node) := t.root.walk 0

/-- One line for each node, indented by its depth. -/
def outline (t : Tree) : String :=
  String.join (t.nodes.map fun n => n.2.outlineLine t.source n.1)

end Tree

end SqlSelect
