import SqlSelect.Proofs.Grammar
import SqlSelect.Tree

namespace SqlSelect

namespace Node

/-- The kind of an only child. -/
def loneKind? (n : Node) : Option NodeKind :=
  match n.children with
  | [c] => some c.kind
  | _ => none

theorem collapse_cases (n : Node) (kinds : List NodeKind) :
    (∃ c, n.children = [c] ∧ c.kind ∈ kinds ∧ n.collapse kinds = c) ∨
      n.collapse kinds = n ∧ ∀ k ∈ kinds, n.loneKind? ≠ some k := by
  obtain ⟨kind, first, last, children⟩ := n
  cases children with
  | nil => exact .inr ⟨rfl, by simp [loneKind?]⟩
  | cons c rest =>
    cases rest with
    | cons => exact .inr ⟨rfl, by simp [loneKind?]⟩
    | nil =>
      by_cases hc : c.kind ∈ kinds
      · exact .inl ⟨c, rfl, hc, if_pos hc⟩
      · refine .inr ⟨if_neg hc, ?_⟩
        rintro k hk he
        exact hc (Option.some.inj he ▸ hk)

/-- A condition of a lone expression does not stand in a condition, and what a parenthesis
encloses is an operand, a call, or an expression that is more than one of these. -/
structure Normal (n : Node) : Prop where
  condition : n.kind = .condition →
    ∀ c ∈ n.children, c.kind = .condition → c.loneKind? ≠ some .expression
  parenthesis : n.kind = .parenthesis → ∃ c, n.children = [c] ∧
    (c.kind = .operand ∨ c.kind = .function ∨
      c.kind = .expression ∧ c.loneKind? ≠ some .operand ∧ c.loneKind? ≠ some .function)

end Node

/-- What a child is to its parent. -/
inductive Role where
  | of (kind : NodeKind)
  | field
  | column
  | operand
  | signed
  | enclosed
  | operator
  | membership
  | connective
  | subcondition
  | value
deriving DecidableEq, Repr

/-- Whether a node can stand in a role. An operator is told by its tokens, and an entry of a list
by what it begins with. -/
def Role.Admits (ts : TokenList) (n : Node) : Role → Prop
  | .of k => n.kind = k
  | .field => n.kind = .field ∧ n.childKinds.head? = some .expression
  | .column => n.kind = .field ∧ n.childKinds.head? = some .columnName
  | .operand => n.kind ∈ [NodeKind.operand, .function, .parenthesis]
  | .signed => n.kind ∈ [NodeKind.operand, .function, .parenthesis, .unaryOperator]
  | .enclosed =>
    n.kind = .operand ∨ n.kind = .function ∨
      n.kind = .expression ∧ n.loneKind? ≠ some .operand ∧ n.loneKind? ≠ some .function
  | .operator =>
    n.kind = .operator ∧ ts.kind n.first ∉ [TokenKind.and, .or] ∧ ts.kind n.last ≠ .in
  | .membership => n.kind = .operator ∧ ts.kind n.last = .in
  | .connective => n.kind = .operator ∧ ts.kind n.first ∈ [TokenKind.and, .or]
  | .subcondition => n.kind = .condition ∧ n.loneKind? ≠ some .expression
  | .value => n.kind = .operand ∧ n.first = n.last ∧ Terminal.value.Accepts (ts.token n.first)

/-- What the span of a node is made of: its own tokens, the spans of its children, and the spans
of expressions within any number of parentheses. -/
inductive Slot where
  | token (t : Terminal)
  | child (r : Role)
  | wrapped

/-- A place in the span of a node: the index of the next token, and the children that have not
begun before it. -/
structure Place where
  index : Nat
  children : List Node

/-- From `i` on parentheses open, and from `j` on as many close. -/
def TokenList.Parentheses (ts : TokenList) (i j pairs : Nat) : Prop :=
  ∀ m < pairs, ts.kind (i + m) = .leftParen ∧ ts.kind (j + m) = .rightParen

def Slot.Takes (ts : TokenList) (slot : Slot) (p q : Place) : Prop :=
  match slot with
  | .token t => t.Accepts (ts.token p.index) ∧ q = ⟨p.index + 1, p.children⟩
  | .child r => ∃ c, r.Admits ts c ∧ p.index = c.first ∧ c.first ≤ c.last ∧
      p.children = c :: q.children ∧ q.index = c.last + 1
  | .wrapped => ∃ c pairs, c.kind = .expression ∧ p.index + pairs = c.first ∧ c.first ≤ c.last ∧
      ts.Parentheses p.index (c.last + 1) pairs ∧
      p.children = c :: q.children ∧ q.index = c.last + 1 + pairs

namespace NodeKind

open Nonterminal

abbrev Layout := Form Slot Empty

def tokens (ks : List TokenKind) : Layout := .one (.token (.among ks))

def token (k : TokenKind) : Layout := tokens [k]

def role (r : Role) : Layout := .one (.child r)

def child (k : NodeKind) : Layout := role (.of k)

def parenthesized (f : Layout) : Layout :=
  .between (.token (.among [.leftParen])) (.token (.among [.rightParen])) f

def term : Layout := .one .wrapped + parenthesized (role .subcondition)

/-- The tokens and the children of a node of each kind, in their order. -/
def layout : NodeKind → Layout
  | .query => Form.separated (child .selectQuery) (token .union)
  | .selectQuery =>
    child .select * child .from * (child .join).star * (child .where).opt * (child .groupBy).opt
      * (child .having).opt * (child .orderBy).opt * (child .limit).opt
  | .select => token .select * Form.separated (role .field) (token .comma)
  | .from => token .from * child .source * (child .alias).opt
  | .join =>
    tokens joinKinds * child .source * (child .alias).opt * (token .on * child .condition).opt
  | .where => token .where * child .condition
  | .having => token .having * child .condition
  | .groupBy => token .groupBy * Form.separated (role .column) (token .comma)
  | .orderBy => token .orderBy * Form.separated (role .column) (token .comma)
  | .limit => token .limit * role .value * (tokens [.comma, .offset] * role .value).opt
  | .condition => Form.separated term (role .connective)
  | .expression =>
    role .signed * (role .operator * role .signed + role .membership * child .list).star
  | .operand =>
    token .literal * (token .dot * tokens [.literal, .star]).opt
      + tokens [.number, .string, .star, .parameter, .question]
  | .operator =>
    tokens operatorKinds + token .in + token .not * tokens [.like, .between, .in]
      + tokens [.and, .or]
  | .unaryOperator => tokens [.plus, .minus] * role .operand
  | .function => tokens functionKinds * parenthesized (child .expression)
  | .alias => (token .as).opt * token .literal
  | .source =>
    token .literal * (token .dot * tokens [.literal, .star]).opt
      + parenthesized (child .selectQuery)
  | .parenthesis => parenthesized (role .enclosed)
  | .columnName => token .literal * (token .dot * token .literal).opt
  | .order => tokens [.asc, .desc]
  | .field =>
    child .expression * (child .alias).opt + child .columnName * (child .order).opt
  | .list => parenthesized (.separated (child .expression) (token .comma))

end NodeKind

/-- The tokens of a node are those of its children and its own, each once and in the order that
the kind of the node lays down. -/
def Node.LaidOut (ts : TokenList) (n : Node) : Prop :=
  n.kind.layout.Spans (Slot.Takes ts) Empty.elim ⟨n.first, n.children⟩ ⟨n.last + 1, []⟩

end SqlSelect
