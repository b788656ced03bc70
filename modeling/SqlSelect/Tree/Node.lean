import SqlSelect.Tree.NodeKind

namespace SqlSelect

/-- A part of a query. It covers the tokens from `first` to `last`, both included; with no child
it is a leaf. -/
structure Node where
  kind : NodeKind
  first : Nat
  last : Nat
  children : List Node

namespace Node

def leaf (kind : NodeKind) (first last : Nat) : Node := ⟨kind, first, last, []⟩

/-- What an only child stands in for, if its kind is one of `kinds`. -/
def collapse (n : Node) (kinds : List NodeKind) : Node :=
  match n.children with
  | [c] => if c.kind ∈ kinds then c else n
  | _ => n

/-- The first child of a kind. -/
def child? (n : Node) (kind : NodeKind) : Option Node := n.children.find? (·.kind == kind)

def childrenOf (n : Node) (kind : NodeKind) : List Node := n.children.filter (·.kind == kind)

def childKinds (n : Node) : List NodeKind := n.children.map (·.kind)

mutual

/-- A node and all below it, each with its depth, parents before children. -/
def walk (depth : Nat) : Node → List (Nat × Node)
  | ⟨kind, first, last, children⟩ =>
    (depth, ⟨kind, first, last, children⟩) :: walkAll (depth + 1) children

def walkAll (depth : Nat) : List Node → List (Nat × Node)
  | [] => []
  | n :: rest => walk depth n ++ walkAll depth rest

end

def preorder (n : Node) : List Node := (n.walk 0).map (·.2)

mutual

def decideEq : (a b : Node) → Decidable (a = b)
  | ⟨k, i, j, as⟩, ⟨l, p, q, bs⟩ =>
    match decEq (k, i, j) (l, p, q), decideEqAll as bs with
    | isTrue h, isTrue hs => isTrue (by cases h; cases hs; rfl)
    | isFalse h, _ => isFalse (by rintro ⟨⟩; exact h rfl)
    | _, isFalse hs => isFalse (by rintro ⟨⟩; exact hs rfl)

def decideEqAll : (as bs : List Node) → Decidable (as = bs)
  | [], [] => isTrue rfl
  | [], _ :: _ => isFalse nofun
  | _ :: _, [] => isFalse nofun
  | a :: as, b :: bs =>
    match decideEq a b, decideEqAll as bs with
    | isTrue h, isTrue hs => isTrue (by rw [h, hs])
    | isFalse h, _ => isFalse fun he => h (List.cons.inj he).1
    | _, isFalse hs => isFalse fun he => hs (List.cons.inj he).2

end

instance : DecidableEq Node := decideEq

end Node

end SqlSelect
