import SqlSelect.Tree.Node

namespace SqlSelect.Node

/-- A node and all below it have a property. -/
inductive All (P : Node → Prop) : Node → Prop
  | mk {n} : P n → (∀ c ∈ n.children, All P c) → All P n

variable {P : Node → Prop}

theorem All.root {n : Node} (h : n.All P) : P n := by
  cases h
  assumption

theorem All.child {n c : Node} (h : n.All P) (hc : c ∈ n.children) : c.All P := by
  cases h with
  | mk _ hcs => exact hcs c hc

theorem All.mono {Q : Node → Prop} {n : Node} (h : n.All P) (hq : ∀ m, P m → Q m) : n.All Q := by
  induction h with
  | mk hn _ ih => exact .mk (hq _ hn) ih

/-- What holds of a tree holds of every tree in it. -/
theorem All.nested {n : Node} (h : n.All P) : n.All (All P) := by
  induction h with
  | mk hn hc ih => exact .mk (.mk hn hc) ih

mutual

theorem forall_walk_iff : (n : Node) → (depth : Nat) → (∀ m ∈ walk depth n, P m.2) ↔ n.All P
  | ⟨kind, first, last, children⟩, depth => by
    have ih := forall_walkAll_iff children (depth + 1)
    simp only [walk, List.forall_mem_cons, ih]
    exact ⟨fun h => .mk h.1 h.2, fun h => ⟨h.root, fun c hc => h.child hc⟩⟩

theorem forall_walkAll_iff : (ns : List Node) → (depth : Nat) →
    ((∀ m ∈ walkAll depth ns, P m.2) ↔ ∀ c ∈ ns, c.All P)
  | [], _ => by simp [walkAll]
  | n :: rest, depth => by
    have ih := forall_walk_iff n depth
    have ihs := forall_walkAll_iff rest depth
    simp only [walkAll, List.forall_mem_append, List.forall_mem_cons, ih, ihs]

end

theorem forall_preorder_iff {n : Node} : (∀ m ∈ n.preorder, P m) ↔ n.All P := by
  simp only [preorder, List.forall_mem_map, forall_walk_iff]

end SqlSelect.Node
