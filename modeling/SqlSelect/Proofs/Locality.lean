import SqlSelect.Proofs.CarriedQuery
import SqlSelect.Proofs.IndexSafety

namespace SqlSelect

variable {ts ts' : TokenList} {a b : Nat}

namespace Node

mutual

theorem walk_move : (n : Node) → (depth : Nat) →
    walk depth (n.move a b) = (walk depth n).map (Prod.map id (move a b))
  | ⟨kind, first, last, children⟩, depth => by
    rw [move, walk, walk, walkAll_moveAll children (depth + 1), List.map_cons]
    rfl

theorem walkAll_moveAll : (ns : List Node) → (depth : Nat) →
    walkAll depth (moveAll a b ns) = (walkAll depth ns).map (Prod.map id (move a b))
  | [], _ => rfl
  | n :: rest, depth => by
    rw [moveAll, walkAll, walkAll, walk_move n depth, walkAll_moveAll rest depth, List.map_append]

end

theorem preorder_move (n : Node) : (n.move a b).preorder = n.preorder.map (move a b) := by
  rw [preorder, preorder, walk_move, List.map_map, List.map_map]
  rfl

theorem move_first (n : Node) : (n.move a b).first = moved a b n.first := by
  cases n
  rfl

end Node

namespace Parser

variable {p q : Parser} {part : Production} {i j : Nat} {t : Tree}

/-- What is found depends on its own tokens and the two after them only: where the same stand in
another list, the same is found, with every index shifted. -/
theorem run_local (ho : p.options = q.options) (h : p.run part i = .ok t)
    (hs : ∀ m ≤ t.root.last - i + 2,
      (q.tokens.token (j + m)).kind = (p.tokens.token (i + m)).kind ∧
        (q.tokens.token (j + m)).text = (p.tokens.token (i + m)).text) :
    q.run part j = .ok ⟨q.tokens, t.root.move i j⟩ ∧
      (t.root.move i j).preorder.map (fun n => (n.kind, n.first + i, n.last + i)) =
        t.root.preorder.map fun n => (n.kind, n.first + j, n.last + j) := by
  obtain ⟨_, hrun⟩ := run_eq_ok.mp h
  obtain ⟨hfirst, hle⟩ := Production.run_first_le hrun
  have hbounds := Node.forall_preorder_iff.mpr (Production.run_inBounds hrun)
  have hroot : i ≤ t.root.last := hfirst ▸ (Production.run_inBounds hrun).root.covers.le
  have hmoved (k : Nat) (hk : i ≤ k) : moved i j k = j + (k - i) := by
    unfold moved
    omega
  have hsame (k : Nat) (hk : i ≤ k) (hl : k ≤ t.root.last + 2) :
      q.tokens.kind (moved i j k) = p.tokens.kind k ∧
        (q.tokens.token (moved i j k)).text = (p.tokens.token k).text := by
    have hm := hs (k - i) (by omega)
    rwa [← hmoved k hk, Nat.add_sub_cancel' hk] at hm
  have hc : p.tokens.Carries q.tokens i j t.root.last :=
    ⟨fun hi hl => (hsame _ hi (by omega)).1, fun hi hl => (hsame _ hi (by omega)).2,
      fun hi hl => congrArg TokenKind.asEnd (hsame _ hi hl).1⟩
  have hq := Production.run_carried hc part (Nat.le_refl i) hroot (Nat.le_refl _) hrun
  rw [hmoved i (Nat.le_refl i), Nat.sub_self, Nat.add_zero, ho] at hq
  refine ⟨run_eq_ok.mpr ⟨rfl, hq⟩, ?_⟩
  rw [Node.preorder_move, List.map_map]
  refine List.map_congr_left fun n hn => ?_
  have hf := hle n hn
  have hl := (hbounds n hn).covers.le
  show ((n.move i j).kind, (n.move i j).first + i, (n.move i j).last + i) = _
  rw [Node.move_kind, Node.move_first, Node.move_last, hmoved _ hf, hmoved _ (by omega)]
  refine congrArg _ (Prod.ext ?_ ?_)
  · dsimp only
    omega
  · dsimp only
    omega

theorem run_local_of_parentheses :
    let p : Parser := ⟨⟨#[⟨.select, "SELECT", ⟨1, 1⟩⟩, ⟨.leftParen, "(", ⟨1, 8⟩⟩,
      ⟨.literal, "a", ⟨1, 9⟩⟩, ⟨.rightParen, ")", ⟨1, 10⟩⟩, ⟨.from, "FROM", ⟨1, 12⟩⟩,
      ⟨.literal, "t", ⟨1, 17⟩⟩], ⟨.eof, "", ⟨1, 18⟩⟩, rfl, by decide⟩, {}⟩
    let q : Parser := ⟨⟨#[⟨.leftParen, "(", ⟨1, 1⟩⟩, ⟨.comma, ",", ⟨1, 2⟩⟩,
      ⟨.leftParen, "(", ⟨2, 1⟩⟩, ⟨.literal, "a", ⟨2, 2⟩⟩, ⟨.rightParen, ")", ⟨2, 3⟩⟩,
      ⟨.from, "FROM", ⟨3, 1⟩⟩, ⟨.literal, "t", ⟨3, 6⟩⟩, ⟨.eof, "", ⟨3, 7⟩⟩,
      ⟨.rightParen, ")", ⟨4, 1⟩⟩], ⟨.eof, "", ⟨4, 2⟩⟩, rfl, by decide⟩, {}⟩
    ∃ t, p.run .expression 1 = .ok t ∧
      (∀ m ≤ t.root.last - 1 + 2,
        (q.tokens.token (2 + m)).kind = (p.tokens.token (1 + m)).kind ∧
          (q.tokens.token (2 + m)).text = (p.tokens.token (1 + m)).text) ∧
      q.run .expression 2 = .ok ⟨q.tokens, t.root.move 1 2⟩ ∧
      (t.root.move 1 2).preorder.map (fun n => (n.kind, n.first + 1, n.last + 1)) =
        t.root.preorder.map fun n => (n.kind, n.first + 2, n.last + 2) := by
  intro p q
  have h : p.run .expression 1 = .ok ⟨p.tokens,
    ⟨.expression, 1, 3, [⟨.parenthesis, 1, 3, [⟨.operand, 2, 2, []⟩]⟩]⟩⟩ := rfl
  have hs : ∀ m ≤ 4, (q.tokens.token (2 + m)).kind = (p.tokens.token (1 + m)).kind ∧
      (q.tokens.token (2 + m)).text = (p.tokens.token (1 + m)).text := by decide
  exact ⟨_, h, hs, run_local (p := p) (q := q) rfl h hs⟩

end Parser

end SqlSelect
