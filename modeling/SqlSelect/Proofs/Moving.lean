import SqlSelect.Proofs.Outcome

namespace SqlSelect

/-- Where an index goes if `a` goes to `b`. -/
def moved (a b i : Nat) : Nat := i - a + b

theorem moved_add {a b i : Nat} (h : a ≤ i) (n : Nat) : moved a b (i + n) = moved a b i + n := by
  unfold moved
  omega

theorem moved_self {a i : Nat} (h : a ≤ i) : moved a a i = i := by
  unfold moved
  omega

namespace Node

variable {a b : Nat}

mutual

/-- The same node of tokens that begin elsewhere. -/
def move (a b : Nat) : Node → Node
  | ⟨kind, first, last, children⟩ =>
    ⟨kind, moved a b first, moved a b last, moveAll a b children⟩

def moveAll (a b : Nat) : List Node → List Node
  | [] => []
  | n :: rest => n.move a b :: moveAll a b rest

end

theorem moveAll_eq_map (ns : List Node) : moveAll a b ns = ns.map (move a b) := by
  induction ns with
  | nil => rfl
  | cons n rest ih => rw [moveAll, ih, List.map_cons]

@[simp] theorem move_kind (n : Node) : (n.move a b).kind = n.kind := by
  cases n
  rfl

@[simp] theorem move_last (n : Node) : (n.move a b).last = moved a b n.last := by
  cases n
  rfl

theorem move_mk (k : NodeKind) (i j : Nat) (children : List Node) :
    move a b ⟨k, i, j, children⟩ = ⟨k, moved a b i, moved a b j, children.map (move a b)⟩ := by
  rw [move, moveAll_eq_map]

theorem move_leaf (k : NodeKind) (i j : Nat) :
    move a b (leaf k i j) = leaf k (moved a b i) (moved a b j) := rfl

theorem move_collapse (n : Node) (kinds : List NodeKind) :
    (n.collapse kinds).move a b = (n.move a b).collapse kinds := by
  obtain ⟨kind, first, last, children⟩ := n
  match children with
  | [] => rfl
  | [c] =>
    by_cases hc : c.kind ∈ kinds
    · rw [move_mk, collapse, collapse]
      simp [hc]
    · rw [move_mk, collapse, collapse]
      simp [hc, move_mk]
  | _ :: _ :: _ => rfl

end Node

def Stretch.move (a b : Nat) (s : Stretch) : Stretch :=
  ⟨s.nodes.map (Node.move a b), moved a b s.last⟩

theorem Stretch.move_ofNode {a b : Nat} (n : Node) :
    (ofNode n).move a b = ofNode (n.move a b) := by
  simp [ofNode, move]

/-- What is found ends before a semicolon, or before a parenthesis that closes, as it does before
an end of input. -/
def TokenKind.asEnd : TokenKind → TokenKind
  | .semicolon | .rightParen => .eof
  | k => k

/-- The tokens from `a` to `e` stand in another list from `b` on, before the same two tokens, but
that there a semicolon, a parenthesis that closes and an end of input may stand for one another. -/
structure TokenList.Carries (ts ts' : TokenList) (a b e : Nat) : Prop where
  kind_eq {i : Nat} : a ≤ i → i ≤ e → ts'.kind (moved a b i) = ts.kind i
  text_eq {i : Nat} : a ≤ i → i ≤ e → (ts'.token (moved a b i)).text = (ts.token i).text
  asEnd_eq {i : Nat} : a ≤ i → i ≤ e + 2 →
    (ts'.kind (moved a b i)).asEnd = (ts.kind i).asEnd

section

variable {ts ts' : TokenList} {a b e i : Nat}

namespace TokenList.Carries

variable (hc : ts.Carries ts' a b e)

include hc

/-- What does not tell these three from one another. -/
theorem test {β : Type} {p : TokenKind → β}
    (hp : ∀ k ∈ [TokenKind.semicolon, .rightParen], p k = p .eof) (ha : a ≤ i) (hi : i ≤ e + 2) :
    p (ts'.kind (moved a b i)) = p (ts.kind i) := by
  have he (k : TokenKind) : p k.asEnd = p k := by
    unfold TokenKind.asEnd
    split
    next => exact (hp .semicolon (by decide)).symm
    next => exact (hp .rightParen (by decide)).symm
    next => rfl
  rw [← he, hc.asEnd_eq ha hi, he]

theorem kind_iff {k : TokenKind} (hk : k ∉ [TokenKind.semicolon, .rightParen, .eof]) (ha : a ≤ i)
    (hi : i ≤ e + 2) : ts'.kind (moved a b i) = k ↔ ts.kind i = k := by
  have hne : k ≠ .semicolon ∧ k ≠ .rightParen ∧ k ≠ .eof := by simpa using hk
  have hp : ∀ l ∈ [TokenKind.semicolon, .rightParen], decide (l = k) = decide (.eof = k) := by
    simp [hne.1.symm, hne.2.1.symm, hne.2.2.symm]
  exact decide_eq_decide.mp (hc.test (p := fun l => decide (l = k)) hp ha hi)

/-- Which parentheses are open does not matter to where the outermost is closed, but how many. -/
theorem closeFrom {bound bound' inner inner' c : Nat} {outer outer' : List Nat} (ha : a ≤ i)
    (hl : c ≤ e) (ho : outer.length = outer'.length) (hb : c < i + bound')
    (h : closeFrom ts bound i inner outer = .ok c) :
    SqlSelect.closeFrom ts' bound' (moved a b i) inner' outer' = .ok (moved a b c) := by
  induction bound generalizing i inner outer bound' inner' outer' with
  | zero => cases h
  | succ bound ih =>
    have hi := closeFrom_le h
    obtain ⟨bound', rfl⟩ : ∃ m, bound' = m + 1 := ⟨bound' - 1, by omega⟩
    unfold SqlSelect.closeFrom at h ⊢
    rw [hc.kind_eq ha (by omega), ← moved_add ha]
    split at h
    next hk =>
      have hi := closeFrom_le h
      exact ih (by omega) (by simpa using ho) (by omega) h
    next hk =>
      cases outer with
      | nil =>
        obtain rfl := List.length_eq_zero_iff.mp ho.symm
        cases h
        rfl
      | cons next outer =>
        obtain ⟨next', outer', rfl⟩ := List.exists_cons_of_length_eq_add_one ho.symm
        have hi := closeFrom_le h
        exact ih (by omega) (by simpa using ho) (by omega) h
    next => cases h
    next =>
      have hi := closeFrom_le h
      exact ih (by omega) ho (by omega) h

theorem closing {close : Nat} (ha : a ≤ i) (hl : close ≤ e) (h : closing ts i = .ok close) :
    SqlSelect.closing ts' (moved a b i) = .ok (moved a b close) := by
  have hi := closing_lt h
  have hk := closing_kinds h
  have hk' : ts'.kind (moved a b close) = .rightParen := by
    rw [hc.kind_eq (by omega) hl, hk.2]
  have hlt : moved a b close + 1 < ts'.size := lt_size_of_kind (by simp [hk'])
  unfold SqlSelect.closing at h ⊢
  rw [hc.kind_eq ha (by omega), if_pos hk.1, ← moved_add ha]
  rw [if_pos hk.1] at h
  exact hc.closeFrom (by omega) hl rfl (by unfold moved at hlt ⊢; omega) h

end TokenList.Carries

end

end SqlSelect
