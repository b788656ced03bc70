import SqlSelect.Proofs.Fitting

namespace SqlSelect

open NodeKind

def Enclosed.nodeKind : Enclosed → NodeKind
  | .selectQuery => .selectQuery
  | .condition => .condition
  | .expression => .expression

/-- Inside parentheses, what is asked for is what is found. -/
def Nest.Makes (ts : TokenList) (nest : Nest) : Prop :=
  ∀ blame (e : Enclosed), Rule.Makes ts (.of e.nodeKind) (nest blame e)

/-- What fills a parenthesis makes one with it. -/
theorem Nest.Makes.enclosed {ts : TokenList} {nest : Nest} (hn : nest.Makes ts) {e : Enclosed}
    {p close blame : Nat} {x : Expectation} {n : Node} (hc : closing ts p = .ok close)
    (h : fill nest blame e (p + 1) close x = .ok n) :
    Stretch.Fits ts (parenthesized (child e.nodeKind)) p ⟨[n], close⟩ := by
  obtain ⟨hi, rfl⟩ := fill_eq_ok.mp h
  have ho := closing_kinds hc
  exact .parenthesized ho.1 (hn blame e _ _ hi) ho.2

theorem mem_functionKinds {k : TokenKind} :
    k ∈ Nonterminal.functionKinds ↔ k.isFunction = true := by
  cases k <;> decide

theorem mem_joinKinds {k : TokenKind} : k ∈ Nonterminal.joinKinds ↔ k.isJoin = true := by
  cases k <;> decide

theorem mem_signs {k : TokenKind} : k ∈ [TokenKind.plus, .minus] ↔ k.isSign = true := by
  cases k <;> decide

theorem mem_connectives {k : TokenKind} :
    k ∈ [TokenKind.and, .or] ↔ k.isConnective = true := by
  cases k <;> decide

theorem mem_atoms {k : TokenKind} :
    k ∈ [TokenKind.number, .string, .star, .parameter, .question] ↔ k.isAtom = true := by
  cases k <;> decide

theorem mem_negatable {k : TokenKind} :
    k ∈ [TokenKind.like, .between, .in] ↔ k.isNegatable = true := by
  cases k <;> decide

theorem isOperator_iff {k : TokenKind} :
    k.isOperator = true ↔ k ∈ Nonterminal.operatorKinds ∨ k = .in := by
  cases k <;> decide

namespace Rule

variable {ts : TokenList} {nest : Nest} {i : Nat} {s : Stretch}

theorem nameLast_cases (ts : TokenList) (star : Bool) (start : Nat) :
    nameLast ts star start = start ∨
      nameLast ts star start = start + 2 ∧ ts.kind (start + 1) = .dot ∧
        (ts.kind (start + 2) = .literal ∨ star = true ∧ ts.kind (start + 2) = .star) := by
  unfold nameLast
  split
  next h => exact .inr ⟨rfl, by simpa using h⟩
  next => exact .inl rfl

/-- A name is a literal and what may follow it after a dot. -/
theorem name_fits {star : Bool} {members : List TokenKind}
    (hm : ∀ k, (k = .literal ∨ star = true ∧ k = .star) → k ∈ members)
    (h : ts.kind i = .literal) :
    Stretch.Fits ts (token .literal * .opt (token .dot * tokens members)) i
      ⟨[], nameLast ts star i⟩ := by
  rcases nameLast_cases ts star i with he | ⟨he, hd, hs⟩
  · rw [he]
    exact (Stretch.Fits.token h).mul .skip
  · rw [he]
    exact (Stretch.Fits.token h).mul ((Stretch.Fits.token hd).mul (.tokens (hm _ hs))).take

theorem operatorLast_eq_some {e : Nat} (h : operatorLast ts i = .ok (some e)) :
    ts.kind i ∈ Nonterminal.operatorKinds ∧ e = i ∨ ts.kind i = .in ∧ e = i ∨
      ts.kind i = .not ∧ ts.kind (i + 1) ∈ [TokenKind.like, .between, .in] ∧ e = i + 1 := by
  unfold operatorLast at h
  split at h
  next ho =>
    cases h
    exact (isOperator_iff.mp ho).imp (⟨·, rfl⟩) (.inl ⟨·, rfl⟩)
  next =>
    split at h
    next hn =>
      split at h
      next hm => cases h; exact .inr (.inr ⟨hn, mem_negatable.mpr hm, rfl⟩)
      next => cases h
    next => cases h

/-- An operator is of the sort that its last token tells. -/
theorem operator_fits {e : Nat} (h : operatorLast ts i = .ok (some e)) :
    Stretch.Fits ts (role (if ts.kind e = .in then .membership else .operator)) i
      (.ofNode (.leaf .operator i e)) := by
  have hl : Stretch.Fits ts (layout .operator) i ⟨[], e⟩ := by
    rcases operatorLast_eq_some h with ⟨hk, rfl⟩ | ⟨hk, rfl⟩ | ⟨hk, hm, rfl⟩
    · exact (Stretch.Fits.tokens hk).left.left.left
    · exact (Stretch.Fits.token hk).right.left.left
    · exact ((Stretch.Fits.token hk).mul (.tokens hm)).right.left
  refine hl.node ?_
  split
  next hi => exact ⟨rfl, hi⟩
  next hi =>
    refine ⟨rfl, ?_, hi⟩
    rcases operatorLast_eq_some h with ⟨hk, _⟩ | ⟨hk, _⟩ | ⟨hk, _⟩
    · revert hk
      show ts.kind i ∈ _ → ts.kind i ∉ _
      generalize ts.kind i = k
      cases k <;> decide
    · simp [hk]
    · simp [hk]

theorem function_makes (hn : nest.Makes ts) : Makes ts (.of .function) (function ts nest) := by
  intro i n h
  unfold function at h
  split at h
  next => cases h
  next hf =>
    obtain ⟨_, _, h⟩ := bind_eq_ok.mp h
    obtain ⟨close, hc, h⟩ := bind_eq_ok.mp h
    obtain ⟨argument, ha, h⟩ := bind_eq_ok.mp h
    cases h
    have hk := mem_functionKinds.mpr (by simpa using hf)
    have hs : Stretch.Fits ts (layout .function) i ⟨[argument], close⟩ :=
      (Stretch.Fits.tokens hk).mul (hn.enclosed hc ha)
    exact hs.node rfl

/-- An expression of a lone operand or call covers the same tokens as that does. -/
theorem enclosed_fits {n : Node} (h : Stretch.Fits ts (child .expression) i (.ofNode n)) :
    (n.collapse [.operand, .function]).last = n.last ∧
      Stretch.Fits ts (role .enclosed) i (.ofNode (n.collapse [.operand, .function])) := by
  obtain ⟨hk, hi, hle, hl⟩ := Stretch.Fits.role_iff.mp h
  rcases n.collapse_cases [.operand, .function] with ⟨c, hc, hck, he⟩ | ⟨he, hck⟩
  · have hs := hl.root
    rw [Node.LaidOut, hk, hc] at hs
    obtain ⟨u, hu, hs⟩ := Form.spans_mul.mp hs
    obtain ⟨d, _, hd, hdl, hcd, hul⟩ := Form.spans_one.mp hu
    obtain ⟨rfl, hn⟩ := List.cons.inj hcd
    have hlast : c.last = n.last := by
      rcases Form.spans_star.mp hs with hs | ⟨v, hs, _⟩
      · cases hs
        simpa using hul.symm
      · rcases (Form.spans_add.mp hs).imp Form.spans_mul.mp Form.spans_mul.mp with
          ⟨_, ho, _⟩ | ⟨_, ho, _⟩ <;> exact (Slot.Takes.children_ne_nil ho hn.symm).elim
    rw [he]
    refine ⟨hlast, Stretch.Fits.role_iff.mpr ⟨?_, hd.symm.trans hi, ?_, hl.child (by simp [hc])⟩⟩
    · have hck : c.kind = .operand ∨ c.kind = .function := by simpa using hck
      exact hck.imp_right .inl
    · omega
  · rw [he]
    refine ⟨rfl, Stretch.Fits.role_iff.mpr ⟨.inr (.inr ⟨hk, ?_⟩), hi, hle, hl⟩⟩
    exact ⟨hck _ (by simp), hck _ (by simp)⟩

theorem enclosedExpression_makes (hn : nest.Makes ts) :
    Makes ts (.of .parenthesis) (enclosedExpression ts nest) := by
  intro i n h
  obtain ⟨close, hc, h⟩ := bind_eq_ok.mp h
  obtain ⟨inner, ha, h⟩ := bind_eq_ok.mp h
  obtain ⟨hi, rfl⟩ := fill_eq_ok.mp ha
  cases h
  have ho := closing_kinds hc
  obtain ⟨hl, hf⟩ := enclosed_fits (hn _ .expression _ _ hi)
  rw [← hl] at ho ⊢
  have hs : Stretch.Fits ts (layout .parenthesis) i
      ⟨[inner.collapse [.operand, .function]], (inner.collapse [.operand, .function]).last + 1⟩ :=
    .parenthesized ho.1 hf ho.2
  exact hs.node rfl

theorem operand_makes (hn : nest.Makes ts) : Makes ts .operand (operand ts nest) := by
  intro i n h
  unfold operand at h
  split at h
  next hk =>
    cases h
    have hs : Stretch.Fits ts (layout .operand) i ⟨[], nameLast ts true i⟩ :=
      (name_fits (by simp) hk).left
    exact hs.node (by simp [Role.Admits])
  split at h
  next hk =>
    cases h
    have hs : Stretch.Fits ts (layout .operand) i ⟨[], i⟩ :=
      (Stretch.Fits.tokens (mem_atoms.mpr hk)).right
    exact hs.node (by simp [Role.Admits])
  split at h
  next => exact (enclosedExpression_makes hn _ _ h).weaken (by simp +contextual [Role.Admits])
  split at h
  next => exact (function_makes hn _ _ h).weaken (by simp +contextual [Role.Admits])
  next => cases h

theorem signedOperand_makes (hn : nest.Makes ts) : Makes ts .signed (signedOperand ts nest) := by
  intro i n h
  unfold signedOperand at h
  split at h
  next => exact (operand_makes hn _ _ h).weaken (List.mem_append_left [NodeKind.unaryOperator])
  next hs =>
    split at h
    next => cases h
    next =>
      obtain ⟨inner, hi, h⟩ := bind_eq_ok.mp h
      cases h
      have hl : Stretch.Fits ts (layout .unaryOperator) i ⟨[inner], inner.last⟩ :=
        (Stretch.Fits.tokens (mem_signs.mpr (by simpa using hs))).mul (operand_makes hn _ _ hi)
      exact hl.node (by simp [Role.Admits])

theorem valueList_makes (hn : nest.Makes ts) : Makes ts (.of .list) (valueList ts nest) := by
  intro i n h
  unfold valueList at h
  split at h
  next => cases h
  next =>
    obtain ⟨close, hc, h⟩ := bind_eq_ok.mp h
    obtain ⟨values, hv, h⟩ := bind_eq_ok.mp h
    split at h
    next he =>
      cases h
      subst he
      have ho := closing_kinds hc
      have hs : Stretch.Fits ts (layout .list) i ⟨values.nodes, values.last + 1⟩ :=
        .parenthesized ho.1 (Makes.commaList (hn _ .expression) hv) ho.2
      exact hs.node rfl
    next => cases h

theorem operation_fits (hn : nest.Makes ts) {last : Nat}
    (h : operation ts nest last = .ok (some s)) :
    Stretch.Fits ts (role .operator * role .signed + role .membership * child .list) (last + 1)
      s := by
  obtain ⟨o, ho, h⟩ := bind_eq_ok.mp h
  cases o with
  | none => cases h
  | some e =>
    have hf := operator_fits ho
    dsimp only at h
    split at h
    next hi =>
      obtain ⟨right, hr, h⟩ := bind_eq_ok.mp h
      cases h
      rw [if_pos hi] at hf
      exact (hf.mul (valueList_makes hn _ _ hr)).right
    next hi =>
      obtain ⟨right, hr, h⟩ := bind_eq_ok.mp h
      cases h
      rw [if_neg hi] at hf
      exact (hf.mul (signedOperand_makes hn _ _ hr)).left

theorem expression_makes (hn : nest.Makes ts) :
    Makes ts (.of .expression) (expression ts nest) := by
  intro i n h
  obtain ⟨s, hs, h⟩ := bind_eq_ok.mp h
  cases h
  have hl : Stretch.Fits ts (layout .expression) i s :=
    (signedOperand_makes hn).chain_star (fun _ _ => operation_fits hn) hs
  exact hl.node rfl

end Rule

end SqlSelect
