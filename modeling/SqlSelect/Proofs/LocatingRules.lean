import SqlSelect.Proofs.Locating

namespace SqlSelect

open Nonterminal

namespace Rule

variable {ts : TokenList} {nest : Nest} {i : Nat} {x : Fault}

theorem function_locates (hn : nest.Makes ts) (hl : nest.Locates ts) :
    Locates ts (.part .function) (function ts nest) := by
  intro i x h hx
  refine .part ?_
  unfold function at h
  split at h
  next =>
    cases h
    exact .here
  next hk =>
    refine .kinds_mul (mem_functionKinds.mpr (by simpa using hk)) ?_
    rcases bind_eq_error.mp h with h | ⟨_, ho, h⟩
    · cases expect_eq_error h
      exact .here
    have ho := expect_eq_ok.mp ho
    obtain ⟨close, _, h⟩ := closing_bind_eq_error ho h hx
    exact hl.enclosed (e := .expression) hn ho (bind_ok_eq_error.mp h) hx

theorem enclosedExpression_locates (hn : nest.Makes ts) (hl : nest.Locates ts)
    (ho : ts.kind i = .leftParen) (h : enclosedExpression ts nest i = .error x) (hx : x.Misfit) :
    ts.Located (Phrase.parenthesized (.part .expression)) i x := by
  obtain ⟨close, _, h⟩ := closing_bind_eq_error ho h hx
  exact hl.enclosed (e := .expression) hn ho (bind_ok_eq_error.mp h) hx

theorem operand_locates (hn : nest.Makes ts) (hl : nest.Locates ts) :
    Locates ts (.part .operand) (operand ts nest) := by
  intro i x h hx
  unfold operand at h
  split at h
  next => cases h
  split at h
  next => cases h
  split at h
  next ho => exact .part ((enclosedExpression_locates hn hl ho h hx).mono fun _ => .right)
  split at h
  next =>
    exact .part ((function_locates hn hl i x h hx).mono fun _ h => h.right.left)
  next =>
    cases h
    exact .here

theorem signedOperand_locates (hn : nest.Makes ts) (hl : nest.Locates ts) :
    Locates ts signed (signedOperand ts nest) := by
  intro i x h hx
  unfold signedOperand at h
  split at h
  next => exact .after .skip (operand_locates hn hl i x h hx)
  next hk =>
    have hs : ts.Spells (.opt (Phrase.kinds [.plus, .minus])) i (i + 1) :=
      .take (TokenList.spells_kinds.mpr ⟨mem_signs.mpr (by simpa using hk), rfl⟩)
    refine .after hs ?_
    split at h
    next =>
      cases h
      exact .here
    next =>
      exact operand_locates hn hl _ x (bind_ok_eq_error.mp h) hx

theorem valueList_locates (hn : nest.Makes ts) (hl : nest.Locates ts) :
    Locates ts (.part .list) (valueList ts nest) := by
  intro i x h hx
  unfold valueList at h
  split at h
  next =>
    cases h
    exact .here
  next ho =>
    have ho : ts.kind i = .leftParen := Classical.not_not.mp ho
    have hfinds : Finds ts (.part .expression) (nest i .expression) :=
      fun j n h => (hn i .expression j n h).spells
    refine .part (.parenthesized ho ?_)
    obtain ⟨close, _, h⟩ := closing_bind_eq_error ho h hx
    rcases bind_eq_error.mp h with h | ⟨values, hv, h⟩
    · exact (hl i .expression).commaList hfinds h hx
    · split at h
      next => cases h
      next =>
        cases h
        exact .inl (Makes.commaList (hn i .expression) hv).spells.begins

/-- What is complained about after `NOT` is no operator that `NOT` may stand before. -/
theorem operatorLast_eq_error (h : operatorLast ts i = .error x) :
    ts.kind i = .not ∧ (ts.kind (i + 1)).isNegatable = false ∧
      x = ⟨.expected .operatorAfterNot, i + 1⟩ := by
  unfold operatorLast at h
  split at h
  next => cases h
  split at h
  next hn =>
    split at h
    next => cases h
    next hk =>
      cases h
      exact ⟨hn, Bool.eq_false_iff.mpr hk, rfl⟩
  next => cases h

theorem operator_spells {e : Nat} (h : operatorLast ts i = .ok (some e)) :
    if ts.kind e = .in then ts.Spells membership i (e + 1)
    else ts.Spells (.part .operator) i (e + 1) := by
  have hf := (operator_fits h).spells
  split at hf
  next hi =>
    rw [if_pos hi]
    exact hf
  next hi =>
    rw [if_neg hi]
    exact hf

theorem begins_operation (hk : ts.kind i = .not) :
    ts.Begins (.part .operator * signed + membership * .part .list) i (i + 1) :=
  .left (.mul (.part (.right (.kind_mul hk (TokenList.begins_self _)))))

theorem operation_locates (hn : nest.Makes ts) (hl : nest.Locates ts) :
    LocatesAfter ts (.part .operator * signed + membership * .part .list)
      (operation ts nest) := by
  intro last x h hx
  rcases bind_eq_error.mp h with h | ⟨o, ho, h⟩
  · obtain ⟨hk, _, rfl⟩ := operatorLast_eq_error h
    exact .inl (begins_operation hk)
  cases o with
  | none => cases h
  | some e =>
    have hs := operator_spells ho
    dsimp only at h
    split at h
    next hi =>
      rw [if_pos hi] at hs
      have hv := valueList_locates hn hl _ x (bind_ok_eq_error.mp h) hx
      exact (TokenList.Located.after hs hv).mono fun _ => .right
    next hi =>
      rw [if_neg hi] at hs
      have ho := signedOperand_locates hn hl _ x (bind_ok_eq_error.mp h) hx
      exact (TokenList.Located.after hs ho).mono fun _ => .left

theorem expression_locates (hn : nest.Makes ts) (hl : nest.Locates ts) :
    Locates ts (.part .expression) (expression ts nest) := by
  intro i x h hx
  exact .part ((signedOperand_locates hn hl).chain_star (signedOperand_greedy hn).finds
    (operation_locates hn hl) (operation_greedy hn).finds (bind_ok_eq_error.mp h) hx)

theorem plainTerm_locates (hn : nest.Makes ts) (hl : nest.Locates ts)
    (h : plainTerm ts nest i = .error x) (hx : x.Misfit) :
    ts.Located (.part .conditionTerm) i x :=
  .part ((expression_locates hn hl i x (bind_ok_eq_error.mp h) hx).mono fun _ => .right)

/-- Only where there is an expression in a parenthesis can `NOT` follow it. -/
theorem not_located {close : Nat} (ho : closing ts i = .ok close)
    (h : operatorLast ts (close + 1) = .error x) : ts.Located (.part .conditionTerm) i x := by
  obtain ⟨hk, hnext, rfl⟩ := operatorLast_eq_error h
  have hopen := (closing_kinds ho).1
  by_cases hs : ts.Spells (.part .expression) (i + 1) close
  · have hsigned : ts.Spells signed i (close + 1) :=
      .seq .skip (.part (.right (TokenList.spells_parenthesized.mpr
        ⟨hopen, close, hs, (closing_kinds ho).2, rfl⟩)))
    exact .inl (.part (.right (.part (.after hsigned (begins_operation hk).step))))
  · refine .inr ⟨i, .part (.left (.parenthesized hopen (TokenList.begins_self _))), rfl, close, ho,
      hk, hnext, rfl, hs⟩

theorem term_locates (hn : nest.Makes ts) (hl : nest.Locates ts)
    (h : term ts nest i = .error x) (hx : x.Misfit) :
    ts.Located (.part .conditionTerm) i x := by
  unfold term at h
  split at h
  next ho =>
    obtain ⟨close, hc, h⟩ := closing_bind_eq_error ho h hx
    rcases bind_eq_error.mp h with h | ⟨o, _, h⟩
    · exact not_located hc h
    cases o with
    | none =>
      have hc := hl.enclosed (e := .condition) hn ho (bind_ok_eq_error.mp h) hx
      exact .part (hc.mono fun _ => .left)
    | some => exact plainTerm_locates hn hl h hx
  next => exact plainTerm_locates hn hl h hx

theorem connected_locates (hn : nest.Makes ts) (hl : nest.Locates ts) :
    LocatesAfter ts (Phrase.kinds [.and, .or] * .part .conditionTerm) (connected ts nest) := by
  intro last x h hx
  unfold connected at h
  split at h
  next => cases h
  next hk =>
    refine .kinds_mul (mem_connectives.mpr (by simpa using hk)) ?_
    split at h
    next =>
      cases h
      exact .here
    next =>
      exact term_locates hn hl (bind_ok_eq_error.mp h) hx

theorem condition_locates (hn : nest.Makes ts) (hl : nest.Locates ts) :
    Locates ts (.part .condition) (condition ts nest) := by
  intro i x h hx
  refine .part ?_
  rcases bind_eq_error.mp h with h | ⟨first, hf, h⟩
  · exact (term_locates hn hl h hx).mul
  exact .after (term_longest hn hf).spells
    ((connected_locates hn hl).many_star (connected_greedy hn).finds (bind_ok_eq_error.mp h) hx)

end Rule

end SqlSelect
