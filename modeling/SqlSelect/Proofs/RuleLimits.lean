import SqlSelect.Proofs.Limited
import SqlSelect.Proofs.QueryLayout

namespace SqlSelect

theorem closeFrom_complaint {ts : TokenList} {bound i inner : Nat} {outer : List Nat} {f : Fault}
    (h : closeFrom ts bound i inner outer = .error f) : f.complaint = .unclosed := by
  induction bound generalizing i inner outer with
  | zero =>
    cases h
    rfl
  | succ bound ih =>
    unfold closeFrom at h
    split at h
    next => exact ih h
    next =>
      split at h
      next => cases h
      next => exact ih h
    next =>
      cases h
      rfl
    next => exact ih h

theorem closing_complaint {ts : TokenList} {start : Nat} {f : Fault}
    (ho : ts.kind start = .leftParen) (h : closing ts start = .error f) :
    f.complaint = .unclosed := by
  unfold closing at h
  rw [if_pos ho] at h
  exact closeFrom_complaint h

theorem closing_ne_tooDeep {ts : TokenList} {start : Nat} (q : Nat) :
    closing ts start ≠ .error ⟨.tooDeep, q⟩ := by
  intro h
  unfold closing at h
  split at h
  next =>
    have hc := closeFrom_complaint h
    cases hc
  next => cases h

/-- What a parenthesis encloses, whatever is made of it. -/
theorem Nest.Limits.enclosed {β : Type} {ts : TokenList} {d p blame : Nat} {nest nest' : Nest}
    {last : β → Nat} {make : Nat → Node → β} (hn : nest.Limits ts d nest')
    (hb : ts.Blames p blame) (hl : ∀ close n, last (make close n) = close) (e : Enclosed)
    (x : Expectation) :
    Limited ts d p last
      (closing ts p >>= fun close => SqlSelect.fill nest blame e (p + 1) close x >>= fun n =>
        .ok (make close n))
      (closing ts p >>= fun close => SqlSelect.fill nest' blame e (p + 1) close x >>= fun n =>
        .ok (make close n)) := by
  refine .same closing_ne_tooDeep fun close hc => ?_
  obtain ⟨ho, hc⟩ := closing_kinds hc
  refine (hn.fill ho hb hc e x).bind fun n h => .ok ?_
  rw [hl, (fill_eq_ok.mp h).2]
  exact .refl d _

namespace Rule

variable {ts : TokenList} {d i : Nat} {nest nest' : Nest}

theorem operatorLast_ne_tooDeep (q : Nat) : operatorLast ts i ≠ .error ⟨.tooDeep, q⟩ := by
  unfold operatorLast
  split
  next => exact nofun
  next =>
    split
    next =>
      split
      next => exact nofun
      next => exact nofun
    next => exact nofun

theorem nameLast_within {star : Bool} (h : ts.kind i = .literal) :
    ts.Within d i (nameLast ts star i + 1) := by
  have hi : ts.Within d i (i + 1) := .token (by simp [h])
  rcases nameLast_cases ts star i with he | ⟨he, hd, hm⟩
  · rw [he]
    exact hi
  · have hm : ts.kind (i + 2) ∉ [TokenKind.leftParen, .rightParen] := by
      rcases hm with hm | ⟨_, hm⟩ <;> simp [hm]
    rw [he]
    exact (hi.trans (.token (by simp [hd]))).trans (.token hm)

theorem operatorLast_within {e : Nat} (h : operatorLast ts i = .ok (some e)) :
    ts.Within d i (e + 1) := by
  have hk {k : TokenKind} (h : k ∈ Nonterminal.operatorKinds) :
      k ∉ [TokenKind.leftParen, .rightParen] := by
    revert h
    cases k <;> decide
  rcases operatorLast_eq_some h with ⟨ho, rfl⟩ | ⟨ho, rfl⟩ | ⟨ho, hm, rfl⟩
  · exact .token (hk ho)
  · exact .token (by simp [ho])
  · exact .trans (.token (by simp [ho])) (.token (not_mem_parentheses (mem_negatable.mp hm) rfl rfl))

theorem function_limited (hn : nest.Limits ts d nest') :
    (function ts nest).Limits ts d (function ts nest') := by
  intro i
  unfold function
  split
  next => exact .expected
  next hf =>
    have hf : (ts.kind i).isFunction = true := by simpa using hf
    refine .token (not_mem_parentheses hf rfl rfl) (.same expect_ne_tooDeep fun _ _ => ?_)
    exact hn.enclosed (.inr ⟨rfl, hf⟩) (fun _ _ => rfl) .expression .callEnd

theorem enclosedExpression_limited (hn : nest.Limits ts d nest') :
    (enclosedExpression ts nest).Limits ts d (enclosedExpression ts nest') := fun _ =>
  hn.enclosed (.inl rfl) (fun _ _ => rfl) .expression .expressionEnd

theorem operand_limited (hn : nest.Limits ts d nest') :
    (operand ts nest).Limits ts d (operand ts nest') := by
  intro i
  unfold operand
  split
  next hk => exact .ok (nameLast_within hk)
  split
  next hk => exact .ok (.token (not_mem_parentheses hk rfl rfl))
  split
  next => exact enclosedExpression_limited hn i
  split
  next => exact function_limited hn i
  next => exact .expected

theorem signedOperand_limited (hn : nest.Limits ts d nest') :
    (signedOperand ts nest).Limits ts d (signedOperand ts nest') := by
  intro i
  unfold signedOperand
  split
  next => exact operand_limited hn i
  next hs =>
    have hs : (ts.kind i).isSign = true := by simpa using hs
    split
    next => exact .error nofun
    next =>
      refine .token (not_mem_parentheses hs rfl rfl) ?_
      exact (operand_limited hn (i + 1)).bind fun n _ => .ok (.refl d _)

theorem valueList_limited (hn : nest.Limits ts d nest') :
    (valueList ts nest).Limits ts d (valueList ts nest') := by
  intro i
  unfold valueList
  split
  next => exact .expected
  next =>
    refine .same closing_ne_tooDeep fun close hc => ?_
    obtain ⟨ho, hc⟩ := closing_kinds hc
    have hi := Inside.commaList (hn i .expression) (i + 1)
    refine hi.parenthesized ho (.inl rfl) fun values => ?_
    by_cases hl : values.last + 1 = close
    · exact .inl ⟨_, if_pos hl, hl.symm, hl ▸ hc⟩
    · exact .inr ⟨_, if_neg hl, nofun⟩

theorem operation_limited (hn : nest.Limits ts d nest') :
    StepLimits ts d (operation ts nest) (operation ts nest') := by
  intro last
  refine .same operatorLast_ne_tooDeep fun o ho => ?_
  cases o with
  | none => exact .ok (.refl d _)
  | some e =>
    refine .after (operatorLast_within ho) ?_
    dsimp only
    split
    next => exact (valueList_limited hn (e + 1)).bind fun n _ => .ok (.refl d _)
    next => exact (signedOperand_limited hn (e + 1)).bind fun n _ => .ok (.refl d _)

theorem expression_limited (hn : nest.Limits ts d nest') :
    (expression ts nest).Limits ts d (expression ts nest') := fun i =>
  ((signedOperand_limited hn).chain (operation_limited hn) ts.size i).bind
    fun _ _ => .ok (.refl d _)

theorem enclosedCondition_limited (hn : nest.Limits ts d nest') {close : Nat}
    (ho : ts.kind i = .leftParen) (hc : ts.kind close = .rightParen) :
    Limited ts d i Stretch.last (enclosedCondition nest i close)
      (enclosedCondition nest' i close) := by
  refine (hn.fill ho (.inl rfl) hc .condition .conditionEnd).bind fun n h => ?_
  obtain ⟨_, rfl⟩ := fill_eq_ok.mp h
  exact .ok (.refl d _)

theorem plainTerm_limited (hn : nest.Limits ts d nest') (i : Nat) :
    Limited ts d i Stretch.last (plainTerm ts nest i) (plainTerm ts nest' i) :=
  (expression_limited hn i).bind fun _ _ => .ok (.refl d _)

theorem term_limited (hn : nest.Limits ts d nest') (i : Nat) :
    Limited ts d i Stretch.last (term ts nest i) (term ts nest' i) := by
  unfold term
  split
  next =>
    refine .same closing_ne_tooDeep fun close hc => ?_
    refine .same operatorLast_ne_tooDeep fun o _ => ?_
    obtain ⟨ho, hc⟩ := closing_kinds hc
    cases o with
    | none => exact enclosedCondition_limited hn ho hc
    | some e => exact plainTerm_limited hn i
  next => exact plainTerm_limited hn i

theorem connected_limited (hn : nest.Limits ts d nest') :
    StepLimits ts d (connected ts nest) (connected ts nest') := by
  intro last
  unfold connected
  split
  next => exact .ok (.refl d _)
  next hk =>
    have hk : (ts.kind (last + 1)).isConnective = true := by simpa using hk
    split
    next => exact .error nofun
    next =>
      refine .token (not_mem_parentheses hk rfl rfl) ?_
      exact (term_limited hn (last + 2)).bind fun s _ => .ok (.refl d _)

theorem condition_limited (hn : nest.Limits ts d nest') :
    (condition ts nest).Limits ts d (condition ts nest') := fun i =>
  (term_limited hn i).bind fun first _ =>
    ((connected_limited hn).many ts.size first.last).bind fun _ _ => .ok (.refl d _)

theorem subquery_limited (hn : nest.Limits ts d nest') :
    (subquery ts nest).Limits ts d (subquery ts nest') := fun _ =>
  hn.enclosed (.inl rfl) (fun _ _ => rfl) .selectQuery .subqueryEnd

theorem source_limited (hn : nest.Limits ts d nest') :
    (source ts nest).Limits ts d (source ts nest') := by
  intro i
  unfold source
  split
  next hk => exact .ok (nameLast_within hk)
  split
  next => exact subquery_limited hn i
  next => exact .expected

theorem aliasAfter_limited : StepLimits ts d (aliasAfter ts) (aliasAfter ts) := by
  intro last
  unfold aliasAfter
  split
  next ha =>
    split
    next hl => exact .ok (.trans (.token (by simp [ha])) (.token (by simp [hl])))
    next => exact .expected
  next =>
    split
    next hl => exact .ok (.token (by simp [hl]))
    next => exact .ok (.refl d _)

theorem fromClause_limited (hn : nest.Limits ts d nest') :
    (fromClause ts nest).Limits ts d (fromClause ts nest') := fun i =>
  .expect (by decide) (((source_limited hn).chain aliasAfter_limited 1 (i + 1)).bind
    fun _ _ => .ok (.refl d _))

theorem joinClause_limited (hn : nest.Limits ts d nest') :
    (joinClause ts nest).Limits ts d (joinClause ts nest') := by
  intro i
  unfold joinClause
  split
  next => exact .expected
  next hk =>
    have hk : (ts.kind i).isJoin = true := by simpa using hk
    refine .token (not_mem_parentheses hk rfl rfl) ?_
    refine ((source_limited hn).chain aliasAfter_limited 1 (i + 1)).bind fun s _ => ?_
    have hon := (condition_limited hn).announced_after (· == .on) rfl rfl
    exact (hon.many 1 s.last).bind fun _ _ => .ok (.refl d _)

theorem conditionClause_limited (hn : nest.Limits ts d nest') {keyword : TokenKind}
    {k : NodeKind} (hk : keyword ∉ [TokenKind.leftParen, .rightParen]) :
    (conditionClause ts nest keyword k).Limits ts d (conditionClause ts nest' keyword k) :=
  fun i => .expect hk ((condition_limited hn (i + 1)).bind fun _ _ => .ok (.refl d _))

theorem columnName_limited : (columnName ts).Limits ts d (columnName ts) := by
  intro i
  unfold columnName
  split
  next hk => exact .ok (nameLast_within hk)
  next => exact .expected

theorem direction_limited : StepLimits ts d (direction ts) (direction ts) := by
  intro last
  unfold direction
  split
  next hk =>
    refine .ok (.token ?_)
    have hk : ts.kind (last + 1) = .asc ∨ ts.kind (last + 1) = .desc := by simpa using hk
    rcases hk with hk | hk <;> simp [hk]
  next => exact .ok (.refl d _)

theorem orderedColumn_limited : (orderedColumn ts).Limits ts d (orderedColumn ts) := fun i =>
  (columnName_limited.chain direction_limited 1 i).bind fun _ _ => .ok (.refl d _)

theorem columnsClause_limited {keyword : TokenKind} {k : NodeKind}
    (hk : keyword ∉ [TokenKind.leftParen, .rightParen]) :
    (columnsClause ts keyword k).Limits ts d (columnsClause ts keyword k) := fun i =>
  .expect hk ((orderedColumn_limited.commaList (i + 1)).bind fun _ _ => .ok (.refl d _))

theorem limitArgument_limited : (limitArgument ts).Limits ts d (limitArgument ts) := by
  intro i
  unfold limitArgument
  split
  next hk =>
    have hk : ts.kind i = .number ∧ (unsigned? (ts.token i).text).isSome = true := by
      simpa using hk
    exact .ok (.token (by simp [hk.1]))
  next => exact .error nofun

theorem limitClause_limited : (limitClause ts).Limits ts d (limitClause ts) := fun i =>
  have hoffset := limitArgument_limited.announced_after (fun k => k == .comma || k == .offset)
    rfl rfl
  .expect (by decide) ((limitArgument_limited.chain hoffset 1 (i + 1)).bind
    fun _ _ => .ok (.refl d _))

theorem field_limited (hn : nest.Limits ts d nest') :
    (field ts nest).Limits ts d (field ts nest') := fun i =>
  ((expression_limited hn).chain aliasAfter_limited 1 i).bind fun _ _ => .ok (.refl d _)

theorem selectClause_limited (hn : nest.Limits ts d nest') :
    (selectClause ts nest).Limits ts d (selectClause ts nest') := fun i =>
  .expect (by decide) (((field_limited hn).commaList (i + 1)).bind fun _ _ => .ok (.refl d _))

def ClausesLimits (ts : TokenList) (d : Nat) (cs cs' : List (TokenKind × Rule)) : Prop :=
  ∀ last, Limited ts d (last + 1) Stretch.last (clauses ts cs last) (clauses ts cs' last)

theorem clauses_nil_limited : ClausesLimits ts d [] [] := fun _ => .ok (.refl d _)

theorem clauses_cons_limited {keyword : TokenKind} {rule rule' : Rule}
    {cs cs' : List (TokenKind × Rule)} (hr : rule.Limits ts d rule')
    (hcs : ClausesLimits ts d cs cs') :
    ClausesLimits ts d ((keyword, rule) :: cs) ((keyword, rule') :: cs') := fun last =>
  ((hr.announced (· == keyword)).many 1 last).bind fun s _ =>
    (hcs s.last).bind fun _ _ => .ok (.refl d _)

theorem optionalClauses_limited (hn : nest.Limits ts d nest') :
    ClausesLimits ts d (optionalClauses ts nest) (optionalClauses ts nest') :=
  clauses_cons_limited (conditionClause_limited hn (by decide)) <|
    clauses_cons_limited (columnsClause_limited (by decide)) <|
    clauses_cons_limited (conditionClause_limited hn (by decide)) <|
    clauses_cons_limited (columnsClause_limited (by decide)) <|
    clauses_cons_limited limitClause_limited clauses_nil_limited

theorem selectQuery_limited (hn : nest.Limits ts d nest') :
    (selectQuery ts nest).Limits ts d (selectQuery ts nest') := fun i =>
  (selectClause_limited hn i).bind fun select _ =>
    (fromClause_limited hn (select.last + 1)).bind fun source _ =>
    (((joinClause_limited hn).announced TokenKind.isJoin).many ts.size source.last).bind
      fun joins _ => (optionalClauses_limited hn joins.last).bind fun _ _ => .ok (.refl d _)

/-- An arm begins with the token before its query. -/
theorem arm_limited (hn : nest.Limits ts d nest') :
    StepLimits ts d (announced ts (· == .union) (arm ts nest))
      (announced ts (· == .union) (arm ts nest')) := by
  intro last
  unfold announced arm
  split
  next hk =>
    refine .token (not_mem_parentheses (p := (· == .union)) hk rfl rfl) ?_
    split
    next => exact .error nofun
    next => exact (selectQuery_limited hn (last + 2)).bind fun _ _ => .ok (.refl d _)
  next => exact .ok (.refl d _)

theorem query_limited (hn : nest.Limits ts d nest') :
    (query ts nest).Limits ts d (query ts nest') := fun i =>
  ((selectQuery_limited hn).chain (arm_limited hn) ts.size i).bind fun _ _ => .ok (.refl d _)

end Rule

end SqlSelect
