import SqlSelect.Parser

namespace SqlSelect

/-- Two token lists that have the same kinds of tokens in the same places, where a number has a
value in both or in neither. -/
structure TokenList.Alike (ts ts' : TokenList) : Prop where
  size_eq : ts.size = ts'.size
  kind_eq (i : Nat) : ts.kind i = ts'.kind i
  value_eq (i : Nat) : ts.kind i = .number →
    (unsigned? (ts.token i).text).isSome = (unsigned? (ts'.token i).text).isSome

section

variable {ts ts' : TokenList} (h : ts.Alike ts')

include h

theorem expect_alike : expect ts = expect ts' := by
  funext k i
  simp only [expect, h.kind_eq]

theorem announced_alike : announced ts = announced ts' := by
  funext p rule last
  simp only [announced, h.kind_eq]

theorem commaList_alike : commaList ts = commaList ts' := by
  funext item start
  have hc : afterComma ts = afterComma ts' := by
    funext item last
    simp only [afterComma, announced_alike h]
  rw [commaList, commaList, h.size_eq, hc]

theorem nameLast_alike : nameLast ts = nameLast ts' := by
  funext star start
  simp only [nameLast, h.kind_eq]

theorem closeFrom_alike (bound i inner : Nat) (outer : List Nat) :
    closeFrom ts bound i inner outer = closeFrom ts' bound i inner outer := by
  induction bound generalizing i inner outer with
  | zero => rfl
  | succ bound ih => simp only [closeFrom, h.kind_eq, ih]

theorem closing_alike : closing ts = closing ts' := by
  funext start
  simp only [closing, h.kind_eq, h.size_eq, closeFrom_alike h]

namespace Rule

variable {nest : Nest}

theorem parenthesis_alike : parenthesis ts = parenthesis ts' := by
  funext start
  simp only [parenthesis, closing_alike h]

theorem operatorLast_alike : operatorLast ts = operatorLast ts' := by
  funext i
  simp only [operatorLast, h.kind_eq]

theorem function_alike : function ts nest = function ts' nest := by
  funext start
  simp only [function, h.kind_eq, expect_alike h, closing_alike h]

theorem operand_alike : operand ts nest = operand ts' nest := by
  funext start
  simp only [operand, enclosedExpression, h.kind_eq, nameLast_alike h, closing_alike h,
    function_alike h]

theorem signedOperand_alike : signedOperand ts nest = signedOperand ts' nest := by
  funext start
  simp only [signedOperand, h.kind_eq, operand_alike h]

theorem valueList_alike : valueList ts nest = valueList ts' nest := by
  funext start
  simp only [valueList, h.kind_eq, closing_alike h, commaList_alike h]

theorem expression_alike : expression ts nest = expression ts' nest := by
  have ho : operation ts nest = operation ts' nest := by
    funext last
    simp only [operation, h.kind_eq, operatorLast_alike h, valueList_alike h,
      signedOperand_alike h]
  funext start
  simp only [expression, h.size_eq, signedOperand_alike h, ho]

theorem term_alike : term ts nest = term ts' nest := by
  funext start
  simp only [term, plainTerm, h.kind_eq, closing_alike h, operatorLast_alike h,
    expression_alike h]

theorem condition_alike : condition ts nest = condition ts' nest := by
  have hc : connected ts nest = connected ts' nest := by
    funext last
    simp only [connected, h.kind_eq, term_alike h]
  funext start
  simp only [condition, h.size_eq, term_alike h, hc]

theorem aliased_alike : aliased ts = aliased ts' := by
  have ha : aliasAfter ts = aliasAfter ts' := by
    funext last
    simp only [aliasAfter, h.kind_eq]
  funext rule start
  simp only [aliased, ha]

theorem source_alike : source ts nest = source ts' nest := by
  funext start
  simp only [source, subquery, h.kind_eq, nameLast_alike h, closing_alike h]

theorem fromClause_alike : fromClause ts nest = fromClause ts' nest := by
  funext start
  simp only [fromClause, expect_alike h, aliased_alike h, source_alike h]

theorem joinClause_alike : joinClause ts nest = joinClause ts' nest := by
  have ho : onCondition ts nest = onCondition ts' nest := by
    funext last
    simp only [onCondition, announced_alike h, condition_alike h]
  funext start
  simp only [joinClause, h.kind_eq, aliased_alike h, source_alike h, ho]

theorem conditionClause_alike : conditionClause ts nest = conditionClause ts' nest := by
  funext keyword kind start
  simp only [conditionClause, expect_alike h, condition_alike h]

theorem columnsClause_alike : columnsClause ts = columnsClause ts' := by
  have hd : direction ts = direction ts' := by
    funext last
    simp only [direction, h.kind_eq]
  have hn : columnName ts = columnName ts' := by
    funext start
    simp only [columnName, h.kind_eq, nameLast_alike h]
  have hc : orderedColumn ts = orderedColumn ts' := by
    funext start
    simp only [orderedColumn, hn, hd]
  funext keyword kind start
  simp only [columnsClause, expect_alike h, commaList_alike h, hc]

theorem limitArgument_alike : limitArgument ts = limitArgument ts' := by
  funext i
  by_cases hk : ts.kind i = .number
  · simp only [limitArgument, h.value_eq i hk, h.kind_eq]
  · have hk' : ts'.kind i ≠ .number := h.kind_eq i ▸ hk
    simp only [limitArgument, hk, hk', decide_false, Bool.false_and]

theorem limitClause_alike : limitClause ts = limitClause ts' := by
  have ho : offsetArgument ts = offsetArgument ts' := by
    funext last
    simp only [offsetArgument, announced_alike h, limitArgument_alike h]
  funext start
  simp only [limitClause, expect_alike h, limitArgument_alike h, ho]

theorem field_alike : field ts nest = field ts' nest := by
  funext start
  simp only [field, aliased_alike h, expression_alike h]

theorem selectClause_alike : selectClause ts nest = selectClause ts' nest := by
  funext start
  simp only [selectClause, expect_alike h, commaList_alike h, field_alike h]

theorem selectQuery_alike : selectQuery ts nest = selectQuery ts' nest := by
  have hc (cs : List (TokenKind × Rule)) : clauses ts cs = clauses ts' cs := by
    induction cs with
    | nil => rfl
    | cons c cs ih =>
      funext last
      simp only [clauses, announced_alike h, ih]
  have ho : optionalClauses ts nest = optionalClauses ts' nest := by
    simp only [optionalClauses, whereClause, havingClause, groupByClause, orderByClause,
      conditionClause_alike h, columnsClause_alike h, limitClause_alike h]
  funext start
  simp only [selectQuery, h.size_eq, selectClause_alike h, fromClause_alike h, joinClause_alike h,
    announced_alike h, hc, ho]

theorem query_alike : query ts nest = query ts' nest := by
  have ha : arm ts nest = arm ts' nest := by
    funext union
    simp only [arm, h.kind_eq, selectQuery_alike h]
  funext start
  simp only [query, h.size_eq, selectQuery_alike h, announced_alike h, ha]

end Rule

theorem Production.rule_alike (part : Production) (nest : Nest) :
    part.rule ts nest = part.rule ts' nest := by
  cases part with
  | query => exact Rule.query_alike h
  | selectQuery => exact Rule.selectQuery_alike h
  | select => exact Rule.selectClause_alike h
  | field => exact Rule.field_alike h
  | «from» => exact Rule.fromClause_alike h
  | source => exact Rule.source_alike h
  | join => exact Rule.joinClause_alike h
  | «where» =>
    show Rule.conditionClause ts nest _ _ = Rule.conditionClause ts' nest _ _
    rw [Rule.conditionClause_alike h]
  | having =>
    show Rule.conditionClause ts nest _ _ = Rule.conditionClause ts' nest _ _
    rw [Rule.conditionClause_alike h]
  | condition => exact Rule.condition_alike h
  | expression => exact Rule.expression_alike h
  | function => exact Rule.function_alike h
  | parenthesis => exact Rule.parenthesis_alike h
  | groupBy =>
    show Rule.columnsClause ts _ _ = Rule.columnsClause ts' _ _
    rw [Rule.columnsClause_alike h]
  | orderBy =>
    show Rule.columnsClause ts _ _ = Rule.columnsClause ts' _ _
    rw [Rule.columnsClause_alike h]
  | limit => exact Rule.limitClause_alike h

theorem nested_alike (depth : Nat) : nested ts depth = nested ts' depth := by
  induction depth with
  | zero => rfl
  | succ depth ih =>
    funext blame e
    simp only [nested, Production.rule_alike h, ih]

/-- Parsing sees no more of the tokens than their kinds and which numbers have a value. -/
theorem Production.run_alike (part : Production) (depth : Nat) :
    part.run ts depth = part.run ts' depth := by
  simp only [run, nested_alike h, rule_alike h]

theorem Parser.complete_alike (options : Options) :
    (Parser.mk ts options).complete = (Parser.mk ts' options).complete := by
  have hend (last : Nat) : queryEnd ts last = queryEnd ts' last := by
    simp only [queryEnd, h.kind_eq]
  simp only [complete, Production.run_alike h, hend, h.kind_eq]

end

end SqlSelect
