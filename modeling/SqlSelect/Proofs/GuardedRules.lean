import SqlSelect.Proofs.Tracking

namespace SqlSelect

namespace Rule

variable {ts : TokenList} {i : Nat} {nest : Nest} {gn : Guarded.Nest}

theorem expected_tracks {α : Type} {P : α → Prop} {e : Expectation} :
    Tracks P (Guarded.expected ts e i) (Fault.expected e i) := Guarded.complain_tracks

theorem nameLast_tracks (h : ts.kind i = .literal) (star : Bool) {k : NodeKind} :
    Tracks (fun n => ts.Covers i n.last)
      (Guarded.nameLast ts star i >>= fun last => Guarded.leaf ts k i last)
      (.ok (.leaf k i (nameLast ts star i))) := by
  have hi : ts.Covers i i := .token (by simp [h])
  unfold Guarded.nameLast nameLast
  rw [Guarded.ahead_bind hi.last_lt, Guarded.kind_bind, Guarded.ahead_bind hi.last_lt,
    Guarded.kind_bind]
  split
  next hq =>
    have hq : ts.kind (i + 1) = .dot ∧
        (ts.kind (i + 2) = .literal ∨ star = true ∧ ts.kind (i + 2) = .star) := by simpa using hq
    have hm : ts.kind (i + 2) ≠ .eof := by
      rcases hq.2 with hm | ⟨_, hm⟩ <;> simp [hm]
    exact Guarded.node_tracks ((hi.next (by simp [hq.1])).next hm)
  next => exact Guarded.node_tracks hi

theorem operatorLast_tracks (i : Nat) : Tracks (fun o => ∀ e ∈ o, ts.Covers i e)
    (Guarded.operatorLast ts i) (operatorLast ts i) := by
  unfold Guarded.operatorLast operatorLast
  rw [Guarded.kind_bind]
  split
  next ho =>
    have hi : ts.Covers i i := .token (TokenKind.ne_eof ho rfl)
    exact .ok fun _ he => Option.mem_some_iff.mp he ▸ hi
  split
  next hn =>
    have hi : ts.Covers i i := .token (by simp [hn])
    rw [Guarded.ahead_bind hi.last_lt, Guarded.kind_bind]
    split
    next hk =>
      have hi := hi.next (TokenKind.ne_eof hk rfl)
      exact .ok fun _ he => Option.mem_some_iff.mp he ▸ hi
    next => exact expected_tracks
  next => exact .ok nofun

theorem function_tracked (hn : nest.Tracked ts gn) :
    (function ts nest).Tracked ts (Guarded.function ts gn) := by
  intro i
  unfold function Guarded.function
  rw [Guarded.kind_bind]
  split
  next => exact expected_tracks
  next hf =>
    have hi : ts.Covers i i := .token (TokenKind.ne_eof (by simpa using hf) rfl)
    rw [Guarded.ahead_bind hi.last_lt]
    refine Guarded.expect_tracks.bind fun _ _ => (closing_tracks (i + 1)).bind fun close hc => ?_
    rw [Guarded.ahead_bind hi.last_lt]
    exact hn.fill.bind fun _ _ => Guarded.node_tracks (hi.append hc)

theorem enclosedExpression_tracked (hn : nest.Tracked ts gn) :
    (enclosedExpression ts nest).Tracked ts (Guarded.enclosedExpression ts gn) := by
  intro i
  refine (closing_tracks i).bind fun close hc => ?_
  rw [Guarded.ahead_bind hc.first_lt]
  exact hn.fill.bind fun _ _ => Guarded.node_tracks hc

theorem operand_tracked (hn : nest.Tracked ts gn) :
    (operand ts nest).Tracked ts (Guarded.operand ts gn) := by
  intro i
  unfold operand Guarded.operand
  rw [Guarded.kind_bind]
  split
  next hk => exact nameLast_tracks hk true
  split
  next hk => exact Guarded.node_tracks (.token (TokenKind.ne_eof hk rfl))
  split
  next => exact enclosedExpression_tracked hn i
  split
  next => exact function_tracked hn i
  next => exact expected_tracks

theorem signedOperand_tracked (hn : nest.Tracked ts gn) :
    (signedOperand ts nest).Tracked ts (Guarded.signedOperand ts gn) := by
  intro i
  unfold signedOperand Guarded.signedOperand
  rw [Guarded.kind_bind]
  split
  next => exact operand_tracked hn i
  next hs =>
    have hi : ts.Covers i i := .token (TokenKind.ne_eof (by simpa using hs) rfl)
    rw [Guarded.ahead_bind hi.last_lt, Guarded.kind_bind]
    split
    next => exact Guarded.complain_tracks
    next =>
      exact (operand_tracked hn (i + 1)).bind fun _ ho => Guarded.node_tracks (hi.append ho)

theorem valueList_tracked (hn : nest.Tracked ts gn) :
    (valueList ts nest).Tracked ts (Guarded.valueList ts gn) := by
  intro i
  unfold valueList Guarded.valueList
  rw [Guarded.kind_bind]
  split
  next => exact expected_tracks
  next =>
    refine (closing_tracks i).bind fun close hc => ?_
    rw [Guarded.ahead_bind hc.first_lt]
    refine (Tracked.commaList (hn i .expression) (i + 1)).bind fun values hv => ?_
    rw [Guarded.ahead_bind hv.last_lt]
    split
    next => exact Guarded.node_tracks hc
    next => exact expected_tracks

theorem operation_tracked (hn : nest.Tracked ts gn) :
    StepTracked ts (Guarded.operation ts gn) (operation ts nest) := by
  intro i last hl
  unfold operation Guarded.operation
  rw [Guarded.ahead_bind hl.last_lt]
  refine (operatorLast_tracks (last + 1)).bind fun o ho => ?_
  cases o with
  | none => exact .none
  | some e =>
    have he : ts.Covers (last + 1) e := ho e rfl
    dsimp only
    rw [Guarded.leaf, Guarded.node_eq he]
    show Tracks _ (Guarded.kind ts e >>= _) _
    rw [Guarded.kind_bind, Guarded.ahead_bind he.last_lt]
    have hl := hl.append he
    split
    next => exact (valueList_tracked hn (e + 1)).bind fun _ hr => .some (hl.append hr)
    next => exact (signedOperand_tracked hn (e + 1)).bind fun _ hr => .some (hl.append hr)

theorem expression_tracked (hn : nest.Tracked ts gn) :
    (expression ts nest).Tracked ts (Guarded.expression ts gn) := fun i =>
  ((signedOperand_tracked hn).chain (operation_tracked hn) ts.size i).bind
    fun _ hs => Guarded.node_tracks hs

theorem enclosedCondition_tracks (hn : nest.Tracked ts gn) {close : Nat}
    (hc : ts.Covers i close) : Tracks (fun s => ts.Covers i s.last)
      (Guarded.enclosedCondition ts gn i close) (enclosedCondition nest i close) := by
  unfold enclosedCondition Guarded.enclosedCondition
  rw [Guarded.ahead_bind hc.first_lt]
  exact hn.fill.bind fun _ _ => .ok hc

theorem plainTerm_tracks (hn : nest.Tracked ts gn) (i : Nat) :
    Tracks (fun s => ts.Covers i s.last) (Guarded.plainTerm ts gn i) (plainTerm ts nest i) :=
  (expression_tracked hn i).bind fun _ he => .ok he

theorem term_tracks (hn : nest.Tracked ts gn) (i : Nat) :
    Tracks (fun s => ts.Covers i s.last) (Guarded.term ts gn i) (term ts nest i) := by
  unfold term Guarded.term
  rw [Guarded.kind_bind]
  split
  next =>
    refine (closing_tracks i).bind fun close hc => ?_
    rw [Guarded.ahead_bind hc.last_lt]
    refine (operatorLast_tracks (close + 1)).bind fun o _ => ?_
    cases o with
    | none => exact enclosedCondition_tracks hn hc
    | some e => exact plainTerm_tracks hn i
  next => exact plainTerm_tracks hn i

theorem connected_tracked (hn : nest.Tracked ts gn) :
    StepTracked ts (Guarded.connected ts gn) (connected ts nest) := by
  intro i last hl
  unfold connected Guarded.connected
  rw [Guarded.ahead_bind hl.last_lt, Guarded.kind_bind]
  split
  next => exact .none
  next hk =>
    have hk : ts.kind (last + 1) ≠ .eof := TokenKind.ne_eof (by simpa using hk) rfl
    have hl := hl.next hk
    rw [Guarded.ahead_bind hl.last_lt, Guarded.kind_bind]
    split
    next => exact Guarded.complain_tracks
    next =>
      rw [Guarded.leaf, Guarded.node_eq (.token hk)]
      exact (term_tracks hn (last + 2)).bind fun _ hr => .some (hl.append hr)

theorem condition_tracked (hn : nest.Tracked ts gn) :
    (condition ts nest).Tracked ts (Guarded.condition ts gn) := fun i =>
  (term_tracks hn i).bind fun _ hf =>
    ((connected_tracked hn).many ts.size hf).bind fun _ hm => Guarded.node_tracks hm

theorem subquery_tracked (hn : nest.Tracked ts gn) :
    (subquery ts nest).Tracked ts (Guarded.subquery ts gn) := by
  intro i
  refine (closing_tracks i).bind fun close hc => ?_
  rw [Guarded.ahead_bind hc.first_lt]
  exact hn.fill.bind fun _ _ => Guarded.node_tracks hc

theorem source_tracked (hn : nest.Tracked ts gn) :
    (source ts nest).Tracked ts (Guarded.source ts gn) := by
  intro i
  unfold source Guarded.source
  rw [Guarded.kind_bind]
  split
  next hk => exact nameLast_tracks hk true
  split
  next => exact subquery_tracked hn i
  next => exact expected_tracks

theorem aliasAfter_tracked : StepTracked ts (Guarded.aliasAfter ts) (aliasAfter ts) := by
  intro i last hl
  unfold aliasAfter Guarded.aliasAfter
  rw [Guarded.ahead_bind hl.last_lt, Guarded.kind_bind]
  split
  next ha =>
    have ha : ts.Covers (last + 1) (last + 1) := .token (by simp [ha])
    rw [Guarded.ahead_bind ha.last_lt, Guarded.kind_bind]
    split
    next hk =>
      have ha := ha.next (by simp [hk])
      rw [Guarded.leaf, Guarded.node_eq ha]
      exact .some (hl.append ha)
    next => exact expected_tracks
  split
  next hk =>
    have ha : ts.Covers (last + 1) (last + 1) := .token (by simp [hk])
    rw [Guarded.leaf, Guarded.node_eq ha]
    exact .some (hl.append ha)
  next => exact .none

/-- A rule that begins with a keyword. -/
theorem keyword_tracks {β : Type} {P : β → Prop} {k : TokenKind} (hk : k ≠ .eof)
    {g : Nat → Guarded β} {r : Except Fault β}
    (h : ts.Covers i i → Tracks P (g (i + 1)) r) :
    Tracks P (Guarded.expect ts k i >>= fun _ => Guarded.ahead ts i 1 >>= g)
      (expect ts k i >>= fun _ => r) := by
  refine Guarded.expect_tracks.bind fun _ he => ?_
  have hi : ts.Covers i i := .token (he ▸ hk)
  rw [Guarded.ahead_bind hi.last_lt]
  exact h hi

theorem fromClause_tracked (hn : nest.Tracked ts gn) :
    (fromClause ts nest).Tracked ts (Guarded.fromClause ts gn) := fun i =>
  keyword_tracks (by decide) fun hi =>
    ((source_tracked hn).chain aliasAfter_tracked 1 (i + 1)).bind
      fun _ hs => Guarded.node_tracks (hi.append hs)

theorem joinClause_tracked (hn : nest.Tracked ts gn) :
    (joinClause ts nest).Tracked ts (Guarded.joinClause ts gn) := by
  intro i
  unfold joinClause Guarded.joinClause
  rw [Guarded.kind_bind]
  split
  next => exact expected_tracks
  next hk =>
    have hi : ts.Covers i i := .token (TokenKind.ne_eof (by simpa using hk) rfl)
    rw [Guarded.ahead_bind hi.last_lt]
    refine ((source_tracked hn).chain aliasAfter_tracked 1 (i + 1)).bind fun s hs => ?_
    have hon := (condition_tracked hn).announced_after (p := (· == .on)) rfl
    exact (hon.many 1 hs).bind fun _ hm => Guarded.node_tracks (hi.append hm)

theorem conditionClause_tracked (hn : nest.Tracked ts gn) {keyword : TokenKind} {k : NodeKind}
    (hk : keyword ≠ .eof) : (conditionClause ts nest keyword k).Tracked ts
      (Guarded.conditionClause ts gn keyword k) := fun i =>
  keyword_tracks hk fun hi =>
    (condition_tracked hn (i + 1)).bind fun _ hc => Guarded.node_tracks (hi.append hc)

theorem columnName_tracked : (columnName ts).Tracked ts (Guarded.columnName ts) := by
  intro i
  unfold columnName Guarded.columnName
  rw [Guarded.kind_bind]
  split
  next hk => exact nameLast_tracks hk false
  next => exact expected_tracks

theorem direction_tracked : StepTracked ts (Guarded.direction ts) (direction ts) := by
  intro i last hl
  unfold direction Guarded.direction
  rw [Guarded.ahead_bind hl.last_lt, Guarded.kind_bind]
  have hp {k : TokenKind} : (decide (k = .asc) || decide (k = .desc)) = true → k ≠ .eof := by
    rintro h rfl
    cases h
  split
  next hk =>
    have hd : ts.Covers (last + 1) (last + 1) := .token (hp (by simpa using hk))
    rw [Guarded.leaf, Guarded.node_eq hd]
    exact .some (hl.append hd)
  next => exact .none

theorem orderedColumn_tracked : (orderedColumn ts).Tracked ts (Guarded.orderedColumn ts) :=
  fun i => (columnName_tracked.chain direction_tracked 1 i).bind
    fun _ hs => Guarded.node_tracks hs

theorem columnsClause_tracked {keyword : TokenKind} {k : NodeKind} (hk : keyword ≠ .eof) :
    (columnsClause ts keyword k).Tracked ts (Guarded.columnsClause ts keyword k) := fun i =>
  keyword_tracks hk fun hi => (orderedColumn_tracked.commaList (i + 1)).bind
    fun _ hs => Guarded.node_tracks (hi.append hs)

theorem limitArgument_tracked : (limitArgument ts).Tracked ts (Guarded.limitArgument ts) := by
  intro i
  unfold limitArgument Guarded.limitArgument
  rw [Guarded.token_eq]
  show Tracks _ (if (decide (ts.kind i = .number) && _) = true then _ else _) _
  split
  next hk =>
    have hk : ts.kind i = .number := by
      have hk := (Bool.and_eq_true _ _).mp hk
      simpa using hk.1
    exact Guarded.node_tracks (.token (by simp [hk]))
  next => exact Guarded.complain_tracks

theorem limitClause_tracked : (limitClause ts).Tracked ts (Guarded.limitClause ts) := fun i =>
  have hoffset := limitArgument_tracked.announced_after
    (p := fun k : TokenKind => k == .comma || k == .offset) rfl
  keyword_tracks (by decide) fun hi => (limitArgument_tracked.chain hoffset 1 (i + 1)).bind
    fun _ hs => Guarded.node_tracks (hi.append hs)

theorem field_tracked (hn : nest.Tracked ts gn) :
    (field ts nest).Tracked ts (Guarded.field ts gn) := fun i =>
  ((expression_tracked hn).chain aliasAfter_tracked 1 i).bind fun _ hs => Guarded.node_tracks hs

theorem selectClause_tracked (hn : nest.Tracked ts gn) :
    (selectClause ts nest).Tracked ts (Guarded.selectClause ts gn) := fun i =>
  keyword_tracks (by decide) fun hi => ((field_tracked hn).commaList (i + 1)).bind
    fun _ hs => Guarded.node_tracks (hi.append hs)

def ClausesTracked (ts : TokenList) (gs : List (TokenKind × Guarded.Rule))
    (cs : List (TokenKind × Rule)) : Prop :=
  ∀ i last, ts.Covers i last →
    Tracks (fun s => ts.Covers i s.last) (Guarded.clauses ts gs last) (clauses ts cs last)

theorem clauses_nil_tracked : ClausesTracked ts [] [] := fun _ _ hl => .ok hl

theorem clauses_cons_tracked {keyword : TokenKind} {rule : Rule} {g : Guarded.Rule}
    {gs : List (TokenKind × Guarded.Rule)} {cs : List (TokenKind × Rule)}
    (hr : rule.Tracked ts g) (hcs : ClausesTracked ts gs cs) :
    ClausesTracked ts ((keyword, g) :: gs) ((keyword, rule) :: cs) := fun i _ hl =>
  ((hr.announced (· == keyword)).many 1 hl).bind fun s hs =>
    (hcs i s.last hs).bind fun _ hm => .ok hm

theorem optionalClauses_tracked (hn : nest.Tracked ts gn) :
    ClausesTracked ts (Guarded.optionalClauses ts gn) (optionalClauses ts nest) :=
  clauses_cons_tracked (conditionClause_tracked hn (by decide)) <|
    clauses_cons_tracked (columnsClause_tracked (by decide)) <|
    clauses_cons_tracked (conditionClause_tracked hn (by decide)) <|
    clauses_cons_tracked (columnsClause_tracked (by decide)) <|
    clauses_cons_tracked limitClause_tracked clauses_nil_tracked

theorem selectQuery_tracked (hn : nest.Tracked ts gn) :
    (selectQuery ts nest).Tracked ts (Guarded.selectQuery ts gn) := by
  intro i
  refine (selectClause_tracked hn i).bind fun select hs => ?_
  rw [Guarded.ahead_bind hs.last_lt]
  refine (fromClause_tracked hn (select.last + 1)).bind fun source hf => ?_
  have hj := ((joinClause_tracked hn).announced TokenKind.isJoin).many ts.size (hs.append hf)
  refine hj.bind fun joins hj => ?_
  exact (optionalClauses_tracked hn i joins.last hj).bind fun _ hr => Guarded.node_tracks hr

/-- An arm begins with the token before its query. -/
theorem arm_tracked (hn : nest.Tracked ts gn) :
    StepTracked ts (Guarded.announced ts (· == .union) (Guarded.arm ts gn))
      (announced ts (· == .union) (arm ts nest)) := by
  intro i last hl
  unfold announced Guarded.announced arm Guarded.arm
  rw [Guarded.ahead_bind hl.last_lt, Guarded.kind_bind]
  split
  next hk =>
    have hl := hl.next (TokenKind.ne_eof (p := (· == .union)) hk rfl)
    rw [Guarded.ahead_bind hl.last_lt, Guarded.kind_bind]
    split
    next =>
      rw [Guarded.complain_eq]
      exact .fault
    next => exact (selectQuery_tracked hn (last + 2)).bind fun _ hs => .some (hl.append hs)
  next => exact .none

theorem query_tracked (hn : nest.Tracked ts gn) :
    (query ts nest).Tracked ts (Guarded.query ts gn) := fun i =>
  ((selectQuery_tracked hn).chain (arm_tracked hn) ts.size i).bind
    fun _ hs => Guarded.node_tracks hs

end Rule

end SqlSelect
