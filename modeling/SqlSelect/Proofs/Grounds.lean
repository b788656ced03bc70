import SqlSelect.Proofs.Balance
import SqlSelect.Proofs.LocatingRules

namespace SqlSelect

open NodeKind

/-- The complaints that what was found does not fill a parenthesis. -/
def Complaint.unfilled : List Complaint :=
  [.expected .subqueryEnd, .expected .conditionEnd, .expected .expressionEnd, .expected .callEnd,
   .expected .valueListEnd]

/-- The complaints that a parenthesis is not filled or is not there. -/
def Complaint.parenthetic : List Complaint := .expected (.kind .leftParen) :: unfilled

/-- What the tokens have to do with a complaint about a parenthesis. Where one is found not to be
filled, the token complained about closes none; one that is missed is so after a function name. -/
structure Fault.Grounded (ts : TokenList) (x : Fault) : Prop where
  unfilled : x.complaint ∈ Complaint.unfilled → ts.kind x.index ≠ .rightParen
  uncalled : x.complaint = .expected (.kind .leftParen) → ts.kind x.index ≠ .leftParen ∧
    ∃ name, x.index = name + 1 ∧ (ts.kind name).isFunction = true

/-- An error has grounds in the tokens. -/
def TokenList.Grounds (ts : TokenList) {α : Type} (r : Except Fault α) : Prop :=
  ∀ x, r = .error x → x.Grounded ts

def Nest.Grounds (ts : TokenList) (nest : Nest) : Prop := ∀ blame e i, ts.Grounds (nest blame e i)

variable {α β : Type} {ts : TokenList} {r : Except Fault α} {f : α → Except Fault β} {i : Nat}

theorem Fault.grounded_of_other {x : Fault} (h : x.complaint ∉ Complaint.parenthetic) :
    x.Grounded ts := by
  refine ⟨fun hm => (h (List.mem_cons_of_mem _ hm)).elim, fun he => (h ?_).elim⟩
  rw [he]
  exact List.mem_cons_self

namespace TokenList.Grounds

theorem ok {a : α} : ts.Grounds (.ok a) := nofun

theorem other {c : Complaint} (h : c ∉ Complaint.parenthetic) :
    ts.Grounds (.error ⟨c, i⟩ : Except Fault α) := by
  intro x hx
  cases hx
  exact Fault.grounded_of_other h

theorem expected {e : Expectation} (h : .expected e ∉ Complaint.parenthetic) :
    ts.Grounds (Fault.expected e i : Except Fault α) := other h

theorem unfilled {e : Expectation} (he : .expected e ∈ Complaint.unfilled)
    (hk : ts.kind i ≠ .rightParen) : ts.Grounds (Fault.expected e i : Except Fault α) := by
  intro x hx
  cases hx
  have hne : Complaint.expected (.kind .leftParen) ∉ Complaint.unfilled := by decide
  exact ⟨fun _ => hk, fun hc => (hne (hc ▸ he)).elim⟩

theorem bind (hr : ts.Grounds r) (hf : ∀ a, r = .ok a → ts.Grounds (f a)) :
    ts.Grounds (r >>= f) := by
  intro x hx
  rcases bind_eq_error.mp hx with hx | ⟨a, ha, hx⟩
  · exact hr x hx
  · exact hf a ha x hx

theorem map {make : α → β} (hr : ts.Grounds r) : ts.Grounds (r >>= fun a => .ok (make a)) :=
  hr.bind fun _ _ => .ok

theorem expect {k : TokenKind} (hk : k ≠ .leftParen) : ts.Grounds (expect ts k i) := by
  unfold SqlSelect.expect
  split
  next => exact .ok
  next => exact .expected (by simp [Complaint.parenthetic, Complaint.unfilled, hk])

/-- A parenthesis is missed where a function is not called. -/
theorem expect_call (hf : (ts.kind i).isFunction = true) :
    ts.Grounds (SqlSelect.expect ts .leftParen (i + 1)) := by
  intro x hx
  unfold SqlSelect.expect at hx
  split at hx
  next => cases hx
  next hk =>
    cases hx
    have hne : Complaint.expected (.kind .leftParen) ∉ Complaint.unfilled := by decide
    exact ⟨fun hm => (hne hm).elim, fun _ => ⟨hk, i, rfl, hf⟩⟩

theorem closing : ts.Grounds (closing ts i) := by
  unfold SqlSelect.closing
  split
  next =>
    intro x hx
    refine Fault.grounded_of_other ?_
    rw [closeFrom_complaint hx]
    decide
  next => exact .expected (by decide)

theorem many {step : Nat → Except Fault (Option Stretch)} (h : ∀ last, ts.Grounds (step last))
    (bound last : Nat) : ts.Grounds (many step bound last) := by
  induction bound generalizing last with
  | zero => exact .ok
  | succ bound ih =>
    refine (h last).bind fun o _ => ?_
    cases o with
    | none => exact .ok
    | some s => exact (ih s.last).map

theorem chain {rule : Rule} {step : Nat → Except Fault (Option Stretch)}
    (hr : ∀ i, ts.Grounds (rule i)) (h : ∀ last, ts.Grounds (step last)) (bound : Nat) :
    ts.Grounds (chain bound rule step i) :=
  (hr i).bind fun head _ => (many h bound head.last).map

theorem announced {rule : Rule} (hr : ∀ i, ts.Grounds (rule i)) (p : TokenKind → Bool)
    (last : Nat) : ts.Grounds (announced ts p rule last) := by
  unfold SqlSelect.announced
  split
  next => exact (hr (last + 1)).map
  next => exact .ok

theorem commaList {rule : Rule} (hr : ∀ i, ts.Grounds (rule i)) :
    ts.Grounds (commaList ts rule i) := by
  have hstep (last : Nat) : ts.Grounds (afterComma ts rule last) :=
    announced (fun i => hr (i + 1)) _ last
  exact chain hr hstep ts.size

/-- What does not fill a parenthesis does not end before a parenthesis that closes. -/
theorem fill {nest : Nest} (hm : nest.Makes ts) (hn : nest.Grounds ts) {p close : Nat}
    (hc : SqlSelect.closing ts p = .ok close) (blame : Nat) (e : Enclosed) {x : Expectation}
    (hx : .expected x ∈ Complaint.unfilled) : ts.Grounds (fill nest blame e (p + 1) close x) := by
  refine (hn blame e (p + 1)).bind fun inner hi => ?_
  split
  next => exact .ok
  next hne => exact .unfilled hx ((((hm blame e).nests hi).inside hc).2 hne)

theorem enclosed {nest : Nest} (hm : nest.Makes ts) (hn : nest.Grounds ts) {p : Nat}
    {make : Nat → Node → β} (blame : Nat) (e : Enclosed) {x : Expectation}
    (hx : .expected x ∈ Complaint.unfilled) :
    ts.Grounds (SqlSelect.closing ts p >>= fun close =>
      SqlSelect.fill nest blame e (p + 1) close x >>= fun n => .ok (make close n)) :=
  closing.bind fun _ hc => (fill hm hn hc blame e hx).map

end TokenList.Grounds

namespace Rule

open TokenList

variable {nest : Nest}

theorem function_grounds (hm : nest.Makes ts) (hn : nest.Grounds ts) (i : Nat) :
    ts.Grounds (function ts nest i) := by
  unfold function
  split
  next => exact .expected (by decide)
  next hf =>
    have hf : (ts.kind i).isFunction = true := by simpa using hf
    exact (Grounds.expect_call hf).bind fun _ _ => .enclosed hm hn i .expression (by decide)

theorem operand_grounds (hm : nest.Makes ts) (hn : nest.Grounds ts) (i : Nat) :
    ts.Grounds (operand ts nest i) := by
  unfold operand
  split
  next => exact .ok
  split
  next => exact .ok
  split
  next => exact Grounds.enclosed hm hn i .expression (by decide)
  split
  next => exact function_grounds hm hn i
  next => exact .expected (by decide)

theorem signedOperand_grounds (hm : nest.Makes ts) (hn : nest.Grounds ts) (i : Nat) :
    ts.Grounds (signedOperand ts nest i) := by
  unfold signedOperand
  split
  next => exact operand_grounds hm hn i
  split
  next => exact .other (by decide)
  next => exact (operand_grounds hm hn (i + 1)).map

theorem valueList_grounds (hm : nest.Makes ts) (hn : nest.Grounds ts) (i : Nat) :
    ts.Grounds (valueList ts nest i) := by
  unfold valueList
  split
  next => exact .expected (by decide)
  next =>
    refine Grounds.closing.bind fun close hc => ?_
    refine (Grounds.commaList (hn i .expression)).bind fun values hv => ?_
    split
    next => exact .ok
    next hne =>
      exact .unfilled (by decide) ((((hm i .expression).commaList_nests hv).inside hc).2 hne)

theorem operatorLast_grounds (i : Nat) : ts.Grounds (operatorLast ts i) := by
  intro x hx
  obtain ⟨_, _, rfl⟩ := operatorLast_eq_error hx
  have hne : Complaint.expected .operatorAfterNot ∉ Complaint.parenthetic := by decide
  exact Fault.grounded_of_other hne

theorem operation_grounds (hm : nest.Makes ts) (hn : nest.Grounds ts) (last : Nat) :
    ts.Grounds (operation ts nest last) := by
  refine (operatorLast_grounds (last + 1)).bind fun o _ => ?_
  cases o with
  | none => exact .ok
  | some e =>
    dsimp only
    split
    next => exact (valueList_grounds hm hn (e + 1)).map
    next => exact (signedOperand_grounds hm hn (e + 1)).map

theorem expression_grounds (hm : nest.Makes ts) (hn : nest.Grounds ts) (i : Nat) :
    ts.Grounds (expression ts nest i) :=
  (Grounds.chain (signedOperand_grounds hm hn) (operation_grounds hm hn) _).map

theorem term_grounds (hm : nest.Makes ts) (hn : nest.Grounds ts) (i : Nat) :
    ts.Grounds (term ts nest i) := by
  unfold term
  split
  next =>
    refine Grounds.closing.bind fun close hc => ?_
    refine (operatorLast_grounds (close + 1)).bind fun o _ => ?_
    cases o with
    | none => exact (Grounds.fill hm hn hc _ _ (by decide)).map
    | some e => exact (expression_grounds hm hn i).map
  next => exact (expression_grounds hm hn i).map

theorem connected_grounds (hm : nest.Makes ts) (hn : nest.Grounds ts) (last : Nat) :
    ts.Grounds (connected ts nest last) := by
  unfold connected
  split
  next => exact .ok
  split
  next => exact .other (by simp [Complaint.parenthetic, Complaint.unfilled])
  next => exact (term_grounds hm hn (last + 2)).map

theorem condition_grounds (hm : nest.Makes ts) (hn : nest.Grounds ts) (i : Nat) :
    ts.Grounds (condition ts nest i) :=
  (term_grounds hm hn i).bind fun first _ =>
    (Grounds.many (connected_grounds hm hn) _ first.last).map

theorem aliasAfter_grounds (last : Nat) : ts.Grounds (aliasAfter ts last) := by
  unfold aliasAfter
  split
  next =>
    split
    next => exact .ok
    next => exact .expected (by decide)
  next =>
    split
    next => exact .ok
    next => exact .ok

theorem aliased_grounds {rule : Rule} (hr : ∀ i, ts.Grounds (rule i)) (i : Nat) :
    ts.Grounds (aliased ts rule i) := Grounds.chain hr aliasAfter_grounds 1

theorem source_grounds (hm : nest.Makes ts) (hn : nest.Grounds ts) (i : Nat) :
    ts.Grounds (source ts nest i) := by
  unfold source
  split
  next => exact .ok
  split
  next => exact Grounds.enclosed hm hn i .selectQuery (by decide)
  next => exact .expected (by decide)

theorem fromClause_grounds (hm : nest.Makes ts) (hn : nest.Grounds ts) (i : Nat) :
    ts.Grounds (fromClause ts nest i) :=
  (Grounds.expect (by decide)).bind fun _ _ => (aliased_grounds (source_grounds hm hn) (i + 1)).map

theorem joinClause_grounds (hm : nest.Makes ts) (hn : nest.Grounds ts) (i : Nat) :
    ts.Grounds (joinClause ts nest i) := by
  unfold joinClause
  split
  next => exact .expected (by decide)
  next =>
    refine (aliased_grounds (source_grounds hm hn) (i + 1)).bind fun s _ => ?_
    have hon := Grounds.announced (fun on => condition_grounds hm hn (on + 1)) (· == .on)
    exact (Grounds.many hon 1 s.last).map

theorem conditionClause_grounds (hm : nest.Makes ts) (hn : nest.Grounds ts) {keyword : TokenKind}
    (hk : keyword ≠ .leftParen) {k : NodeKind} (i : Nat) :
    ts.Grounds (conditionClause ts nest keyword k i) :=
  (Grounds.expect hk).bind fun _ _ => (condition_grounds hm hn (i + 1)).map

theorem orderedColumn_grounds (i : Nat) : ts.Grounds (orderedColumn ts i) := by
  refine (Grounds.chain (fun i => ?_) (fun last => ?_) 1).map
  · unfold columnName
    split
    next => exact .ok
    next => exact .expected (by decide)
  · unfold direction
    split
    next => exact .ok
    next => exact .ok

theorem columnsClause_grounds {keyword : TokenKind} (hk : keyword ≠ .leftParen) {k : NodeKind}
    (i : Nat) : ts.Grounds (columnsClause ts keyword k i) :=
  (Grounds.expect hk).bind fun _ _ => (Grounds.commaList orderedColumn_grounds).map

theorem limitArgument_grounds (i : Nat) : ts.Grounds (limitArgument ts i) := by
  unfold limitArgument
  split
  next => exact .ok
  next => exact .other (by decide)

theorem limitClause_grounds (i : Nat) : ts.Grounds (limitClause ts i) := by
  refine (Grounds.expect (by decide)).bind fun _ _ => (Grounds.chain limitArgument_grounds ?_ 1).map
  exact Grounds.announced (fun i => limitArgument_grounds (i + 1)) _

theorem field_grounds (hm : nest.Makes ts) (hn : nest.Grounds ts) (i : Nat) :
    ts.Grounds (field ts nest i) := (aliased_grounds (expression_grounds hm hn) i).map

theorem selectClause_grounds (hm : nest.Makes ts) (hn : nest.Grounds ts) (i : Nat) :
    ts.Grounds (selectClause ts nest i) :=
  (Grounds.expect (by decide)).bind fun _ _ => (Grounds.commaList (field_grounds hm hn)).map

theorem clauses_grounds {list : List (TokenKind × Rule)}
    (hl : ∀ entry ∈ list, ∀ i, ts.Grounds (entry.2 i)) (last : Nat) :
    ts.Grounds (clauses ts list last) := by
  induction list generalizing last with
  | nil => exact .ok
  | cons entry list ih =>
    obtain ⟨hentry, hl⟩ := List.forall_mem_cons.mp hl
    exact (Grounds.many (Grounds.announced hentry _) 1 last).bind fun s _ => (ih hl s.last).map

theorem selectQuery_grounds (hm : nest.Makes ts) (hn : nest.Grounds ts) (i : Nat) :
    ts.Grounds (selectQuery ts nest i) := by
  have hclauses : ∀ entry ∈ optionalClauses ts nest, ∀ i, ts.Grounds (entry.2 i) := by
    simp only [optionalClauses, List.forall_mem_cons]
    exact ⟨conditionClause_grounds hm hn (by decide), columnsClause_grounds (by decide),
      conditionClause_grounds hm hn (by decide), columnsClause_grounds (by decide),
      limitClause_grounds, List.forall_mem_nil _⟩
  refine (selectClause_grounds hm hn i).bind fun select _ => ?_
  refine (fromClause_grounds hm hn (select.last + 1)).bind fun source _ => ?_
  refine (Grounds.many (Grounds.announced (joinClause_grounds hm hn) _) _ source.last).bind
    fun joins _ => ?_
  exact (clauses_grounds hclauses joins.last).map

theorem query_grounds (hm : nest.Makes ts) (hn : nest.Grounds ts) (i : Nat) :
    ts.Grounds (query ts nest i) := by
  refine (Grounds.chain (selectQuery_grounds hm hn) (Grounds.announced (fun i => ?_) _) _).map
  unfold arm
  split
  next => exact .other (by decide)
  next => exact selectQuery_grounds hm hn (i + 1)

end Rule

theorem Production.rule_grounds {nest : Nest} (hm : nest.Makes ts) (hn : nest.Grounds ts)
    (part : Production) (i : Nat) : ts.Grounds (part.rule ts nest i) := by
  cases part with
  | query => exact Rule.query_grounds hm hn i
  | selectQuery => exact Rule.selectQuery_grounds hm hn i
  | select => exact Rule.selectClause_grounds hm hn i
  | field => exact Rule.field_grounds hm hn i
  | «from» => exact Rule.fromClause_grounds hm hn i
  | source => exact Rule.source_grounds hm hn i
  | join => exact Rule.joinClause_grounds hm hn i
  | «where» | having => exact Rule.conditionClause_grounds hm hn (by decide) i
  | condition => exact Rule.condition_grounds hm hn i
  | expression => exact Rule.expression_grounds hm hn i
  | function => exact Rule.function_grounds hm hn i
  | parenthesis => exact TokenList.Grounds.closing.map
  | groupBy | orderBy => exact Rule.columnsClause_grounds (by decide) i
  | limit => exact Rule.limitClause_grounds i

theorem nested_grounds (ts : TokenList) (depth : Nat) : (nested ts depth).Grounds ts := by
  induction depth with
  | zero => exact fun _ _ _ => .other (by decide)
  | succ depth ih =>
    intro blame e i
    exact e.production.rule_grounds (nested_makes ts depth) ih i

theorem Production.run_grounds (part : Production) (ts : TokenList) (depth i : Nat) :
    ts.Grounds (part.run ts depth i) :=
  part.rule_grounds (nested_makes ts depth) (nested_grounds ts depth) i

theorem Parser.complete_grounds (p : Parser) : p.tokens.Grounds p.complete := by
  refine (Production.query.run_grounds p.tokens p.options.maxDepth 0).bind fun query _ => ?_
  split
  next => exact .ok
  next => exact .expected (by decide)

end SqlSelect
