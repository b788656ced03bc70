import SqlSelect.Parser
import SqlSelect.Proofs.ConditionLayout

namespace SqlSelect

open NodeKind

namespace Rule

variable {ts : TokenList} {nest : Nest} {i : Nat} {s : Stretch}

theorem aliasAfter_fits {last : Nat} (h : aliasAfter ts last = .ok (some s)) :
    Stretch.Fits ts (child .alias) (last + 1) s := by
  unfold aliasAfter at h
  split at h
  next ha =>
    split at h
    next hl =>
      cases h
      have hs : Stretch.Fits ts (layout .alias) (last + 1) ⟨[], last + 2⟩ :=
        (Stretch.Fits.token ha).take.mul (.token hl)
      exact hs.node rfl
    next => cases h
  next =>
    split at h
    next hl =>
      cases h
      have hs : Stretch.Fits ts (layout .alias) (last + 1) ⟨[], last + 1⟩ :=
        Stretch.Fits.skip.mul (.token hl)
      exact hs.node rfl
    next => cases h

theorem aliased_fits {r : Role} {rule : Rule} (hr : rule.Makes ts r)
    (h : aliased ts rule i = .ok s) : Stretch.Fits ts (role r * (child .alias).opt) i s :=
  hr.chain_opt (fun _ _ => aliasAfter_fits) h

theorem subquery_makes (hn : nest.Makes ts) : Makes ts (.of .source) (subquery ts nest) := by
  intro i n h
  obtain ⟨close, hc, h⟩ := bind_eq_ok.mp h
  obtain ⟨inner, hi, h⟩ := bind_eq_ok.mp h
  cases h
  have hs : Stretch.Fits ts (layout .source) i ⟨[inner], close⟩ := (hn.enclosed hc hi).right
  exact hs.node rfl

theorem source_makes (hn : nest.Makes ts) : Makes ts (.of .source) (source ts nest) := by
  intro i n h
  unfold source at h
  split at h
  next hk =>
    cases h
    have hs : Stretch.Fits ts (layout .source) i ⟨[], nameLast ts true i⟩ :=
      (name_fits (by simp) hk).left
    exact hs.node rfl
  split at h
  next => exact subquery_makes hn i n h
  next => cases h

theorem fromClause_makes (hn : nest.Makes ts) : Makes ts (.of .from) (fromClause ts nest) := by
  intro i n h
  obtain ⟨_, hk, h⟩ := bind_eq_ok.mp h
  obtain ⟨s, hs, h⟩ := bind_eq_ok.mp h
  cases h
  have hl : Stretch.Fits ts (layout .from) i s :=
    ((Stretch.Fits.token (expect_eq_ok.mp hk)).mul (aliased_fits (source_makes hn) hs)).assoc
  exact hl.node rfl

theorem joinClause_makes (hn : nest.Makes ts) : Makes ts (.of .join) (joinClause ts nest) := by
  intro i n h
  unfold joinClause at h
  split at h
  next => cases h
  next hk =>
    obtain ⟨s, hs, h⟩ := bind_eq_ok.mp h
    obtain ⟨on, ho, h⟩ := bind_eq_ok.mp h
    cases h
    have hk := mem_joinKinds.mpr (by simpa using hk)
    have hl : Stretch.Fits ts (layout .join) i ⟨s.nodes ++ on.nodes, on.last⟩ :=
      ((Stretch.Fits.tokens hk).mul (aliased_fits (source_makes hn) hs)).assoc.mul
        (.many_opt (fun _ _ => (condition_makes hn).afterKeyword) ho)
    exact hl.node rfl

theorem conditionClause_makes (hn : nest.Makes ts) {keyword : TokenKind} {k : NodeKind}
    (hk : k.layout = token keyword * child .condition) :
    Makes ts (.of k) (conditionClause ts nest keyword k) := by
  intro i n h
  obtain ⟨_, he, h⟩ := bind_eq_ok.mp h
  obtain ⟨c, hc, h⟩ := bind_eq_ok.mp h
  cases h
  have hl : Stretch.Fits ts k.layout i ⟨[c], c.last⟩ :=
    hk ▸ (Stretch.Fits.token (expect_eq_ok.mp he)).mul (condition_makes hn _ _ hc)
  exact hl.node rfl

theorem whereClause_makes (hn : nest.Makes ts) : Makes ts (.of .where) (whereClause ts nest) :=
  conditionClause_makes hn rfl

theorem havingClause_makes (hn : nest.Makes ts) :
    Makes ts (.of .having) (havingClause ts nest) := conditionClause_makes hn rfl

theorem columnName_makes : Makes ts (.of .columnName) (columnName ts) := by
  intro i n h
  unfold columnName at h
  split at h
  next hk =>
    cases h
    have hs : Stretch.Fits ts (layout .columnName) i ⟨[], nameLast ts false i⟩ :=
      name_fits (by simp) hk
    exact hs.node rfl
  next => cases h

theorem direction_fits {last : Nat} (h : direction ts last = .ok (some s)) :
    Stretch.Fits ts (child .order) (last + 1) s := by
  unfold direction at h
  split at h
  next hk =>
    cases h
    have hs : Stretch.Fits ts (layout .order) (last + 1) ⟨[], last + 1⟩ :=
      .tokens (by simpa using hk)
    exact hs.node rfl
  next => cases h

theorem orderedColumn_makes : Makes ts .column (orderedColumn ts) := by
  intro i n h
  obtain ⟨s, hs, h⟩ := bind_eq_ok.mp h
  cases h
  have hl : Stretch.Fits ts (layout .field) i s :=
    (columnName_makes.chain_opt (fun _ _ => direction_fits) hs).right
  refine hl.node ⟨rfl, ?_⟩
  obtain ⟨head, more, hh, _, rfl⟩ := chain_eq_ok.mp hs
  have hk := (Stretch.Fits.role_iff.mp (columnName_makes _ _ hh)).1
  exact congrArg some hk

theorem columnsClause_makes {keyword : TokenKind} {k : NodeKind}
    (hk : k.layout = token keyword * .separated (role .column) (token .comma)) :
    Makes ts (.of k) (columnsClause ts keyword k) := by
  intro i n h
  obtain ⟨_, he, h⟩ := bind_eq_ok.mp h
  obtain ⟨s, hs, h⟩ := bind_eq_ok.mp h
  cases h
  have hl : Stretch.Fits ts k.layout i s :=
    hk ▸ (Stretch.Fits.token (expect_eq_ok.mp he)).mul (orderedColumn_makes.commaList hs)
  exact hl.node rfl

theorem groupByClause_makes : Makes ts (.of .groupBy) (groupByClause ts) :=
  columnsClause_makes rfl

theorem orderByClause_makes : Makes ts (.of .orderBy) (orderByClause ts) :=
  columnsClause_makes rfl

theorem limitArgument_makes : Makes ts .value (limitArgument ts) := by
  intro i n h
  unfold limitArgument at h
  split at h
  next hk =>
    cases h
    have hk : ts.kind i = .number ∧ (unsigned? (ts.token i).text).isSome = true := by
      simpa using hk
    have hs : Stretch.Fits ts (layout .operand) i ⟨[], i⟩ :=
      (Stretch.Fits.tokens (by simp [hk.1])).right
    exact hs.node ⟨rfl, rfl, hk⟩
  next => cases h

theorem offsetArgument_fits {last : Nat} (h : offsetArgument ts last = .ok (some s)) :
    Stretch.Fits ts (tokens [.comma, .offset] * role .value) (last + 1) s := by
  obtain ⟨hk, n, hn, rfl⟩ := announced_eq_some.mp h
  exact (Stretch.Fits.tokens (by simpa using hk)).mul (limitArgument_makes _ _ hn)

theorem limitClause_makes : Makes ts (.of .limit) (limitClause ts) := by
  intro i n h
  obtain ⟨_, he, h⟩ := bind_eq_ok.mp h
  obtain ⟨s, hs, h⟩ := bind_eq_ok.mp h
  cases h
  have hl : Stretch.Fits ts (layout .limit) i s :=
    ((Stretch.Fits.token (expect_eq_ok.mp he)).mul
      (limitArgument_makes.chain_opt (fun _ _ => offsetArgument_fits) hs)).assoc
  exact hl.node rfl

theorem field_makes (hn : nest.Makes ts) : Makes ts .field (field ts nest) := by
  intro i n h
  obtain ⟨s, hs, h⟩ := bind_eq_ok.mp h
  cases h
  have hl : Stretch.Fits ts (layout .field) i s := (aliased_fits (expression_makes hn) hs).left
  refine hl.node ⟨rfl, ?_⟩
  obtain ⟨head, more, hh, _, rfl⟩ := chain_eq_ok.mp hs
  have hk := (Stretch.Fits.role_iff.mp (expression_makes hn _ _ hh)).1
  exact congrArg some hk

theorem selectClause_makes (hn : nest.Makes ts) :
    Makes ts (.of .select) (selectClause ts nest) := by
  intro i n h
  obtain ⟨_, he, h⟩ := bind_eq_ok.mp h
  obtain ⟨s, hs, h⟩ := bind_eq_ok.mp h
  cases h
  have hl : Stretch.Fits ts (layout .select) i s :=
    (Stretch.Fits.token (expect_eq_ok.mp he)).mul ((field_makes hn).commaList hs)
  exact hl.node rfl

/-- Optional clauses, each of which may be there and is then made as its kind says. -/
theorem clauses_cons_fits {keyword : TokenKind} {rule : Rule} {k : NodeKind}
    (hr : rule.Makes ts (.of k)) {rest : List (TokenKind × Rule)} {last : Nat}
    (h : clauses ts ((keyword, rule) :: rest) last = .ok s) :
    ∃ one more, Stretch.Fits ts (child k).opt (last + 1) one ∧
      clauses ts rest one.last = .ok more ∧ s = ⟨one.nodes ++ more.nodes, more.last⟩ := by
  obtain ⟨one, ho, h⟩ := bind_eq_ok.mp h
  obtain ⟨more, hm, h⟩ := bind_eq_ok.mp h
  cases h
  exact ⟨one, more, .many_opt (fun _ _ => hr.announced) ho, hm, rfl⟩

theorem selectQuery_makes (hn : nest.Makes ts) :
    Makes ts (.of .selectQuery) (selectQuery ts nest) := by
  intro i n h
  obtain ⟨select, hs, h⟩ := bind_eq_ok.mp h
  obtain ⟨source, hf, h⟩ := bind_eq_ok.mp h
  obtain ⟨joins, hj, h⟩ := bind_eq_ok.mp h
  obtain ⟨rest, hr, h⟩ := bind_eq_ok.mp h
  cases h
  obtain ⟨_, _, h₁, hr₁, rfl⟩ := clauses_cons_fits (whereClause_makes hn) hr
  obtain ⟨_, _, h₂, hr₂, rfl⟩ := clauses_cons_fits groupByClause_makes hr₁
  obtain ⟨_, _, h₃, hr₃, rfl⟩ := clauses_cons_fits (havingClause_makes hn) hr₂
  obtain ⟨_, _, h₄, hr₄, rfl⟩ := clauses_cons_fits orderByClause_makes hr₃
  obtain ⟨_, _, h₅, hr₅, rfl⟩ := clauses_cons_fits limitClause_makes hr₄
  cases hr₅
  have hl := (selectClause_makes hn _ _ hs).mul (fromClause_makes hn _ _ hf)
  have hl := hl.mul (.many_star (fun _ _ => (joinClause_makes hn).announced) hj)
  have hl : Stretch.Fits ts (layout .selectQuery) i _ :=
    ((((hl.mul h₁).mul h₂).mul h₃).mul h₄).mul h₅
  simpa [Stretch.ofNode] using hl.node (r := .of .selectQuery) rfl

theorem arm_fits (hn : nest.Makes ts) {last : Nat}
    (h : announced ts (· == .union) (arm ts nest) last = .ok (some s)) :
    Stretch.Fits ts (token .union * child .selectQuery) (last + 1) s := by
  obtain ⟨hk, n, ha, rfl⟩ := announced_eq_some.mp h
  unfold arm at ha
  split at ha
  next => cases ha
  next =>
    exact (Stretch.Fits.token (beq_iff_eq.mp hk)).mul (selectQuery_makes hn _ _ ha)

theorem query_makes (hn : nest.Makes ts) : Makes ts (.of .query) (query ts nest) := by
  intro i n h
  obtain ⟨s, hs, h⟩ := bind_eq_ok.mp h
  cases h
  have hl : Stretch.Fits ts (layout .query) i s :=
    (selectQuery_makes hn).chain_star (fun _ _ => arm_fits hn) hs
  exact hl.node rfl

end Rule

theorem nested_makes (ts : TokenList) (depth : Nat) : (nested ts depth).Makes ts := by
  induction depth with
  | zero => exact nofun
  | succ depth ih =>
    intro blame e
    cases e with
    | selectQuery => exact Rule.selectQuery_makes ih
    | condition => exact Rule.condition_makes ih
    | expression => exact Rule.expression_makes ih

/-- The kind of the nodes that a production finds. -/
def Production.nodeKind : Production → NodeKind
  | .query => .query
  | .selectQuery => .selectQuery
  | .select => .select
  | .field => .field
  | .from => .from
  | .source => .source
  | .join => .join
  | .where => .where
  | .having => .having
  | .condition => .condition
  | .expression => .expression
  | .function => .function
  | .parenthesis => .parenthesis
  | .groupBy => .groupBy
  | .orderBy => .orderBy
  | .limit => .limit

theorem Production.rule_makes {ts : TokenList} {nest : Nest} (hn : nest.Makes ts)
    {part : Production} (hp : part ≠ .parenthesis) :
    Rule.Makes ts (.of part.nodeKind) (part.rule ts nest) := by
  cases part with
  | query => exact Rule.query_makes hn
  | selectQuery => exact Rule.selectQuery_makes hn
  | select => exact Rule.selectClause_makes hn
  | field => exact fun i n h => (Rule.field_makes hn i n h).weaken (·.1)
  | «from» => exact Rule.fromClause_makes hn
  | source => exact Rule.source_makes hn
  | join => exact Rule.joinClause_makes hn
  | «where» => exact Rule.whereClause_makes hn
  | having => exact Rule.havingClause_makes hn
  | condition => exact Rule.condition_makes hn
  | expression => exact Rule.expression_makes hn
  | function => exact Rule.function_makes hn
  | parenthesis => exact (hp rfl).elim
  | groupBy => exact Rule.groupByClause_makes
  | orderBy => exact Rule.orderByClause_makes
  | limit => exact Rule.limitClause_makes

theorem Production.run_makes {part : Production} (hp : part ≠ .parenthesis) (ts : TokenList)
    (depth : Nat) : Rule.Makes ts (.of part.nodeKind) (part.run ts depth) :=
  rule_makes (nested_makes ts depth) hp

end SqlSelect
