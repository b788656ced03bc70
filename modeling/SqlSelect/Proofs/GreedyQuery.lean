import SqlSelect.Proofs.GreedyRules

namespace SqlSelect

open Nonterminal

namespace Nonterminal

theorem source_extends : Form.Extends (.part .source) [.dot] :=
  .of_reads (by decide) fun ts => Rule.source_reads (nested_openings_reads ts)

theorem condition_extends : Form.Extends (.part .condition) condition.extending :=
  .of_reads (by decide) fun ts => Rule.condition_reads (nested_openings_reads ts)

theorem orderedColumn_extends :
    Form.Extends (.part .orderedColumn) orderedColumn.extending :=
  .of_reads (by decide) fun _ => Rule.orderedColumn_reads (a := 0)

theorem field_extends : Form.Extends (.part .field) field.extending :=
  .of_reads (by decide) fun ts => Rule.field_reads (nested_openings_reads ts)

theorem select_extends : Form.Extends (.part .select) select.extending :=
  .of_reads (by decide) fun ts => Rule.selectClause_reads (nested_openings_reads ts)

theorem from_extends : Form.Extends (.part .from) Nonterminal.from.extending :=
  .of_reads (by decide) fun ts => Rule.fromClause_reads (nested_openings_reads ts)

theorem join_extends : Form.Extends (.part .join) join.extending :=
  .of_reads (by decide) fun ts => Rule.joinClause_reads (nested_openings_reads ts)

theorem selectQuery_extends : Form.Extends (.part .selectQuery) selectQuery.extending :=
  .of_reads (by decide) fun ts => Rule.selectQuery_reads (nested_openings_reads ts)

theorem columns_extends (keyword : TokenKind) :
    Form.Extends (Phrase.kind keyword * .separated (.part .orderedColumn) (Phrase.kind .comma))
      groupBy.extending :=
  .of_reads (by decide) fun _ => Rule.columnsClause_reads (a := 0) (k := .groupBy)

theorem aliasing_extends : aliasing.Extends [] :=
  ((Form.Extends.letter _).opt rfl).mul (.letter _) (by decide)

end Nonterminal

variable {ts : TokenList} {nest : Nest} {i : Nat} {s : Stretch}

namespace Rule

theorem aliasAfter_greedy : GreedyAfter ts Nonterminal.aliasing (aliasAfter ts) := by
  refine ⟨fun h => ?_, fun {last} h hk => ?_⟩
  · exact .of_extends (aliasAfter_fits h).spells aliasing_extends List.not_mem_nil
  · have hk : ts.kind (last + 1) ∈ [TokenKind.as, .literal] := hk
    unfold aliasAfter at h
    split at h
    next =>
      split at h
      next => cases h
      next => cases h
    next has =>
      split at h
      next => cases h
      next hl =>
        rcases List.mem_cons.mp hk with hk | hk
        · exact has hk
        · exact hl (List.mem_singleton.mp hk)

theorem aliased_longest {f : Phrase} {stops : List TokenKind} {rule : Rule}
    (hr : rule.Greedy ts f) (hf : f.Extends stops)
    (hs : ∀ k ∈ [TokenKind.as, .literal], k ∉ stops) (h : aliased ts rule i = .ok s) :
    ts.Longest (f * Nonterminal.aliasing.opt) i (s.last + 1) :=
  hr.chain_opt aliasAfter_greedy hf hs h

theorem subquery_greedy (hn : nest.Makes ts) :
    Greedy ts (Phrase.parenthesized (.part .selectQuery)) (subquery ts nest) := by
  intro i n h
  obtain ⟨close, hc, h⟩ := bind_eq_ok.mp h
  obtain ⟨inner, hi, h⟩ := bind_eq_ok.mp h
  cases h
  exact enclosed_longest (e := .selectQuery) hn hc hi

theorem source_greedy (hn : nest.Makes ts) : Greedy ts (.part .source) (source ts nest) := by
  intro i n h
  refine .part ?_
  unfold source at h
  split at h
  next hk =>
    cases h
    have hi : ts.kind i ∉ [TokenKind.leftParen] := by rw [hk]; decide
    exact .left (nameLast_longest true (by simp) hk) rfl hi
  split at h
  next hl hk =>
    have hi : ts.kind i ∉ [TokenKind.literal] := by rw [hk]; decide
    exact .right (subquery_greedy hn i n h) rfl hi
  next => cases h

theorem fromClause_greedy (hn : nest.Makes ts) :
    Greedy ts (.part .from) (fromClause ts nest) := by
  intro i n h
  obtain ⟨_, hk, h⟩ := bind_eq_ok.mp h
  obtain ⟨s, hs, h⟩ := bind_eq_ok.mp h
  cases h
  have ha := aliased_longest (source_greedy hn) source_extends (by decide) hs
  exact .part (.assoc (.kind_mul (expect_eq_ok.mp hk) ha))

theorem onCondition_greedy (hn : nest.Makes ts) :
    GreedyAfter ts (Phrase.kind .on * .part .condition) (onCondition ts nest) :=
  (condition_greedy hn).announced_after (· == .on) [.on] (by simp)

theorem joinClause_greedy (hn : nest.Makes ts) :
    Greedy ts (.part .join) (joinClause ts nest) := by
  intro i n h
  unfold joinClause at h
  split at h
  next => cases h
  next hk =>
    obtain ⟨s, hs, h⟩ := bind_eq_ok.mp h
    obtain ⟨on, ho, h⟩ := bind_eq_ok.mp h
    cases h
    have hk := mem_joinKinds.mpr (by simpa using hk)
    have ha : ts.Longest (Phrase.kinds joinKinds * .part .source * aliasing.opt) i (s.last + 1) :=
      .assoc (.kinds_mul hk (aliased_longest (source_greedy hn) source_extends (by decide) hs))
    have he : Form.Extends (Phrase.kinds joinKinds * .part .source * aliasing.opt)
        [.dot, .as, .literal] :=
      .assoc (.letter_mul (source_extends.mul (aliasing_extends.opt rfl) (by decide)))
    exact .part (ha.mul ((onCondition_greedy hn).many_opt ho) he (by decide))

theorem conditionClause_greedy (hn : nest.Makes ts) {keyword : TokenKind} {k : NodeKind} :
    Greedy ts (Phrase.kind keyword * .part .condition) (conditionClause ts nest keyword k) := by
  intro i n h
  obtain ⟨_, hk, h⟩ := bind_eq_ok.mp h
  obtain ⟨c, hc, h⟩ := bind_eq_ok.mp h
  cases h
  exact .kind_mul (expect_eq_ok.mp hk) (condition_greedy hn _ c hc)

theorem columnName_greedy :
    Greedy ts (Phrase.kind .literal * .opt (Phrase.kind .dot * Phrase.kind .literal))
      (columnName ts) := by
  intro i n h
  unfold columnName at h
  split at h
  next hk =>
    cases h
    exact nameLast_longest false (by simp) hk
  next => cases h

theorem direction_greedy : GreedyAfter ts (Phrase.kinds [.asc, .desc]) (direction ts) := by
  refine ⟨fun {last s} h => ?_, fun {last} h hk => ?_⟩
  · exact .of_extends (direction_fits h).spells (.letter _) List.not_mem_nil
  · have hk : ts.kind (last + 1) ∈ [TokenKind.asc, .desc] := hk
    unfold direction at h
    rw [if_pos (by simpa using hk)] at h
    cases h

theorem orderedColumn_greedy : Greedy ts (.part .orderedColumn) (orderedColumn ts) := by
  intro i n h
  obtain ⟨s, hs, h⟩ := bind_eq_ok.mp h
  cases h
  exact .part (columnName_greedy.chain_opt direction_greedy
    (.of_reads (by decide) fun _ => columnName_reads (a := 0)) (by decide) hs)

theorem columnsClause_greedy {keyword : TokenKind} {k : NodeKind} :
    Greedy ts (Phrase.kind keyword * .separated (.part .orderedColumn) (Phrase.kind .comma))
      (columnsClause ts keyword k) := by
  intro i n h
  obtain ⟨_, hk, h⟩ := bind_eq_ok.mp h
  obtain ⟨s, hs, h⟩ := bind_eq_ok.mp h
  cases h
  exact .kind_mul (expect_eq_ok.mp hk)
    (orderedColumn_greedy.commaList orderedColumn_extends rfl (by decide) hs)

theorem limitArgument_greedy : Greedy ts Phrase.value (limitArgument ts) :=
  fun i n h => .of_extends (limitArgument_makes i n h).spells (.letter _) List.not_mem_nil

theorem limitClause_greedy : Greedy ts (.part .limit) (limitClause ts) := by
  intro i n h
  obtain ⟨_, hk, h⟩ := bind_eq_ok.mp h
  obtain ⟨s, hs, h⟩ := bind_eq_ok.mp h
  cases h
  have hv : ts.Longest (Phrase.value * .opt (Phrase.kinds [.comma, .offset] * Phrase.value))
      (i + 1) (s.last + 1) :=
    limitArgument_greedy.chain_opt (limitArgument_greedy.announced_after _ _ (by simp)) (.letter _)
      (fun _ _ => List.not_mem_nil) hs
  exact .part (.assoc (.kind_mul (expect_eq_ok.mp hk) hv))

theorem field_greedy (hn : nest.Makes ts) : Greedy ts (.part .field) (field ts nest) := by
  intro i n h
  obtain ⟨s, hs, h⟩ := bind_eq_ok.mp h
  cases h
  exact .part (aliased_longest (expression_greedy hn) expression_extends (by decide) hs)

theorem selectClause_greedy (hn : nest.Makes ts) :
    Greedy ts (.part .select) (selectClause ts nest) := by
  intro i n h
  obtain ⟨_, hk, h⟩ := bind_eq_ok.mp h
  obtain ⟨s, hs, h⟩ := bind_eq_ok.mp h
  cases h
  exact .part (.kind_mul (expect_eq_ok.mp hk)
    ((field_greedy hn).commaList field_extends rfl (by decide) hs))

/-- Optional clauses are the longest that there can be one after another. -/
def ClausesGreedy (ts : TokenList) (g : Phrase) (clauses : List (TokenKind × Rule)) : Prop :=
  ∀ last s, Rule.clauses ts clauses last = .ok s → ts.Longest g (last + 1) (s.last + 1)

section

variable {n : Nonterminal} {keyword : TokenKind} {rule : Rule}

theorem clause_longest (hr : rule.Greedy ts (.part n)) (hk : n.starts = [keyword]) {last : Nat}
    (h : many (announced ts (· == keyword) rule) 1 last = .ok s) :
    ts.Longest (.opt (.part n)) (last + 1) (s.last + 1) := by
  have hs : Form.starts (.part n) = [keyword] := hk
  exact (hr.announced (p := (· == keyword)) (by simp [hs])).many_opt h

theorem clauses_last_greedy (hr : rule.Greedy ts (.part n)) (hk : n.starts = [keyword]) :
    ClausesGreedy ts (.opt (.part n)) [(keyword, rule)] := by
  intro last s h
  obtain ⟨one, ho, h⟩ := bind_eq_ok.mp h
  cases h
  have hone : ts.Longest (.opt (.part n)) (last + 1) (one.last + 1) := clause_longest hr hk ho
  exact hone

theorem clauses_cons_greedy (hr : rule.Greedy ts (.part n)) (hk : n.starts = [keyword])
    (he : Form.Extends (.part n) n.extending) {g : Phrase} {rest : List (TokenKind × Rule)}
    (hrest : ClausesGreedy ts g rest) (hg : ∀ k ∈ g.starts, k ∉ keyword :: n.extending) :
    ClausesGreedy ts (.opt (.part n) * g) ((keyword, rule) :: rest) := by
  intro last s h
  obtain ⟨one, ho, h⟩ := bind_eq_ok.mp h
  obtain ⟨more, hm, h⟩ := bind_eq_ok.mp h
  cases h
  have hs : Form.Extends (.opt (.part n)) (keyword :: n.extending) := by
    have hs := he.opt rfl
    rwa [show Form.starts (.part n) = [keyword] from hk] at hs
  exact (clause_longest hr hk ho).mul (hrest one.last more hm) hs hg

end

theorem optionalClauses_greedy (hn : nest.Makes ts) :
    ClausesGreedy ts (.opt (.part .where) * (.opt (.part .groupBy) * (.opt (.part .having)
      * (.opt (.part .orderBy) * .opt (.part .limit))))) (optionalClauses ts nest) :=
  have hlimit := clauses_last_greedy limitClause_greedy rfl
  have horder := clauses_cons_greedy (Greedy.part (n := .orderBy) columnsClause_greedy) rfl
    (.part (columns_extends .orderBy)) hlimit (by decide)
  have hhaving := clauses_cons_greedy (Greedy.part (n := .having) (conditionClause_greedy hn)) rfl
    (.part condition_extends.letter_mul) horder (by decide)
  have hgroup := clauses_cons_greedy (Greedy.part (n := .groupBy) columnsClause_greedy) rfl
    (.part (columns_extends .groupBy)) hhaving (by decide)
  clauses_cons_greedy (Greedy.part (n := .where) (conditionClause_greedy hn)) rfl
    (.part condition_extends.letter_mul) hgroup (by decide)

theorem selectQuery_greedy (hn : nest.Makes ts) :
    Greedy ts (.part .selectQuery) (selectQuery ts nest) := by
  intro i n h
  obtain ⟨select, hs, h⟩ := bind_eq_ok.mp h
  obtain ⟨source, hf, h⟩ := bind_eq_ok.mp h
  obtain ⟨joins, hj, h⟩ := bind_eq_ok.mp h
  obtain ⟨rest, hr, h⟩ := bind_eq_ok.mp h
  cases h
  have hjoins := ((joinClause_greedy hn).announced fun k => mem_joinKinds.symm).many_star rfl rfl
    join_extends (by decide) hj (by omega)
  have hrest := hjoins.mul (optionalClauses_greedy hn _ rest hr) (join_extends.star rfl (by decide))
    (by decide)
  have hfrom := (fromClause_greedy hn _ source hf).mul hrest from_extends (by decide)
  have hselect := (selectClause_greedy hn i select hs).mul hfrom select_extends (by decide)
  refine .part (hselect.congr fun k => ?_)
  simp only [rule, TokenList.Spells, Form.spans_assoc]

theorem arm_greedy (hn : nest.Makes ts) :
    GreedyAfter ts (Phrase.kind .union * .part .selectQuery)
      (announced ts (· == .union) (arm ts nest)) := by
  refine ⟨fun {last s} h => ?_, fun {last} h hk => announced_eq_none.mp h ?_⟩
  · obtain ⟨hk, n, ha, rfl⟩ := announced_eq_some.mp h
    unfold arm at ha
    split at ha
    next => cases ha
    next => exact .kind_mul (beq_iff_eq.mp hk) (selectQuery_greedy hn _ n ha)
  · exact beq_iff_eq.mpr (List.mem_singleton.mp hk)

theorem query_greedy (hn : nest.Makes ts) : Greedy ts (.part .query) (query ts nest) := by
  intro i n h
  obtain ⟨s, hs, h⟩ := bind_eq_ok.mp h
  cases h
  exact .part ((selectQuery_greedy hn).chain_star (arm_greedy hn) selectQuery_extends (by decide)
    rfl rfl selectQuery_extends.letter_mul (by decide) hs)

end Rule

end SqlSelect
