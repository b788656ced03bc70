import SqlSelect.Proofs.LocatingRules

namespace SqlSelect

open Nonterminal

namespace Rule

variable {ts : TokenList} {nest : Nest} {i : Nat} {x : Fault}

theorem aliasAfter_locates : LocatesAfter ts aliasing (aliasAfter ts) := by
  intro last x h hx
  unfold aliasAfter at h
  split at h
  next has =>
    split at h
    next => cases h
    next =>
      cases h
      have hs : ts.Spells (.opt (Phrase.kind .as)) (last + 1) (last + 2) :=
        .take (TokenList.spells_kind.mpr ⟨has, rfl⟩)
      exact .after hs .here
  next =>
    split at h
    next => cases h
    next => cases h

theorem aliased_locates {f : Phrase} {rule : Rule} (hr : rule.Locates ts f)
    (hf : rule.Finds ts f) (h : aliased ts rule i = .error x) (hx : x.Misfit) :
    ts.Located (f * aliasing.opt) i x := hr.chain_opt hf aliasAfter_locates h hx

theorem subquery_locates (hn : nest.Makes ts) (hl : nest.Locates ts)
    (ho : ts.kind i = .leftParen) (h : subquery ts nest i = .error x) (hx : x.Misfit) :
    ts.Located (Phrase.parenthesized (.part .selectQuery)) i x := by
  obtain ⟨close, _, h⟩ := closing_bind_eq_error ho h hx
  exact hl.enclosed (e := .selectQuery) hn ho (bind_ok_eq_error.mp h) hx

theorem source_locates (hn : nest.Makes ts) (hl : nest.Locates ts) :
    Locates ts (.part .source) (source ts nest) := by
  intro i x h hx
  unfold source at h
  split at h
  next => cases h
  split at h
  next ho => exact .part ((subquery_locates hn hl ho h hx).mono fun _ => .right)
  next =>
    cases h
    exact .here

theorem fromClause_locates (hn : nest.Makes ts) (hl : nest.Locates ts) :
    Locates ts (.part .from) (fromClause ts nest) := by
  refine fun i x h hx => .part (.assoc (.keyword h fun h => ?_))
  exact aliased_locates (source_locates hn hl) (source_greedy hn).finds (bind_ok_eq_error.mp h) hx

theorem onCondition_locates (hn : nest.Makes ts) (hl : nest.Locates ts) :
    LocatesAfter ts (Phrase.kind .on * .part .condition) (onCondition ts nest) :=
  (condition_locates hn hl).announced_after (· == .on) [.on] (by simp)

theorem joinClause_locates (hn : nest.Makes ts) (hl : nest.Locates ts) :
    Locates ts (.part .join) (joinClause ts nest) := by
  intro i x h hx
  refine .part ?_
  unfold joinClause at h
  split at h
  next =>
    cases h
    exact .here
  next hk =>
    have hk := mem_joinKinds.mpr (by simpa using hk)
    rcases bind_eq_error.mp h with h | ⟨s, hs, h⟩
    · have ha := aliased_locates (source_locates hn hl) (source_greedy hn).finds h hx
      exact (TokenList.Located.assoc (.kinds_mul hk ha)).mul
    have hs := aliased_longest (source_greedy hn) source_extends (by decide) hs
    have ho := (onCondition_locates hn hl).many_opt (bind_ok_eq_error.mp h) hx
    exact .after (Form.spans_assoc.mpr (TokenList.spells_kinds_mul.mpr ⟨hk, hs.spells⟩)) ho

theorem conditionClause_locates (hn : nest.Makes ts) (hl : nest.Locates ts) {keyword : TokenKind}
    {k : NodeKind} :
    Locates ts (Phrase.kind keyword * .part .condition) (conditionClause ts nest keyword k) :=
  fun _ x h hx => .keyword h fun h => condition_locates hn hl _ x (bind_ok_eq_error.mp h) hx

theorem orderedColumn_locates : Locates ts (.part .orderedColumn) (orderedColumn ts) := by
  have hcolumn : Locates ts (Phrase.kind .literal * .opt (Phrase.kind .dot * Phrase.kind .literal))
      (columnName ts) := by
    intro i x h hx
    unfold columnName at h
    split at h
    next => cases h
    next =>
      cases h
      exact .here
  have hdirection : LocatesAfter ts (Phrase.kinds [.asc, .desc]) (direction ts) := by
    intro last x h hx
    unfold direction at h
    split at h
    next => cases h
    next => cases h
  intro i x h hx
  exact .part (hcolumn.chain_opt columnName_greedy.finds hdirection (bind_ok_eq_error.mp h) hx)

theorem columnsClause_locates {keyword : TokenKind} {k : NodeKind} :
    Locates ts (Phrase.kind keyword * .separated (.part .orderedColumn) (Phrase.kind .comma))
      (columnsClause ts keyword k) := by
  refine fun i x h hx => .keyword h fun h => ?_
  exact orderedColumn_locates.commaList orderedColumn_greedy.finds (bind_ok_eq_error.mp h) hx

theorem limitArgument_locates : Locates ts Phrase.value (limitArgument ts) := by
  intro i x h hx
  unfold limitArgument at h
  split at h
  next => cases h
  next =>
    cases h
    exact .here

theorem limitClause_locates : Locates ts (.part .limit) (limitClause ts) := by
  have hoffset : LocatesAfter ts (Phrase.kinds [.comma, .offset] * Phrase.value)
      (offsetArgument ts) := limitArgument_locates.announced_after _ _ (by simp)
  refine fun i x h hx => .part (.assoc (.keyword h fun h => ?_))
  exact limitArgument_locates.chain_opt limitArgument_greedy.finds hoffset
    (bind_ok_eq_error.mp h) hx

theorem field_locates (hn : nest.Makes ts) (hl : nest.Locates ts) :
    Locates ts (.part .field) (field ts nest) := by
  intro i x h hx
  exact .part (aliased_locates (expression_locates hn hl) (expression_greedy hn).finds
    (bind_ok_eq_error.mp h) hx)

theorem selectClause_locates (hn : nest.Makes ts) (hl : nest.Locates ts) :
    Locates ts (.part .select) (selectClause ts nest) := by
  refine fun i x h hx => .part (.keyword h fun h => ?_)
  exact (field_locates hn hl).commaList (field_greedy hn).finds (bind_ok_eq_error.mp h) hx

/-- Optional clauses that fail one after another fail at what does not fit. -/
def ClausesLocate (ts : TokenList) (g : Phrase) (clauses : List (TokenKind × Rule)) : Prop :=
  ∀ last x, Rule.clauses ts clauses last = .error x → x.Misfit → ts.Located g (last + 1) x

section

variable {n : Nonterminal} {keyword : TokenKind} {rule : Rule}

theorem clauses_last_locate (hr : rule.Locates ts (.part n)) :
    ClausesLocate ts (.opt (.part n)) [(keyword, rule)] := by
  intro last x h hx
  rcases bind_eq_error.mp h with h | ⟨one, _, h⟩
  · exact (hr.announced (· == keyword)).many_opt h hx
  · cases h

theorem clauses_cons_locate (hr : rule.Locates ts (.part n)) (hg : rule.Greedy ts (.part n))
    (hk : n.starts = [keyword]) {g : Phrase} {rest : List (TokenKind × Rule)}
    (hrest : ClausesLocate ts g rest) (hw : g.written (fun _ => true) = true := by rfl) :
    ClausesLocate ts (.opt (.part n) * g) ((keyword, rule) :: rest) := by
  intro last x h hx
  rcases bind_eq_error.mp h with h | ⟨one, ho, h⟩
  · exact ((hr.announced (· == keyword)).many_opt h hx).mul hw
  · have hone := (clause_longest hg hk ho).spells
    exact .after hone (hrest one.last x (bind_ok_eq_error.mp h) hx)

end

theorem optionalClauses_locate (hn : nest.Makes ts) (hl : nest.Locates ts) :
    ClausesLocate ts (.opt (.part .where) * (.opt (.part .groupBy) * (.opt (.part .having)
      * (.opt (.part .orderBy) * .opt (.part .limit))))) (optionalClauses ts nest) :=
  have hlimit := clauses_last_locate limitClause_locates
  have horder := clauses_cons_locate (Locates.part (n := .orderBy) columnsClause_locates)
    (Greedy.part columnsClause_greedy) rfl hlimit
  have hhaving := clauses_cons_locate (Locates.part (n := .having) (conditionClause_locates hn hl))
    (Greedy.part (conditionClause_greedy hn)) rfl horder
  have hgroup := clauses_cons_locate (Locates.part (n := .groupBy) columnsClause_locates)
    (Greedy.part columnsClause_greedy) rfl hhaving
  clauses_cons_locate (Locates.part (n := .where) (conditionClause_locates hn hl))
    (Greedy.part (conditionClause_greedy hn)) rfl hgroup

theorem selectQuery_locates (hn : nest.Makes ts) (hl : nest.Locates ts) :
    Locates ts (.part .selectQuery) (selectQuery ts nest) := by
  intro i x h hx
  have hparts : ts.Located (.part .select * (.part .from * ((Form.part .join).star *
      (.opt (.part .where) * (.opt (.part .groupBy) * (.opt (.part .having)
        * (.opt (.part .orderBy) * .opt (.part .limit)))))))) i x := by
    rcases bind_eq_error.mp h with h | ⟨select, hs, h⟩
    · exact (selectClause_locates hn hl i x h hx).mul
    refine .after (selectClause_greedy hn i select hs).spells ?_
    rcases bind_eq_error.mp h with h | ⟨source, hf, h⟩
    · exact (fromClause_locates hn hl _ x h hx).mul
    refine .after (fromClause_greedy hn _ source hf).spells ?_
    have hjoin := (joinClause_locates hn hl).announced TokenKind.isJoin
    have hfinds := (joinClause_greedy hn).announced fun k => mem_joinKinds.symm
    rcases bind_eq_error.mp h with h | ⟨joins, hj, h⟩
    · exact (hjoin.many_star hfinds.finds h hx).mul
    have hjoins := hfinds.many_star rfl rfl join_extends (by decide) hj (by omega)
    refine .after hjoins.spells ?_
    exact optionalClauses_locate hn hl joins.last x (bind_ok_eq_error.mp h) hx
  refine .part (hparts.mono fun j hb => ⟨hb.1, hb.2.imp fun more hs => ?_⟩)
  simpa only [rule, Form.spans_assoc] using hs

theorem arm_locates (hn : nest.Makes ts) (hl : nest.Locates ts) :
    LocatesAfter ts (Phrase.kind .union * .part .selectQuery)
      (announced ts (· == .union) (arm ts nest)) := by
  intro last x h hx
  unfold announced at h
  split at h
  next hk =>
    refine .kind_mul (beq_iff_eq.mp hk) ?_
    have h := bind_ok_eq_error.mp h
    unfold arm at h
    split at h
    next =>
      cases h
      exact .here
    next => exact selectQuery_locates hn hl _ x h hx
  next => cases h

theorem query_locates (hn : nest.Makes ts) (hl : nest.Locates ts) :
    Locates ts (.part .query) (query ts nest) := by
  intro i x h hx
  exact .part ((selectQuery_locates hn hl).chain_star (selectQuery_greedy hn).finds
    (arm_locates hn hl) (arm_greedy hn).finds (bind_ok_eq_error.mp h) hx)

end Rule

/-- No deeper level is complained about but as being too deep. -/
theorem nested_locates (ts : TokenList) (depth : Nat) : (nested ts depth).Locates ts := by
  induction depth with
  | zero =>
    intro blame e i x h hx
    cases h
    exact (hx.2 rfl).elim
  | succ depth ih =>
    have hn := nested_makes ts depth
    intro blame e
    cases e with
    | selectQuery => exact Rule.selectQuery_locates hn ih
    | condition => exact Rule.condition_locates hn ih
    | expression => exact Rule.expression_locates hn ih

end SqlSelect
