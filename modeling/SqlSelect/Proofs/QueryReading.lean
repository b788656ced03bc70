import SqlSelect.Proofs.ConditionReading
import SqlSelect.Proofs.QueryLayout

namespace SqlSelect

open Nonterminal

namespace Rule

variable {ts : TokenList} {a : Nat} {nest : Nest} {i j : Nat}

theorem aliasAfter_reads : ReadsAfter ts a Nonterminal.aliasing [] (aliasAfter ts) := by
  refine ⟨fun {last j} _ h _ => ?_, fun {last} hk => ?_⟩
  · obtain ⟨u, ha, hl⟩ := Form.spans_mul.mp h
    unfold aliasAfter
    rcases Form.spans_opt.mp ha with rfl | ha
    · obtain ⟨hk, rfl⟩ := TokenList.spells_kind.mp hl
      refine ⟨.ofNode (.leaf .alias (last + 1) (last + 1)), ?_, rfl⟩
      rw [if_neg (by simp [hk]), if_pos hk]
    · obtain ⟨hk, rfl⟩ := TokenList.spells_kind.mp ha
      obtain ⟨hk', rfl⟩ := TokenList.spells_kind.mp hl
      refine ⟨.ofNode (.leaf .alias (last + 1) (last + 2)), ?_, rfl⟩
      rw [if_pos hk, if_pos hk']
  · have hk : ts.kind (last + 1) ∉ [TokenKind.as, .literal] := hk
    have hk : ts.kind (last + 1) ≠ .as ∧ ts.kind (last + 1) ≠ .literal := by simpa using hk
    unfold aliasAfter
    rw [if_neg hk.1, if_neg hk.2]

theorem aliased_reads {f : Phrase} {stops : List TokenKind} {rule : Rule}
    (hr : rule.Reads ts a f stops) (hs : ∀ k ∈ [TokenKind.as, .literal], k ∉ stops) (ha : a ≤ i)
    (h : ts.Spells (f * Nonterminal.aliasing.opt) i j)
    (hj : ts.kind j ∉ .as :: .literal :: stops) :
    ∃ s, aliased ts rule i = .ok s ∧ s.last + 1 = j :=
  hr.chain_opt (aliasAfter_reads.mono nofun) hs ha h hj

theorem subquery_reads (hn : nest.Reads ts a) :
    Reads ts a (Phrase.parenthesized (.part .selectQuery)) [] (subquery ts nest) := by
  intro i j ha h _
  obtain ⟨close, n, hc, hf, hl⟩ := hn.enclosed (e := .selectQuery) ha h i .subqueryEnd
  exact ⟨_, bind_eq_ok.mpr ⟨close, hc, bind_eq_ok.mpr ⟨n, hf, rfl⟩⟩, hl⟩

theorem source_reads (hn : nest.Reads ts a) :
    Reads ts a (.part .source) [.dot] (source ts nest) := by
  intro i j ha h hj
  unfold source
  rcases Form.spans_add.mp (Form.spans_part.mp h) with h | h
  · obtain ⟨hk, hl⟩ := nameLast_reads true (by simp) h (by simpa using hj)
    exact ⟨_, if_pos hk, hl⟩
  · have ho := (TokenList.spells_parenthesized.mp h).1
    rw [if_neg (by simp [ho]), if_pos ho]
    exact subquery_reads hn i j ha h List.not_mem_nil

theorem fromClause_reads (hn : nest.Reads ts a) :
    Reads ts a (.part .from) Nonterminal.from.extending (fromClause ts nest) := by
  intro i j ha h hj
  obtain ⟨hk, hs⟩ := TokenList.spells_kind_mul.mp (Form.spans_assoc.mp (Form.spans_part.mp h))
  obtain ⟨s, hs, hl⟩ := aliased_reads (source_reads hn) (by decide) (by omega) hs
    (TokenList.kind_not_mem_mono (by decide) hj)
  exact ⟨_, bind_eq_ok.mpr ⟨(), expect_eq_ok.mpr hk, bind_eq_ok.mpr ⟨s, hs, rfl⟩⟩, hl⟩

theorem onCondition_reads (hn : nest.Reads ts a) :
    ReadsAfter ts a (Phrase.kind .on * .part .condition) Nonterminal.condition.extending
      (onCondition ts nest) :=
  (condition_reads hn).announced_after (· == .on) [.on] (by simp)

theorem joinClause_reads (hn : nest.Reads ts a) :
    Reads ts a (.part .join) Nonterminal.join.extending (joinClause ts nest) := by
  intro i j ha h hj
  obtain ⟨u, h, ho⟩ := Form.spans_mul.mp (Form.spans_part.mp h)
  obtain ⟨hk, hs⟩ := TokenList.spells_kinds_mul.mp (Form.spans_assoc.mp h)
  have hle := TokenList.Spells.le hs
  have hu : ts.kind u ∉ Nonterminal.from.extending := TokenList.Spells.kind_not_mem ho
    (by decide) (TokenList.kind_not_mem_mono (by decide) hj)
  obtain ⟨s, hal, rfl⟩ := aliased_reads (source_reads hn) (by decide) (by omega) hs
    (TokenList.kind_not_mem_mono (by decide) hu)
  obtain ⟨on, ho, hl⟩ := (onCondition_reads hn).many_opt (by omega) ho
    (TokenList.kind_not_mem_mono (by decide) hj)
  refine ⟨⟨.join, i, on.last, s.nodes ++ on.nodes⟩, ?_, hl⟩
  unfold joinClause
  rw [mem_joinKinds.mp hk]
  exact bind_eq_ok.mpr ⟨s, hal, bind_eq_ok.mpr ⟨on, ho, rfl⟩⟩

theorem conditionClause_reads (hn : nest.Reads ts a) {keyword : TokenKind} {k : NodeKind} :
    Reads ts a (Phrase.kind keyword * .part .condition) Nonterminal.condition.extending
      (conditionClause ts nest keyword k) := by
  intro i j ha h hj
  obtain ⟨hk, hc⟩ := TokenList.spells_kind_mul.mp h
  obtain ⟨c, hc, hl⟩ := condition_reads hn (i + 1) j (by omega) hc hj
  exact ⟨_, bind_eq_ok.mpr ⟨(), expect_eq_ok.mpr hk, bind_eq_ok.mpr ⟨c, hc, rfl⟩⟩, hl⟩

theorem Reads.part {n : Nonterminal} {stops : List TokenKind} {rule : Rule}
    (h : rule.Reads ts a n.rule stops) : rule.Reads ts a (.part n) stops :=
  fun i j ha hs => h i j ha (Form.spans_part.mp hs)

theorem columnName_reads :
    Reads ts a (Phrase.kind .literal * .opt (Phrase.kind .dot * Phrase.kind .literal)) [.dot]
      (columnName ts) := by
  intro i j _ h hj
  obtain ⟨hk, hl⟩ := nameLast_reads false (by simp) h (by simpa using hj)
  exact ⟨_, if_pos hk, hl⟩

theorem direction_reads : ReadsAfter ts a (Phrase.kinds [.asc, .desc]) [] (direction ts) := by
  refine ⟨fun {last j} _ h _ => ?_, fun {last} hk => ?_⟩
  · obtain ⟨hk, rfl⟩ := TokenList.spells_kinds.mp h
    exact ⟨.ofNode (.leaf .order (last + 1) (last + 1)), if_pos (by simpa using hk), rfl⟩
  · have hk : ts.kind (last + 1) ∉ [TokenKind.asc, .desc] := hk
    exact if_neg (by simpa using hk)

theorem orderedColumn_reads :
    Reads ts a (.part .orderedColumn) Nonterminal.orderedColumn.extending (orderedColumn ts) := by
  intro i j ha h hj
  obtain ⟨s, hs, hl⟩ := columnName_reads.chain_opt (direction_reads.mono nofun) (by decide) ha
    (Form.spans_part.mp h) (TokenList.kind_not_mem_mono (by decide) hj)
  exact ⟨_, bind_eq_ok.mpr ⟨s, hs, rfl⟩, hl⟩

theorem columnsClause_reads {keyword : TokenKind} {k : NodeKind} :
    Reads ts a (Phrase.kind keyword * .separated (.part .orderedColumn) (Phrase.kind .comma))
      Nonterminal.groupBy.extending (columnsClause ts keyword k) := by
  intro i j ha h hj
  obtain ⟨hk, hs⟩ := TokenList.spells_kind_mul.mp h
  obtain ⟨s, hs, hl⟩ := orderedColumn_reads.commaList rfl rfl (by decide) (Nat.le_succ_of_le ha) hs
    (TokenList.kind_not_mem_mono (by decide) hj)
  exact ⟨_, bind_eq_ok.mpr ⟨(), expect_eq_ok.mpr hk, bind_eq_ok.mpr ⟨s, hs, rfl⟩⟩, hl⟩

theorem limitArgument_reads : Reads ts a Phrase.value [] (limitArgument ts) := by
  intro i j _ h _
  obtain ⟨⟨hk, hv⟩, rfl⟩ := Form.spans_one.mp h
  refine ⟨.leaf .operand i i, ?_, rfl⟩
  exact if_pos (by simp [TokenList.kind, hk, hv])

theorem offsetArgument_reads :
    ReadsAfter ts a (Phrase.kinds [.comma, .offset] * Phrase.value) [] (offsetArgument ts) :=
  limitArgument_reads.announced_after (fun k => k == .comma || k == .offset) [.comma, .offset]
    (by simp)

theorem limitClause_reads :
    Reads ts a (.part .limit) Nonterminal.limit.extending (limitClause ts) := by
  intro i j ha h hj
  obtain ⟨hk, hs⟩ := TokenList.spells_kind_mul.mp (Form.spans_assoc.mp (Form.spans_part.mp h))
  obtain ⟨s, hs, hl⟩ := limitArgument_reads.chain_opt offsetArgument_reads (by decide)
    (Nat.le_succ_of_le ha) hs hj
  exact ⟨_, bind_eq_ok.mpr ⟨(), expect_eq_ok.mpr hk, bind_eq_ok.mpr ⟨s, hs, rfl⟩⟩, hl⟩

theorem field_reads (hn : nest.Reads ts a) :
    Reads ts a (.part .field) Nonterminal.field.extending (field ts nest) := by
  intro i j ha h hj
  obtain ⟨s, hs, hl⟩ := aliased_reads (expression_reads hn) (by decide) ha (Form.spans_part.mp h)
    (TokenList.kind_not_mem_mono (by decide) hj)
  exact ⟨_, bind_eq_ok.mpr ⟨s, hs, rfl⟩, hl⟩

theorem selectClause_reads (hn : nest.Reads ts a) :
    Reads ts a (.part .select) Nonterminal.select.extending (selectClause ts nest) := by
  intro i j ha h hj
  obtain ⟨hk, hs⟩ := TokenList.spells_kind_mul.mp (Form.spans_part.mp h)
  obtain ⟨s, hs, hl⟩ := (field_reads hn).commaList rfl rfl (by decide) (Nat.le_succ_of_le ha) hs
    (TokenList.kind_not_mem_mono (by decide) hj)
  exact ⟨_, bind_eq_ok.mpr ⟨(), expect_eq_ok.mpr hk, bind_eq_ok.mpr ⟨s, hs, rfl⟩⟩, hl⟩

/-- Optional clauses find a phrase that is not followed by what could go on one of them. -/
def ClausesRead (ts : TokenList) (a : Nat) (g : Phrase) (clauses : List (TokenKind × Rule)) :
    Prop :=
  ∀ last j, a ≤ last + 1 → ts.Spells g (last + 1) j →
    ts.kind j ∉ Nonterminal.selectQuery.extending →
    ∃ s, Rule.clauses ts clauses last = .ok s ∧ s.last + 1 = j

section

variable {n : Nonterminal} {keyword : TokenKind} {rule : Rule} {last : Nat}

theorem clause_reads (hr : rule.Reads ts a (.part n) n.extending) (hk : n.starts = [keyword])
    (ha : a ≤ last + 1) (h : ts.Spells (.opt (.part n)) (last + 1) j)
    (hj : ts.kind j ∉ keyword :: n.extending) :
    ∃ s, many (announced ts (· == keyword) rule) 1 last = .ok s ∧ s.last + 1 = j := by
  have hs : Form.starts (.part n) = [keyword] := hk
  refine (hr.announced (p := (· == keyword)) rfl fun k => ?_).many_opt ha h ?_
  · simp [hs]
  · rw [hs]
    exact hj

theorem clauses_last_read (hr : rule.Reads ts a (.part n) n.extending) (hk : n.starts = [keyword])
    (hs : ∀ k ∈ keyword :: n.extending, k ∈ Nonterminal.selectQuery.extending) :
    ClausesRead ts a (.opt (.part n)) [(keyword, rule)] := by
  intro last j ha h hj
  obtain ⟨one, ho, hl⟩ := clause_reads hr hk ha h (TokenList.kind_not_mem_mono hs hj)
  exact ⟨_, bind_eq_ok.mpr ⟨one, ho, rfl⟩, hl⟩

theorem clauses_cons_read (hr : rule.Reads ts a (.part n) n.extending) (hk : n.starts = [keyword])
    (hs : ∀ k ∈ keyword :: n.extending, k ∈ Nonterminal.selectQuery.extending) {g : Phrase}
    {rest : List (TokenKind × Rule)} (hrest : ClausesRead ts a g rest)
    (hg : ∀ k ∈ g.starts, k ∉ keyword :: n.extending) :
    ClausesRead ts a (.opt (.part n) * g) ((keyword, rule) :: rest) := by
  intro last j ha h hj
  obtain ⟨u, h, hu⟩ := Form.spans_mul.mp h
  have hle := TokenList.Spells.le h
  have hk' : ts.kind u ∉ keyword :: n.extending :=
    TokenList.Spells.kind_not_mem hu hg (TokenList.kind_not_mem_mono hs hj)
  obtain ⟨one, ho, rfl⟩ := clause_reads hr hk ha h hk'
  obtain ⟨more, hm, hl⟩ := hrest one.last j (by omega) hu hj
  exact ⟨_, bind_eq_ok.mpr ⟨one, ho, bind_eq_ok.mpr ⟨more, hm, rfl⟩⟩, hl⟩

end

theorem optionalClauses_read (hn : nest.Reads ts a) :
    ClausesRead ts a (.opt (.part .where) * (.opt (.part .groupBy) * (.opt (.part .having)
      * (.opt (.part .orderBy) * .opt (.part .limit))))) (optionalClauses ts nest) :=
  have hlimit := clauses_last_read (limitClause_reads (a := a)) rfl (by decide)
  have horder := clauses_cons_read (Reads.part (n := .orderBy) columnsClause_reads) rfl (by decide)
    hlimit (by decide)
  have hhaving := clauses_cons_read (Reads.part (n := .having) (conditionClause_reads hn)) rfl
    (by decide) horder (by decide)
  have hgroup := clauses_cons_read (Reads.part (n := .groupBy) columnsClause_reads) rfl (by decide)
    hhaving (by decide)
  clauses_cons_read (Reads.part (n := .where) (conditionClause_reads hn)) rfl (by decide) hgroup
    (by decide)

theorem selectQuery_reads (hn : nest.Reads ts a) :
    Reads ts a (.part .selectQuery) Nonterminal.selectQuery.extending (selectQuery ts nest) := by
  intro i j ha h hj
  have hsize := TokenList.Spells.lt_size h rfl rfl
  have h := Form.spans_part.mp h
  simp only [rule, Form.spans_assoc] at h
  obtain ⟨u, hselect, h⟩ := Form.spans_mul.mp h
  obtain ⟨v, hfrom, h⟩ := Form.spans_mul.mp h
  obtain ⟨w, hjoins, hrest⟩ := Form.spans_mul.mp h
  have hu : ts.kind u ∉ Nonterminal.select.extending := by
    rw [List.mem_singleton.mp (TokenList.Spells.kind_mem hfrom rfl)]
    decide
  have hw : ts.kind w ∉ joinKinds ++ Nonterminal.join.extending :=
    TokenList.Spells.kind_not_mem hrest (by decide) (TokenList.kind_not_mem_mono (by decide) hj)
  have hv : ts.kind v ∉ Nonterminal.from.extending :=
    TokenList.Spells.kind_not_mem hjoins (by decide) (TokenList.kind_not_mem_mono (by decide) hw)
  have := TokenList.Spells.le hselect
  have := TokenList.Spells.le hfrom
  have := TokenList.Spells.le hjoins
  have := TokenList.Spells.le hrest
  obtain ⟨select, hs, rfl⟩ := selectClause_reads hn i u ha hselect hu
  obtain ⟨source, hf, rfl⟩ := fromClause_reads hn _ v (by omega) hfrom hv
  obtain ⟨joins, hjs, rfl⟩ := ((joinClause_reads hn).announced (p := TokenKind.isJoin) rfl
    fun k => mem_joinKinds.symm).many_star rfl (by decide) ts.size (by omega)
    hjoins hw (by omega)
  obtain ⟨rest, hr, hl⟩ := optionalClauses_read hn _ j (by omega) hrest hj
  exact ⟨_, bind_eq_ok.mpr ⟨select, hs, bind_eq_ok.mpr ⟨source, hf, bind_eq_ok.mpr ⟨joins, hjs,
    bind_eq_ok.mpr ⟨rest, hr, rfl⟩⟩⟩⟩, hl⟩

theorem arm_reads (hn : nest.Reads ts a) :
    Reads ts a (Phrase.kind .union * .part .selectQuery) Nonterminal.selectQuery.extending
      (arm ts nest) := by
  intro i j ha h hj
  obtain ⟨_, hs⟩ := TokenList.spells_kind_mul.mp h
  have hk : ts.kind (i + 1) = .select := List.mem_singleton.mp (TokenList.Spells.kind_mem hs rfl)
  obtain ⟨n, hq, hl⟩ := selectQuery_reads hn (i + 1) j (by omega) hs hj
  refine ⟨n, ?_, hl⟩
  unfold arm
  rw [if_neg (by simp [hk])]
  exact hq

theorem query_reads (hn : nest.Reads ts a) :
    Reads ts a (.part .query) Nonterminal.query.extending (query ts nest) := by
  intro i j ha h hj
  have hp (k : TokenKind) : (k == .union) = true ↔ k ∈ [TokenKind.union] := by simp
  obtain ⟨s, hs, hl⟩ := (selectQuery_reads hn).chain_star ((arm_reads hn).announced rfl hp) rfl rfl
    rfl (by decide) ha (Form.spans_part.mp h) hj
  exact ⟨_, bind_eq_ok.mpr ⟨s, hs, rfl⟩, hl⟩

end Rule

end SqlSelect
