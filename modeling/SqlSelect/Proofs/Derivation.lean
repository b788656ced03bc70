import SqlSelect.Proofs.Layout
import SqlSelect.Proofs.Spelling
import SqlSelect.Proofs.Subtree

namespace SqlSelect

open Nonterminal

/-- What the tokens of a node of each kind spell. -/
def NodeKind.phrase : NodeKind → Phrase
  | .query => .part .query
  | .selectQuery => .part .selectQuery
  | .select => .part .select
  | .from => .part .from
  | .join => .part .join
  | .where => .part .where
  | .having => .part .having
  | .groupBy => .part .groupBy
  | .orderBy => .part .orderBy
  | .limit => .part .limit
  | .condition => .part .condition
  | .expression => .part .expression
  | .operand | .parenthesis => .part .operand
  | .operator =>
    Phrase.kinds operatorKinds + Phrase.kind .in
      + Phrase.kind .not * Phrase.kinds [.like, .between, .in] + Phrase.kinds [.and, .or]
  | .unaryOperator => signed
  | .function => .part .function
  | .alias => Nonterminal.aliasing
  | .source => .part .source
  | .columnName => Phrase.kind .literal * (Phrase.kind .dot * Phrase.kind .literal).opt
  | .order => Phrase.kinds [.asc, .desc]
  | .field => .part .field + .part .orderedColumn
  | .list => .part .list

def Role.phrase : Role → Phrase
  | .of k => k.phrase
  | .field => .part .field
  | .column => .part .orderedColumn
  | .operand => .part .operand
  | .signed => Nonterminal.signed
  | .enclosed => .part .expression
  | .operator => .part .operator
  | .membership => Nonterminal.membership
  | .connective => Phrase.kinds [.and, .or]
  | .subcondition => .part .condition
  | .value => Phrase.value

def Slot.phrase : Slot → Phrase
  | .token t => .one t
  | .child r => r.phrase
  | .wrapped => .part .conditionTerm

/-- What is spelt where every child spells what its role asks for. -/
def Form.phrase : Form Slot Empty → Phrase
  | .one slot => slot.phrase
  | .part n => n.elim
  | .between a b f => a.phrase * f.phrase * b.phrase
  | .seq f g => f.phrase * g.phrase
  | .alt f g => f.phrase + g.phrase
  | .opt f => .opt f.phrase
  | .star f => .star f.phrase

variable {ts : TokenList}

/-- A node spells what any role that it can stand in asks for. -/
def Node.Spells (ts : TokenList) (n : Node) : Prop :=
  ∀ r : Role, r.Admits ts n → ts.Spells r.phrase n.first (n.last + 1)

theorem TokenList.Parentheses.inside {i j pairs : Nat}
    (h : ts.Parentheses i j (pairs + 1)) : ts.Parentheses (i + 1) j pairs := by
  intro m hm
  have ho := (h (m + 1) (by omega)).1
  rw [show i + (m + 1) = i + 1 + m by omega] at ho
  exact ⟨ho, (h m (by omega)).2⟩

theorem spells_conditionTerm_of_parentheses {first last : Nat}
    (h : ts.Spells (.part .expression) first (last + 1)) {pairs i : Nat}
    (hi : i + pairs = first) (hp : ts.Parentheses i (last + 1) pairs) :
    ts.Spells (.part .conditionTerm) i (last + 1 + pairs) := by
  induction pairs generalizing i with
  | zero =>
    cases hi
    exact .part (.right h)
  | succ pairs ih =>
    have hc : ts.Spells (.part .condition) (i + 1) (last + 1 + pairs) :=
      .part (.seq (ih (by omega) hp.inside) .stop)
    have ho := (hp 0 (by omega)).1
    refine .part (.left (TokenList.spells_parenthesized.mpr ⟨ho, _, hc, ?_, rfl⟩))
    exact (hp pairs (by omega)).2

theorem Slot.Takes.spells {slot : Slot} {p q : Place} (h : slot.Takes ts p q)
    (hc : ∀ c ∈ p.children, c.Spells ts) :
    ts.Spells slot.phrase p.index q.index ∧ ∀ c ∈ q.children, c ∈ p.children := by
  cases slot with
  | token t =>
    obtain ⟨ht, rfl⟩ := h
    exact ⟨.one ⟨ht, rfl⟩, fun _ hm => hm⟩
  | child r =>
    obtain ⟨c, hr, hi, _, hch, hq⟩ := h
    rw [hi, hq, hch]
    exact ⟨hc c (by simp [hch]) r hr, fun _ hm => List.mem_cons_of_mem c hm⟩
  | wrapped =>
    obtain ⟨c, pairs, hk, hi, _, hp, hch, hq⟩ := h
    rw [hq, hch]
    have he := hc c (by simp [hch]) (.of .expression) hk
    exact ⟨spells_conditionTerm_of_parentheses he hi hp, fun _ hm => List.mem_cons_of_mem c hm⟩

theorem NodeKind.Layout.spells {f : NodeKind.Layout} {p q : Place}
    (h : f.Spans (Slot.Takes ts) Empty.elim p q) (hc : ∀ c ∈ p.children, c.Spells ts) :
    ts.Spells f.phrase p.index q.index ∧ ∀ c ∈ q.children, c ∈ p.children := by
  induction h with
  | one h => exact h.spells hc
  | @part n => exact n.elim
  | between ha _ hb ih =>
    have h₁ := ha.spells hc
    have h₂ := ih fun c hm => hc c (h₁.2 c hm)
    have h₃ := hb.spells fun c hm => hc c (h₁.2 c (h₂.2 c hm))
    exact ⟨.seq (.seq h₁.1 h₂.1) h₃.1, fun c hm => h₁.2 c (h₂.2 c (h₃.2 c hm))⟩
  | seq _ _ ihf ihg =>
    have h₁ := ihf hc
    have h₂ := ihg fun c hm => hc c (h₁.2 c hm)
    exact ⟨.seq h₁.1 h₂.1, fun c hm => h₁.2 c (h₂.2 c hm)⟩
  | left _ ih => exact ⟨.left (ih hc).1, (ih hc).2⟩
  | right _ ih => exact ⟨.right (ih hc).1, (ih hc).2⟩
  | skip => exact ⟨.skip, fun _ hm => hm⟩
  | take _ ih => exact ⟨.take (ih hc).1, (ih hc).2⟩
  | stop => exact ⟨.stop, fun _ hm => hm⟩
  | step _ _ ihf ihg =>
    have h₁ := ihf hc
    have h₂ := ihg fun c hm => hc c (h₁.2 c hm)
    exact ⟨.step h₁.1 h₂.1, fun c hm => h₁.2 c (h₂.2 c hm)⟩

theorem spells_term {i j : Nat} (h : ts.Spells NodeKind.term.phrase i j) :
    ts.Spells (.part .conditionTerm) i j := by
  rcases Form.spans_add.mp h with h | h
  · exact h
  · exact .part (.left h.bracket)

/-- The layouts are the rules of the grammar, but for rules that have a part without a node. -/
theorem NodeKind.layout_spells {k : NodeKind} {i j : Nat} (h : ts.Spells k.layout.phrase i j) :
    ts.Spells k.phrase i j := by
  cases k with
  | query | selectQuery | select | «from» | join | «where» | having | groupBy | orderBy | limit
  | expression =>
    exact .part h
  | condition =>
    obtain ⟨u, ht, hs⟩ := Form.spans_mul.mp h
    refine .part (.seq (spells_term ht) (hs.star_mono fun _ _ h => ?_))
    obtain ⟨v, hc, ht⟩ := Form.spans_mul.mp h
    exact .seq hc (spells_term ht)
  | unaryOperator =>
    obtain ⟨u, hs, ho⟩ := Form.spans_mul.mp h
    exact .seq (.take hs) ho
  | «alias» | columnName | order | operator => exact h
  | operand =>
    rcases Form.spans_add.mp h with h | h
    · exact .part (.left (.left (.left h)))
    · exact .part (.left (.left (.right h)))
  | parenthesis => exact .part (.right h.bracket)
  | function =>
    obtain ⟨u, hf, ha⟩ := Form.spans_mul.mp h
    exact .part (.seq hf ha.bracket)
  | source =>
    rcases Form.spans_add.mp h with h | h
    · exact .part (.left h)
    · exact .part (.right h.bracket)
  | list => exact .part h.bracket
  | field =>
    rcases Form.spans_add.mp h with h | h
    · exact .left (.part h)
    · exact .right (.part h)

theorem operator_cases {first last : Nat}
    (h : ts.Spells NodeKind.operator.phrase first (last + 1)) :
    last = first ∧ (ts.kind first ∈ operatorKinds ∨ ts.kind first = .in ∨
        ts.kind first ∈ [TokenKind.and, .or]) ∨
      last = first + 1 ∧ ts.kind first = .not ∧
        ts.kind last ∈ [TokenKind.like, .between, .in] := by
  rcases Form.spans_add.mp h with h | h
  · rcases Form.spans_add.mp h with h | h
    · rcases Form.spans_add.mp h with h | h
      · obtain ⟨hk, he⟩ := TokenList.spells_kinds.mp h
        exact .inl ⟨by omega, .inl hk⟩
      · obtain ⟨hk, he⟩ := TokenList.spells_kind.mp h
        exact .inl ⟨by omega, .inr (.inl hk)⟩
    · obtain ⟨u, hn, hm⟩ := Form.spans_mul.mp h
      obtain ⟨hk, rfl⟩ := TokenList.spells_kind.mp hn
      obtain ⟨hl, he⟩ := TokenList.spells_kinds.mp hm
      obtain rfl : last = first + 1 := by omega
      exact .inr ⟨rfl, hk, hl⟩
  · obtain ⟨hk, he⟩ := TokenList.spells_kinds.mp h
    exact .inl ⟨by omega, .inr (.inr hk)⟩

/-- An operator is of one of three sorts, which its first and its last token tell. -/
theorem spells_operator {first last : Nat}
    (h : ts.Spells NodeKind.operator.phrase first (last + 1)) :
    (ts.kind first ∉ [TokenKind.and, .or] → ts.kind last ≠ .in →
        ts.Spells (.part .operator) first (last + 1)) ∧
      (ts.kind last = .in → ts.Spells Nonterminal.membership first (last + 1)) ∧
      (ts.kind first ∈ [TokenKind.and, .or] →
        ts.Spells (Phrase.kinds [.and, .or]) first (last + 1)) := by
  rcases operator_cases h with ⟨rfl, hk⟩ | ⟨rfl, hk, hm⟩
  · refine ⟨fun ha hi => ?_, fun hi => ?_, fun ha => TokenList.spells_kinds.mpr ⟨ha, rfl⟩⟩
    · have ho := hk.resolve_right fun h => h.elim hi ha
      exact .part (.left (TokenList.spells_kinds.mpr ⟨ho, rfl⟩))
    · exact .left (TokenList.spells_kind.mpr ⟨hi, rfl⟩)
  · have hn : ts.Spells (Phrase.kind .not) first (first + 1) :=
      TokenList.spells_kind.mpr ⟨hk, rfl⟩
    refine ⟨fun _ hi => ?_, fun hi => ?_, fun ha => by simp [hk] at ha⟩
    · have hm : ts.kind (first + 1) ∈ [TokenKind.like, .between] := by simp_all
      exact .part (.right (.seq hn (TokenList.spells_kinds.mpr ⟨hm, rfl⟩)))
    · exact .right (.seq hn (TokenList.spells_kind.mpr ⟨hi, rfl⟩))

theorem spells_expression_of_operand {i j : Nat} (h : ts.Spells (.part .operand) i j) :
    ts.Spells (.part .expression) i j := .part (.seq (.seq .skip h) .stop)

theorem spells_operand_of_kind {k : NodeKind} {i j : Nat} (h : ts.Spells k.phrase i j)
    (hk : k ∈ [NodeKind.operand, .function, .parenthesis]) : ts.Spells (.part .operand) i j := by
  simp only [List.mem_cons, List.not_mem_nil, or_false] at hk
  rcases hk with rfl | rfl | rfl
  · exact h
  · exact .part (.left (.right h))
  · exact h

/-- A field begins with an expression or with a column name, by which it is told what it is. -/
theorem spells_field {n : Node} (hk : n.kind = .field) (hn : n.LaidOut ts)
    (hc : ∀ c ∈ n.children, c.Spells ts) :
    (n.childKinds.head? = some .expression → ts.Spells (.part .field) n.first (n.last + 1)) ∧
      (n.childKinds.head? = some .columnName →
        ts.Spells (.part .orderedColumn) n.first (n.last + 1)) := by
  rw [Node.LaidOut, hk] at hn
  have hhead {k : NodeKind} {f : Form Slot Empty} {p q : Place}
      (h : (NodeKind.child k * f).Spans (Slot.Takes ts) Empty.elim p q) :
      (p.children.map (·.kind)).head? = some k := by
    obtain ⟨_, hc, _⟩ := Form.spans_mul.mp h
    obtain ⟨c, hr, _, _, hpc, _⟩ := Form.spans_one.mp hc
    rw [hpc]
    exact congrArg some hr
  rcases Form.spans_add.mp hn with h | h
  · have hs := (NodeKind.Layout.spells h hc).1
    refine ⟨fun _ => .part hs, fun he => ?_⟩
    cases (hhead h).symm.trans he
  · have hs := (NodeKind.Layout.spells h hc).1
    refine ⟨fun he => ?_, fun _ => .part hs⟩
    cases (hhead h).symm.trans he

theorem Node.All.spells {n : Node} (h : n.All (Node.LaidOut ts)) : n.Spells ts := by
  induction h with
  | @mk n hn _ ih =>
    have hs := NodeKind.layout_spells (NodeKind.Layout.spells hn ih).1
    intro r hr
    cases r with
    | of k => cases hr; exact hs
    | field => exact (spells_field hr.1 hn ih).1 hr.2
    | column => exact (spells_field hr.1 hn ih).2 hr.2
    | operand => exact spells_operand_of_kind hs hr
    | signed =>
      by_cases hu : n.kind = .unaryOperator
      · rw [hu] at hs
        exact hs
      · exact .seq .skip (spells_operand_of_kind hs (by simp_all [Role.Admits]))
    | enclosed =>
      rcases hr with hk | hk | hk
      · exact spells_expression_of_operand (spells_operand_of_kind hs (by simp [hk]))
      · exact spells_expression_of_operand (spells_operand_of_kind hs (by simp [hk]))
      · rw [hk.1] at hs
        exact hs
    | operator =>
      rw [hr.1] at hs
      exact (spells_operator hs).1 hr.2.1 hr.2.2
    | membership =>
      rw [hr.1] at hs
      exact (spells_operator hs).2.1 hr.2
    | connective =>
      rw [hr.1] at hs
      exact (spells_operator hs).2.2 hr.2
    | subcondition =>
      rw [hr.1] at hs
      exact hs
    | value =>
      obtain ⟨_, he, ha⟩ := hr
      rw [← he]
      exact .one ⟨ha, rfl⟩

end SqlSelect
