import SqlSelect.Proofs.LimitClause

namespace SqlSelect

open NodeKind

def Role.kinds : Role → List NodeKind
  | .of k => [k]
  | .field | .column => [.field]
  | .operand => [.operand, .function, .parenthesis]
  | .signed => [.operand, .function, .parenthesis, .unaryOperator]
  | .enclosed => [.operand, .function, .expression]
  | .operator | .membership | .connective => [.operator]
  | .subcondition => [.condition]
  | .value => [.operand]

def Slot.kinds : Slot → List NodeKind
  | .token _ => []
  | .child r => r.kinds
  | .wrapped => [.expression]

/-- The kinds of nodes that have no query in them, and so no clause of one. -/
def NodeKind.bare : List NodeKind :=
  [.select, .where, .having, .groupBy, .orderBy, .condition, .expression, .operand, .operator,
   .unaryOperator, .function, .alias, .parenthesis, .columnName, .order, .field, .list]

/-- Every limit clause in a tree is what is found where it begins. -/
def Node.LimitsFound (ts : TokenList) (n : Node) : Prop :=
  n.All fun m => m.kind = .limit → Rule.limitClause ts m.first = .ok m

variable {ts : TokenList} {n : Node}

theorem Role.Admits.kind_mem {r : Role} (h : r.Admits ts n) : n.kind ∈ r.kinds := by
  cases r with
  | of => exact List.mem_singleton.mpr h
  | operand | signed => exact h
  | enclosed => rcases h with h | h | ⟨h, _⟩ <;> simp [Role.kinds, h]
  | field | column | operator | membership | connective | subcondition | value =>
    exact List.mem_singleton.mpr h.1

theorem Slot.gives_kinds {kinds : List NodeKind} {slot : Slot} (h : ∀ k ∈ slot.kinds, k ∈ kinds) :
    slot.Gives ts fun c => c.kind ∈ kinds := by
  cases slot with
  | token t => exact Slot.gives_token t
  | child r => exact Slot.gives_child fun c hr => h c.kind hr.kind_mem
  | wrapped => exact Slot.gives_wrapped fun c hk => h c.kind (List.mem_singleton.mpr hk)

theorem NodeKind.bare_layout :
    ∀ k ∈ bare, k.layout.Uses fun slot => ∀ l ∈ slot.kinds, l ∈ bare := by decide

theorem Node.All.bare (h : n.All (Node.LaidOut ts)) (hk : n.kind ∈ bare) :
    n.All fun m => m.kind ∈ NodeKind.bare := by
  induction h with
  | @mk n hl _ ih =>
    have hchildren := hl.forall_children ((bare_layout n.kind hk).mono fun _ => Slot.gives_kinds)
    exact .mk hk fun c hc => ih c hc (hchildren c hc)

theorem Node.All.limitsFound (h : n.All (Node.LaidOut ts)) (hk : n.kind ∈ NodeKind.bare) :
    n.LimitsFound ts := by
  have hne : NodeKind.limit ∉ NodeKind.bare := by decide
  exact (h.bare hk).mono fun m hm hl => (hne (hl ▸ hm)).elim

theorem Node.limitsFound_leaf {k : NodeKind} (hk : k ≠ .limit) (first last : Nat) :
    (Node.leaf k first last).LimitsFound ts := .mk (fun h => (hk h).elim) nofun

/-- What a step adds has a property, and so has all that its repetition adds. -/
theorem forall_nodes_of_many {P : Node → Prop} {step : Nat → Except Fault (Option Stretch)}
    {bound last : Nat} {s : Stretch}
    (hstep : ∀ last s, step last = .ok (some s) → ∀ c ∈ s.nodes, P c)
    (h : many step bound last = .ok s) : ∀ c ∈ s.nodes, P c := by
  induction bound generalizing last s with
  | zero =>
    cases many_zero_eq_ok.mp h
    exact nofun
  | succ bound ih =>
    rcases many_succ_eq_ok.mp h with ⟨_, rfl⟩ | ⟨one, more, ho, hm, rfl⟩
    · exact nofun
    · exact List.forall_mem_append.mpr ⟨hstep _ _ ho, ih hm⟩

/-- In what a rule finds, every limit clause is what is found where it begins. -/
def Rule.FindsLimits (ts : TokenList) (rule : Rule) : Prop :=
  ∀ i n, rule i = .ok n → n.LimitsFound ts

def Nest.FindsLimits (ts : TokenList) (nest : Nest) : Prop :=
  ∀ blame e, Rule.FindsLimits ts (nest blame e)

namespace Rule

variable {nest : Nest} {rule : Rule} {s : Stretch}

theorem Makes.findsLimits {k : NodeKind} (hr : rule.Makes ts (.of k)) (hk : k ∈ bare) :
    rule.FindsLimits ts := by
  intro i n h
  obtain ⟨hn, _, _, hl⟩ := Stretch.Fits.role_iff.mp (hr i n h)
  have hn : n.kind = k := hn
  exact hl.limitsFound (hn ▸ hk)

theorem FindsLimits.announced (hr : rule.FindsLimits ts) {p : TokenKind → Bool} {last : Nat}
    (h : announced ts p rule last = .ok (some s)) : ∀ c ∈ s.nodes, c.LimitsFound ts := by
  obtain ⟨_, n, hn, rfl⟩ := announced_eq_some.mp h
  exact List.forall_mem_singleton.mpr (hr _ _ hn)

theorem FindsLimits.chain (hr : rule.FindsLimits ts) {step : Nat → Except Fault (Option Stretch)}
    {bound i : Nat} (hstep : ∀ last s, step last = .ok (some s) → ∀ c ∈ s.nodes, c.LimitsFound ts)
    (h : chain bound rule step i = .ok s) : ∀ c ∈ s.nodes, c.LimitsFound ts := by
  obtain ⟨head, more, hh, hm, rfl⟩ := chain_eq_ok.mp h
  exact List.forall_mem_cons.mpr ⟨hr _ _ hh, forall_nodes_of_many hstep hm⟩

theorem limitClause_findsLimits : FindsLimits ts (limitClause ts) := by
  intro i n h
  have hleaf (j : Nat) : (Node.leaf .operand j j).LimitsFound ts :=
    Node.limitsFound_leaf (by decide) j j
  obtain ⟨_, _, ⟨_, _, rfl⟩ | ⟨_, rfl⟩⟩ := limitClause_eq_ok.mp h
  · exact .mk (fun _ => h)
      (List.forall_mem_cons.mpr ⟨hleaf _, List.forall_mem_singleton.mpr (hleaf _)⟩)
  · exact .mk (fun _ => h) (List.forall_mem_singleton.mpr (hleaf _))

theorem aliasAfter_limitsFound {last : Nat} (h : aliasAfter ts last = .ok (some s)) :
    ∀ c ∈ s.nodes, c.LimitsFound ts := by
  have hleaf (i j : Nat) : (Node.leaf .alias i j).LimitsFound ts :=
    Node.limitsFound_leaf (by decide) i j
  unfold aliasAfter at h
  split at h
  next =>
    split at h
    next =>
      cases h
      exact List.forall_mem_singleton.mpr (hleaf _ _)
    next => cases h
  next =>
    split at h
    next =>
      cases h
      exact List.forall_mem_singleton.mpr (hleaf _ _)
    next => cases h

theorem source_findsLimits (hn : nest.FindsLimits ts) : FindsLimits ts (source ts nest) := by
  intro i n h
  unfold source at h
  split at h
  next =>
    cases h
    exact Node.limitsFound_leaf (by decide) _ _
  split at h
  next =>
    obtain ⟨close, _, h⟩ := bind_eq_ok.mp h
    obtain ⟨inner, hi, h⟩ := bind_eq_ok.mp h
    cases h
    exact .mk nofun (List.forall_mem_singleton.mpr (hn _ _ _ _ (fill_eq_ok.mp hi).1))
  next => cases h

theorem fromClause_findsLimits (hn : nest.FindsLimits ts) :
    FindsLimits ts (fromClause ts nest) := by
  intro i n h
  obtain ⟨_, _, h⟩ := bind_eq_ok.mp h
  obtain ⟨s, hs, h⟩ := bind_eq_ok.mp h
  cases h
  exact .mk nofun ((source_findsLimits hn).chain (fun _ _ => aliasAfter_limitsFound) hs)

theorem joinClause_findsLimits (hm : nest.Makes ts) (hn : nest.FindsLimits ts) :
    FindsLimits ts (joinClause ts nest) := by
  intro i n h
  unfold joinClause at h
  split at h
  next => cases h
  next =>
    obtain ⟨s, hs, h⟩ := bind_eq_ok.mp h
    obtain ⟨on, ho, h⟩ := bind_eq_ok.mp h
    cases h
    have hcondition : FindsLimits ts fun on => condition ts nest (on + 1) := fun i n h =>
      (condition_makes hm).findsLimits (by decide) (i + 1) n h
    exact .mk nofun (List.forall_mem_append.mpr
      ⟨(source_findsLimits hn).chain (fun _ _ => aliasAfter_limitsFound) hs,
        forall_nodes_of_many (fun _ _ => hcondition.announced) ho⟩)

theorem clauses_limitsFound {list : List (TokenKind × Rule)}
    (hl : ∀ entry ∈ list, FindsLimits ts entry.2) {last : Nat}
    (h : clauses ts list last = .ok s) : ∀ c ∈ s.nodes, c.LimitsFound ts := by
  induction list generalizing last s with
  | nil =>
    cases h
    exact nofun
  | cons entry list ih =>
    obtain ⟨hentry, hl⟩ := List.forall_mem_cons.mp hl
    obtain ⟨one, ho, h⟩ := bind_eq_ok.mp h
    obtain ⟨more, hm, h⟩ := bind_eq_ok.mp h
    cases h
    exact List.forall_mem_append.mpr
      ⟨forall_nodes_of_many (fun _ _ => hentry.announced) ho, ih hl hm⟩

theorem optionalClauses_findLimits (hm : nest.Makes ts) :
    ∀ entry ∈ optionalClauses ts nest, FindsLimits ts entry.2 := by
  simp only [optionalClauses, List.forall_mem_cons]
  exact ⟨(whereClause_makes hm).findsLimits (by decide),
    groupByClause_makes.findsLimits (by decide), (havingClause_makes hm).findsLimits (by decide),
    orderByClause_makes.findsLimits (by decide), limitClause_findsLimits, List.forall_mem_nil _⟩

theorem selectQuery_findsLimits (hm : nest.Makes ts) (hn : nest.FindsLimits ts) :
    FindsLimits ts (selectQuery ts nest) := by
  intro i n h
  obtain ⟨select, hs, h⟩ := bind_eq_ok.mp h
  obtain ⟨source, hf, h⟩ := bind_eq_ok.mp h
  obtain ⟨joins, hj, h⟩ := bind_eq_ok.mp h
  obtain ⟨rest, hr, h⟩ := bind_eq_ok.mp h
  cases h
  have hselect := (selectClause_makes hm).findsLimits (by decide) _ _ hs
  have hjoins := forall_nodes_of_many (fun _ _ => (joinClause_findsLimits hm hn).announced) hj
  have hrest := clauses_limitsFound (optionalClauses_findLimits hm) hr
  refine .mk nofun (List.forall_mem_append.mpr ⟨List.forall_mem_cons.mpr ⟨hselect, ?_⟩, hrest⟩)
  exact List.forall_mem_cons.mpr ⟨fromClause_findsLimits hn _ _ hf, hjoins⟩

theorem query_findsLimits (hm : nest.Makes ts) (hn : nest.FindsLimits ts) :
    FindsLimits ts (query ts nest) := by
  intro i n h
  obtain ⟨s, hs, h⟩ := bind_eq_ok.mp h
  cases h
  have harm : FindsLimits ts (arm ts nest) := by
    intro i n h
    unfold arm at h
    split at h
    next => cases h
    next => exact selectQuery_findsLimits hm hn _ _ h
  exact .mk nofun ((selectQuery_findsLimits hm hn).chain (fun _ _ => harm.announced) hs)

end Rule

theorem nested_findsLimits (ts : TokenList) (depth : Nat) : (nested ts depth).FindsLimits ts := by
  induction depth with
  | zero => exact nofun
  | succ depth ih =>
    intro blame e
    have hm := nested_makes ts depth
    cases e with
    | selectQuery => exact Rule.selectQuery_findsLimits hm ih
    | condition => exact (Rule.condition_makes hm).findsLimits (by decide)
    | expression => exact (Rule.expression_makes hm).findsLimits (by decide)

theorem Production.run_findsLimits (part : Production) (ts : TokenList) (depth : Nat) :
    Rule.FindsLimits ts (part.run ts depth) := by
  have hm := nested_makes ts depth
  have hn := nested_findsLimits ts depth
  cases part with
  | query => exact Rule.query_findsLimits hm hn
  | selectQuery => exact Rule.selectQuery_findsLimits hm hn
  | «from» => exact Rule.fromClause_findsLimits hn
  | source => exact Rule.source_findsLimits hn
  | join => exact Rule.joinClause_findsLimits hm hn
  | limit => exact Rule.limitClause_findsLimits
  | parenthesis =>
    intro i n h
    obtain ⟨_, _, h⟩ := bind_eq_ok.mp h
    cases h
    exact Node.limitsFound_leaf (by decide) _ _
  | select | field | «where» | having | condition | expression | function | groupBy | orderBy =>
    exact (Production.run_makes (by decide) ts depth).findsLimits (by decide)

namespace Node

theorem limit?_of_kind_ne (hk : n.kind ≠ .limit) : n.limit? ts = none := if_pos hk

/-- What a limit clause asks for, told by the numbers that stand in it. -/
theorem LimitsFound.limit? (h : n.LimitsFound ts) (hk : n.kind = .limit) : ∃ rows offset,
    n.limit? ts = some ⟨rows, offset⟩ ∧ ts.kind n.first = .limit ∧
      ts.NumberAt (n.first + 1) rows ∧ offset < 2 ^ 64 ∧
      (ts.kind (n.first + 2) ∈ [TokenKind.comma, .offset] ∧ n.last = n.first + 3 ∧
          ts.NumberAt (n.first + 3) offset ∨
        ts.kind (n.first + 2) ∉ [TokenKind.comma, .offset] ∧ n.last = n.first + 1 ∧
          offset = 0) := by
  have hread {i v : Nat} (hv : ts.NumberAt i v) : unsigned? (ts.token i).text = some v :=
    unsigned?_eq_some.mpr hv.2
  obtain ⟨hlimit, ⟨rows, hrows⟩, hrest⟩ := Rule.limitClause_eq_ok.mp (h.root hk)
  rcases hrest with ⟨ho, ⟨offset, hoffset⟩, hn⟩ | ⟨ho, hn⟩
  · refine ⟨rows, offset, ?_, hlimit, hrows, hoffset.2.2, .inl ⟨ho, congrArg Node.last hn, hoffset⟩⟩
    rw [hn]
    simp [Node.limit?, firstValue?, leaf, hread hrows, hread hoffset]
  · refine ⟨rows, 0, ?_, hlimit, hrows, by decide, .inr ⟨ho, congrArg Node.last hn, rfl⟩⟩
    rw [hn]
    simp [Node.limit?, firstValue?, leaf, hread hrows]

end Node

namespace Parser

theorem run_limit_error_iff (p : Parser) (start : Nat) : (∃ e, p.run .limit start = .error e) ↔
    ∃ f, Rule.limitClause p.tokens start = .error f := by
  have hrun : p.run .limit start = p.toTree (Rule.limitClause p.tokens start) := rfl
  rw [hrun]
  cases Rule.limitClause p.tokens start with
  | ok n => exact iff_of_false nofun nofun
  | error f => exact iff_of_true ⟨_, rfl⟩ ⟨f, rfl⟩

/-- Every limit clause of a tree has the values that its numbers stand for, the offset being zero
where none is written, and no other node has any. A number has a value if it is one of no more
than 64 bits, and a limit clause is refused just if a number of it has none. -/
theorem limit_values (p : Parser) :
    (∀ (text : String) (n : Nat), unsigned? text = some n ↔ Denotes text.toList n ∧ n < 2 ^ 64) ∧
    (∀ t, (∃ part start, p.run part start = .ok t) ∨ p.parse = .ok t → ∀ n ∈ t.root.preorder,
      (n.kind ≠ .limit → n.limit? t.source = none) ∧
      (n.kind = .limit → ∃ rows offset, n.limit? t.source = some ⟨rows, offset⟩ ∧
        t.source.kind n.first = .limit ∧ t.source.NumberAt (n.first + 1) rows ∧
        offset < 2 ^ 64 ∧
        (t.source.kind (n.first + 2) ∈ [TokenKind.comma, .offset] ∧ n.last = n.first + 3 ∧
            t.source.NumberAt (n.first + 3) offset ∨
          t.source.kind (n.first + 2) ∉ [TokenKind.comma, .offset] ∧ n.last = n.first + 1 ∧
            offset = 0))) ∧
    ∀ start, p.tokens.kind start = .limit → ((∃ e, p.run .limit start = .error e) ↔
      (¬∃ n, p.tokens.NumberAt (start + 1) n) ∨
        p.tokens.kind (start + 2) ∈ [TokenKind.comma, .offset] ∧
          ¬∃ n, p.tokens.NumberAt (start + 3) n) := by
  refine ⟨fun _ _ => unsigned?_eq_some, fun t ht n hn => ?_, fun start hk => ?_⟩
  · have hfound : t.root.LimitsFound t.source := by
      obtain ⟨hs, part, start, hr⟩ := exists_run_of_tree ht
      rw [hs]
      exact part.run_findsLimits p.tokens _ start _ hr
    have hn : n.LimitsFound t.source := Node.forall_preorder_iff.mpr hfound.nested n hn
    exact ⟨Node.limit?_of_kind_ne, hn.limit?⟩
  · exact (p.run_limit_error_iff start).trans (Rule.limitClause_error_iff hk)

theorem limit_values_of_hexadecimal :
    let ts : TokenList := ⟨#[⟨.limit, "LIMIT", ⟨1, 1⟩⟩, ⟨.number, "0x+fF", ⟨1, 7⟩⟩,
      ⟨.comma, ",", ⟨1, 12⟩⟩, ⟨.number, "+007", ⟨1, 14⟩⟩, ⟨.limit, "LIMIT", ⟨2, 1⟩⟩,
      ⟨.number, "18446744073709551616", ⟨2, 7⟩⟩], ⟨.eof, "", ⟨2, 27⟩⟩, rfl, by decide⟩
    ∃ t, (Parser.mk ts {}).run .limit 0 = .ok t ∧ t.root ∈ t.root.preorder ∧
      t.root.kind = .limit ∧ t.root.limit? t.source = some ⟨255, 7⟩ ∧ ts.NumberAt 1 255 ∧
      ts.NumberAt 3 7 ∧ ts.kind 4 = .limit ∧ (∃ e, (Parser.mk ts {}).run .limit 4 = .error e) ∧
      ¬∃ n, ts.NumberAt 5 n := by
  intro ts
  have h : (Parser.mk ts {}).run .limit 0 = .ok ⟨ts, ⟨.limit, 0, 3,
    [.leaf .operand 1 1, .leaf .operand 3 3]⟩⟩ := by decide +kernel
  have hroot (n : Node) : n ∈ n.preorder := by
    cases n
    exact List.mem_cons_self
  obtain ⟨_, htrees, herrors⟩ := limit_values (Parser.mk ts {})
  obtain ⟨_, hlimit⟩ := htrees _ (.inl ⟨_, _, h⟩) _ (hroot _)
  obtain ⟨rows, offset, hvalues, _, hrows, _, hoffset⟩ := hlimit rfl
  have hread : some (LimitClause.mk rows offset) = some ⟨255, 7⟩ :=
    hvalues.symm.trans (by decide +kernel)
  cases hread
  have herror : ∃ e, (Parser.mk ts {}).run .limit 4 = .error e :=
    (run_limit_error_iff _ 4).mpr ⟨⟨.limitArgument, 5⟩, by decide +kernel⟩
  refine ⟨_, h, hroot _, rfl, hvalues, hrows, ?_, rfl, herror, ?_⟩
  · rcases hoffset with ⟨_, _, hoffset⟩ | ⟨hn, _⟩
    · exact hoffset
    · exact (hn (by decide)).elim
  · rcases (herrors 4 rfl).mp herror with hn | ⟨hk, _⟩
    · exact hn
    · exact absurd hk (by decide)

end Parser

end SqlSelect
