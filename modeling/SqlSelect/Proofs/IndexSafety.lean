import SqlSelect.Proofs.GuardedRules
import SqlSelect.Proofs.NormalForm

namespace SqlSelect

variable {ts : TokenList}

theorem Production.rule_tracked {nest : Nest} {gn : Guarded.Nest} (hn : nest.Tracked ts gn)
    (part : Production) : (part.rule ts nest).Tracked ts (Guarded.rule ts gn part) := by
  cases part with
  | query => exact Rule.query_tracked hn
  | selectQuery => exact Rule.selectQuery_tracked hn
  | select => exact Rule.selectClause_tracked hn
  | field => exact Rule.field_tracked hn
  | «from» => exact Rule.fromClause_tracked hn
  | source => exact Rule.source_tracked hn
  | join => exact Rule.joinClause_tracked hn
  | «where» => exact Rule.conditionClause_tracked hn (by decide)
  | having => exact Rule.conditionClause_tracked hn (by decide)
  | condition => exact Rule.condition_tracked hn
  | expression => exact Rule.expression_tracked hn
  | function => exact Rule.function_tracked hn
  | parenthesis => exact parenthesis_tracks
  | groupBy => exact Rule.columnsClause_tracked (by decide)
  | orderBy => exact Rule.columnsClause_tracked (by decide)
  | limit => exact Rule.limitClause_tracked

theorem nested_tracked (ts : TokenList) (depth : Nat) :
    (nested ts depth).Tracked ts (Guarded.nested ts depth) := by
  induction depth with
  | zero => exact fun _ _ _ => Guarded.complain_tracks
  | succ depth ih => exact fun _ e => e.production.rule_tracked ih

theorem Production.run_tracked (part : Production) (ts : TokenList) (depth : Nat) :
    (part.run ts depth).Tracked ts (Guarded.run ts part depth) :=
  part.rule_tracked (nested_tracked ts depth)

theorem Guarded.queryEnd_eq {last : Nat} (h : ts.Covers 0 last) :
    queryEnd ts last = .ok (Parser.queryEnd ts last) := by
  unfold queryEnd Parser.queryEnd
  rw [ahead_bind h.last_lt, kind_bind]
  split
  next hk => exact if_pos (h.next (by simp [hk])).last_lt
  next => rfl

theorem Parser.complete_tracks (p : Parser) : Tracks (fun n => p.tokens.Covers 0 n.last)
    (Guarded.complete p.tokens p.options) p.complete := by
  refine (Production.run_tracked .query p.tokens p.options.maxDepth 0).bind fun query hq => ?_
  rw [Guarded.queryEnd_eq hq]
  show Tracks _ (Guarded.kind p.tokens (queryEnd p.tokens query.last) >>= _) _
  rw [Guarded.kind_bind]
  split
  next => exact .ok hq
  next => exact Guarded.complain_tracks

theorem TokenList.span_eq_of_covers {first last : Nat} (h : ts.Covers first last) :
    ts.span first last = (ts.toList.drop first).take (last + 1 - first) := by
  have hlt := h.last_lt
  have hsize := ts.length_toList
  refine List.ext_getElem ?_ fun m hm _ => ?_
  · simp only [span, List.length_map, List.length_range', List.length_take, List.length_drop, hsize]
    omega
  · have hm : m < last + 1 - first := by simpa [span] using hm
    have ht : ts.toList[first + m]? = some (ts.token (first + m)) :=
      getElem?_toList (by omega)
    obtain ⟨_, ht⟩ := List.getElem?_eq_some_iff.mp ht
    simp [span, ht]

namespace Node

/-- What a node can be asked about its tokens without a check: they are in the list, where it says,
and no end of input is among them. -/
structure InBounds (ts : TokenList) (n : Node) : Prop where
  covers : ts.Covers n.first n.last
  last_lt : n.last < ts.size
  firstToken : ts.toList[n.first]? = some (ts.token n.first)
  lastToken : ts.toList[n.last]? = some (ts.token n.last)
  tokens_eq : n.tokens ts = (ts.toList.drop n.first).take (n.last + 1 - n.first)

theorem tokens_eq_of_covers {n : Node} (h : ts.Covers n.first n.last) :
    n.tokens ts = (ts.toList.drop n.first).take (n.last + 1 - n.first) :=
  TokenList.span_eq_of_covers h

theorem inBounds_of_covers {n : Node} (h : ts.Covers n.first n.last) : n.InBounds ts :=
  ⟨h, h.last_lt, TokenList.getElem?_toList h.first_lt, TokenList.getElem?_toList h.last_lt,
    tokens_eq_of_covers h⟩

end Node

theorem Production.run_inBounds {part : Production} {depth start : Nat} {n : Node}
    (h : part.run ts depth start = .ok n) : n.All (Node.InBounds ts) := by
  by_cases hp : part = .parenthesis
  · subst hp
    obtain ⟨close, hc, h⟩ := bind_eq_ok.mp h
    cases h
    exact .mk (Node.inBounds_of_covers ((closing_tracks start).holds hc)) nofun
  · have hl := (Stretch.Fits.role_iff.mp (part.run_makes hp ts depth start n h)).2.2.2
    exact hl.nested.mono fun m hm => Node.inBounds_of_covers hm.covers

theorem Production.run_first_le {part : Production} {depth start : Nat} {n : Node}
    (h : part.run ts depth start = .ok n) :
    n.first = start ∧ ∀ m ∈ n.preorder, start ≤ m.first := by
  by_cases hp : part = .parenthesis
  · subst hp
    obtain ⟨close, hc, h⟩ := bind_eq_ok.mp h
    cases h
    exact ⟨rfl, Node.forall_preorder_iff.mpr (.mk (Nat.le_refl start) nofun)⟩
  · obtain ⟨_, rfl, _, hl⟩ := Stretch.Fits.role_iff.mp (part.run_makes hp ts depth start n h)
    exact ⟨rfl, Node.forall_preorder_iff.mpr hl.first_le⟩

namespace Parser

/-- Checking all indices changes no answer, whatever is parsed and wherever it starts: no index is
ever out of place. What starts at the last token or beyond it is an error, and a node that is found
covers tokens that are there. -/
theorem run_in_bounds (p : Parser) :
    (∀ part start,
      Guarded.run p.tokens part p.options.maxDepth start =
        (part.run p.tokens p.options.maxDepth start).mapError .fault ∧
      (p.tokens.size ≤ start + 1 → ∃ e, p.run part start = .error e) ∧
      ∀ t, p.run part start = .ok t → ∀ n ∈ t.root.preorder, n.InBounds t.source) ∧
    Guarded.complete p.tokens p.options = p.complete.mapError .fault ∧
    ∀ t, p.parse = .ok t → ∀ n ∈ t.root.preorder, n.InBounds t.source := by
  have hnodes {part : Production} {start : Nat} {n : Node}
      (h : part.run p.tokens p.options.maxDepth start = .ok n) :
      ∀ m ∈ n.preorder, m.InBounds p.tokens :=
    Node.forall_preorder_iff.mpr (Production.run_inBounds h)
  refine ⟨fun part start => ?_, p.complete_tracks.eq, fun t ht => ?_⟩
  · have ht := part.run_tracked p.tokens p.options.maxDepth start
    refine ⟨ht.eq, fun hs => ?_, fun t h => ?_⟩
    · unfold run
      cases hr : part.run p.tokens p.options.maxDepth start with
      | error f => exact ⟨_, rfl⟩
      | ok n =>
        have hc := ht.holds hr
        have := hc.le
        have := hc.succ_lt_size
        omega
    · obtain ⟨hs, hn⟩ := run_eq_ok.mp h
      rw [hs]
      exact hnodes hn
  · obtain ⟨_, hs, hc⟩ := parse_eq_ok.mp ht
    rw [hs]
    exact hnodes (complete_eq_ok.mp hc).1

end Parser

end SqlSelect
