import SqlSelect.Proofs.NormalForm
import SqlSelect.Proofs.RuleLimits

namespace SqlSelect

variable {ts : TokenList} {d D : Nat}

theorem nested_limits (h : d ≤ D) : (nested ts d).Limits ts d (nested ts D) := by
  induction d generalizing D with
  | zero =>
    intro blame e i
    refine ⟨rfl, fun n hn => ?_⟩
    have hf := nested_makes ts D blame e i n hn
    have := (Stretch.Fits.role_iff.mp hf).2.2.1
    omega
  | succ d ih =>
    obtain ⟨D, rfl⟩ : ∃ D', D = D' + 1 := ⟨D - 1, by omega⟩
    have hn : (nested ts d).Limits ts d (nested ts D) := ih (by omega)
    intro blame e i
    cases e with
    | selectQuery => exact Rule.selectQuery_limited hn i
    | condition => exact Rule.condition_limited hn i
    | expression => exact Rule.expression_limited hn i

theorem Production.run_limits {part : Production} (hp : part ≠ .parenthesis) (ts : TokenList)
    (h : d ≤ D) : (part.run ts d).Limits ts d (part.run ts D) := by
  have hn : (nested ts d).Limits ts d (nested ts D) := nested_limits h
  cases part with
  | query => exact Rule.query_limited hn
  | selectQuery => exact Rule.selectQuery_limited hn
  | select => exact Rule.selectClause_limited hn
  | field => exact Rule.field_limited hn
  | «from» => exact Rule.fromClause_limited hn
  | source => exact Rule.source_limited hn
  | join => exact Rule.joinClause_limited hn
  | «where» => exact Rule.conditionClause_limited hn (by decide)
  | having => exact Rule.conditionClause_limited hn (by decide)
  | condition => exact Rule.condition_limited hn
  | expression => exact Rule.expression_limited hn
  | function => exact Rule.function_limited hn
  | parenthesis => exact (hp rfl).elim
  | groupBy => exact Rule.columnsClause_limited (by decide)
  | orderBy => exact Rule.columnsClause_limited (by decide)
  | limit => exact Rule.limitClause_limited

/-- What is found with one limit is found with another just if it is as deep as that. -/
theorem Production.run_iff_nesting_le {part : Production} (hp : part ≠ .parenthesis) {i : Nat}
    {n : Node} (h : part.run ts D i = .ok n) :
    part.run ts d i = .ok n ↔ ts.nesting i n.last ≤ d := by
  have hdeeper {d D : Nat} (hd : d ≤ D) (h : part.run ts d i = .ok n) :
      part.run ts D i = .ok n ∧ ts.nesting i n.last ≤ d := by
    have hl := part.run_limits hp ts hd i
    rw [h] at hl
    generalize part.run ts D i = r at hl
    cases hl with
    | ok hw => exact ⟨rfl, hw.nesting_le⟩
  constructor
  · intro hd
    exact (hdeeper (Nat.le_refl d) hd).2
  · intro hn
    by_cases hd : d ≤ D
    · have hl := part.run_limits hp ts hd i
      rw [h] at hl
      generalize part.run ts d i = r at hl
      cases hl with
      | ok => rfl
      | deep _ he hle =>
        have := he.lt_nesting (hle n rfl)
        omega
    · exact (hdeeper (by omega) h).1

/-- The parenthesis that opens at `p` is the first from `start` on with `d` others around it. -/
def TokenList.FirstBeyond (ts : TokenList) (d start p : Nat) : Prop :=
  start ≤ p ∧ ts.kind p = .leftParen ∧ ts.depth start p = d + 1 ∧
    ∀ m, start ≤ m → m < p → ts.kind m = .leftParen → ts.depth start m ≠ d + 1

theorem TokenList.Exceeds.firstBeyond {start p : Nat} (h : ts.Exceeds d start p) :
    ts.FirstBeyond d start p := by
  refine ⟨h.le, h.opens, h.depth_eq, fun m hs hm _ he => ?_⟩
  have := h.depth_le hs hm
  omega

theorem Fault.toError_maxDepth {f : Fault} (hf : f.complaint ≠ .tooDeep) (o : Options) :
    f.toError ts { o with maxDepth := d } = f.toError ts { o with maxDepth := D } := by
  obtain ⟨complaint, i⟩ := f
  cases complaint with
  | tooDeep => exact (hf rfl).elim
  | _ => rfl

namespace Parser

variable {p : Parser} {part : Production} {start : Nat}

/-- The same tokens, parsed with no more than `d` levels of parentheses. -/
def limited (p : Parser) (d : Nat) : Parser := ⟨p.tokens, { p.options with maxDepth := d }⟩

theorem limited_cases (p : Parser) (hp : part ≠ .parenthesis) (start : Nat) (h : d ≤ D) :
    (p.limited d).run part start = (p.limited D).run part start ∧
        (∀ t, (p.limited D).run part start = .ok t →
          p.tokens.nesting start t.root.last ≤ d) ∨
      ∃ i q, p.tokens.FirstBeyond d start i ∧ p.tokens.Blames i q ∧
        (p.limited d).run part start = .error (.tooDeep d (p.tokens.token q).position) ∧
        ∀ t, (p.limited D).run part start = .ok t → d < p.tokens.nesting start t.root.last := by
  have hl := part.run_limits hp p.tokens h start
  have hd : (p.limited d).run part start =
      (p.limited d).toTree (part.run p.tokens d start) := rfl
  have hD : (p.limited D).run part start =
      (p.limited D).toTree (part.run p.tokens D start) := rfl
  rw [hd, hD]
  generalize part.run p.tokens d start = r at hl
  generalize part.run p.tokens D start = r' at hl
  cases hl with
  | ok hw =>
    refine .inl ⟨rfl, fun t ht => ?_⟩
    cases ht
    exact hw.nesting_le
  | error hf => exact .inl ⟨congrArg _ (Fault.toError_maxDepth hf p.options), nofun⟩
  | deep hb hp hl =>
    refine .inr ⟨_, _, hp.firstBeyond, hb, rfl, fun t ht => ?_⟩
    cases r' with
    | error f => cases ht
    | ok n =>
      cases ht
      exact hp.lt_nesting (hl n rfl)

/-- A limit on the depth of parentheses changes nothing but to complain about the first that is
deeper, and not where none is in what there is to find. -/
theorem run_limited (hp : part ≠ .parenthesis) (hd : d < wordBound) :
    ((p.limited d).run part start = (p.limited (wordBound - 1)).run part start ∨
      ∃ i q, p.tokens.FirstBeyond d start i ∧ p.tokens.Blames i q ∧
        (p.limited d).run part start = .error (.tooDeep d (p.tokens.token q).position)) ∧
    ∀ t, (p.limited (wordBound - 1)).run part start = .ok t →
      ((p.limited d).run part start = .ok t ↔
        p.tokens.nesting t.root.first t.root.last ≤ d) := by
  have hfirst {t : Tree} (ht : (p.limited (wordBound - 1)).run part start = .ok t) :
      t.root.first = start := by
    have hf := part.run_makes hp _ _ _ _ (run_eq_ok.mp ht).2
    exact (Stretch.Fits.role_iff.mp hf).2.1
  rcases p.limited_cases hp start (Nat.le_pred_of_lt hd) with
    ⟨he, hn⟩ | ⟨i, q, hi, hq, he, hn⟩
  · refine ⟨.inl he, fun t ht => ?_⟩
    rw [hfirst ht, he]
    exact ⟨fun _ => hn t ht, fun _ => ht⟩
  · refine ⟨.inr ⟨i, q, hi, hq, he⟩, fun t ht => ?_⟩
    rw [hfirst ht, he]
    refine ⟨nofun, fun hle => ?_⟩
    have := hn t ht
    omega

theorem run_limited_of_two_levels :
    let ts : TokenList := ⟨#[⟨.max, "MAX", ⟨1, 1⟩⟩, ⟨.leftParen, "(", ⟨1, 4⟩⟩,
      ⟨.leftParen, "(", ⟨1, 5⟩⟩, ⟨.literal, "a", ⟨1, 6⟩⟩, ⟨.rightParen, ")", ⟨1, 7⟩⟩,
      ⟨.rightParen, ")", ⟨1, 8⟩⟩], ⟨.eof, "", ⟨1, 9⟩⟩, rfl, by decide⟩
    let p : Parser := ⟨ts, {}⟩
    (p.limited 1).run .expression 0 = .error (.tooDeep 1 ⟨1, 5⟩) ∧ ts.nesting 0 5 = 2 ∧
      ∀ t, (p.limited (wordBound - 1)).run .expression 0 = .ok t →
        ((p.limited 1).run .expression 0 = .ok t ↔
          p.tokens.nesting t.root.first t.root.last ≤ 1) := by
  intro ts p
  have hp : Production.expression ≠ .parenthesis := by decide
  exact ⟨rfl, rfl, (run_limited hp (by decide)).2⟩

end Parser

end SqlSelect
