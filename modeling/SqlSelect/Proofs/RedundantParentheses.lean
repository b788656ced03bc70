import SqlSelect.Proofs.Acceptance
import SqlSelect.Proofs.CarriedQuery
import SqlSelect.Proofs.DepthLimit
import SqlSelect.Proofs.Loading

namespace SqlSelect

/-- Where an expression fills a parenthesis, so does a condition of one expression. -/
def Nest.ReadsAlone (ts : TokenList) (nest : Nest) : Prop :=
  ∀ blame i e, nest blame .expression i = .ok e → ts.kind (e.last + 1) = .rightParen →
    ∃ c, c.kind = .expression ∧ nest blame .condition i = .ok ⟨.condition, i, e.last, [c]⟩

namespace Rule

variable {ts : TokenList} {nest : Nest} {i last : Nat} {s : Stretch} {e c : Node}

theorem signedOperand_leftParen (hk : ts.kind i = .leftParen) :
    signedOperand ts nest i = enclosedExpression ts nest i := by
  simp [signedOperand, operand, hk, TokenKind.isSign, TokenKind.isAtom]

/-- The first parenthesis of an expression is filled by one. -/
theorem expression_opens (h : expression ts nest i = .ok e) (hk : ts.kind i = .leftParen) :
    ∃ inner, nest i .expression (i + 1) = .ok inner ∧ closing ts i = .ok (inner.last + 1) := by
  obtain ⟨s, hs, _⟩ := bind_eq_ok.mp h
  obtain ⟨head, _, hh, _⟩ := chain_eq_ok.mp hs
  rw [signedOperand_leftParen hk] at hh
  obtain ⟨close, hc, hh⟩ := bind_eq_ok.mp hh
  obtain ⟨inner, hf, _⟩ := bind_eq_ok.mp hh
  obtain ⟨hi, rfl⟩ := fill_eq_ok.mp hf
  exact ⟨inner, hi, hc⟩

theorem expression_kind (h : expression ts nest i = .ok e) : e.kind = .expression := by
  obtain ⟨_, _, h⟩ := bind_eq_ok.mp h
  cases h
  rfl

/-- A term is all of a condition if nothing after it goes on with one. -/
theorem condition_of_term (h : term ts nest i = .ok s)
    (hk : ts.kind (s.last + 1) ∉ Nonterminal.condition.extending) :
    condition ts nest i = .ok ⟨.condition, i, s.last, s.nodes⟩ := by
  have hnone : connected ts nest s.last = .ok none :=
    connected_eq_none (TokenList.kind_not_mem_mono (by decide) hk)
  have hm : many (connected ts nest) ts.size s.last = .ok ⟨[], s.last⟩ :=
    many_succ_eq_ok.mpr (.inl ⟨hnone, rfl⟩)
  exact bind_eq_ok.mpr ⟨s, h, bind_eq_ok.mpr ⟨_, hm, by rw [List.append_nil]⟩⟩

theorem operatorLast_of_not_extending (hk : ts.kind i ∉ Nonterminal.condition.extending) :
    operatorLast ts i = .ok none :=
  operatorLast_eq_none (TokenList.kind_not_mem_mono (by decide) hk)

/-- A condition of one expression is still one in parentheses. -/
theorem condition_enclosed (hc : closing ts i = .ok (last + 1))
    (h : nest i .condition (i + 1) = .ok ⟨.condition, i + 1, last, [c]⟩)
    (he : c.kind = .expression) (hk : ts.kind (last + 2) ∉ Nonterminal.condition.extending) :
    condition ts nest i = .ok ⟨.condition, i, last + 1, [c]⟩ := by
  have ht : term ts nest i = .ok ⟨[c], last + 1⟩ := by
    unfold term
    rw [if_pos (closing_kinds hc).1]
    refine bind_eq_ok.mpr ⟨_, hc, bind_eq_ok.mpr ⟨none, operatorLast_of_not_extending hk, ?_⟩⟩
    refine bind_eq_ok.mpr ⟨_, fill_eq_ok.mpr ⟨h, rfl⟩, ?_⟩
    simp [Node.collapse, he]
  exact condition_of_term ht hk

/-- Every expression is a condition: of itself, or of the one in its parentheses if they are all of
it. -/
theorem condition_of_expression (hm : nest.Makes ts) (hn : nest.ReadsAlone ts)
    (h : expression ts nest i = .ok e)
    (hk : ts.kind (e.last + 1) ∉ Nonterminal.condition.extending) :
    ∃ c, c.kind = .expression ∧ condition ts nest i = .ok ⟨.condition, i, e.last, [c]⟩ := by
  have hplain (ht : term ts nest i = plainTerm ts nest i) :
      ∃ c, c.kind = .expression ∧ condition ts nest i = .ok ⟨.condition, i, e.last, [c]⟩ := by
    have ht : term ts nest i = .ok (.ofNode e) := ht.trans (bind_eq_ok.mpr ⟨e, h, rfl⟩)
    exact ⟨e, expression_kind h, condition_of_term ht hk⟩
  by_cases ho : ts.kind i = .leftParen
  · obtain ⟨inner, hi, hc⟩ := expression_opens h ho
    have hs : ts.Spells (.part .expression) i (e.last + 1) := (expression_makes hm i e h).spells
    obtain ⟨_, hc', _, hclose, hl⟩ := spells_expression_cases hs ho
    cases hc.symm.trans hc'
    rcases hl with hl | ⟨_, o, hop⟩
    · have hl : e.last = inner.last + 1 := Nat.succ.inj hl
      obtain ⟨c, he, hcond⟩ := hn i (i + 1) inner hi hclose
      rw [hl] at hk ⊢
      exact ⟨c, he, condition_enclosed hc hcond he hk⟩
    · apply hplain
      unfold term
      rw [if_pos ho, hc]
      show (operatorLast ts (inner.last + 2) >>= _) = _
      rw [hop]
      rfl
  · exact hplain (if_neg ho)

end Rule

theorem nested_readsAlone (ts : TokenList) (depth : Nat) : (nested ts depth).ReadsAlone ts := by
  induction depth with
  | zero => exact nofun
  | succ depth ih =>
    intro blame i e h hk
    exact Rule.condition_of_expression (nested_makes ts depth) ih h (by rw [hk]; decide)

namespace Production

variable {ts : TokenList} {depth i last : Nat} {e c : Node}

theorem condition_of_expression (h : expression.run ts depth i = .ok e)
    (hk : ts.kind (e.last + 1) ∉ Nonterminal.condition.extending) :
    ∃ c, c.kind = .expression ∧
      condition.run ts depth i = .ok ⟨.condition, i, e.last, [c]⟩ :=
  Rule.condition_of_expression (nested_makes ts depth) (nested_readsAlone ts depth) h hk

/-- However many parentheses stand around a condition of one expression, the condition in them is
one of the same. -/
theorem condition_parenthesized {pairs : Nat} (he : c.kind = .expression)
    (h : condition.run ts depth (i + pairs) = .ok ⟨.condition, i + pairs, last, [c]⟩)
    (hp : ts.Parentheses i (last + 1) pairs)
    (hk : ts.kind (last + 1 + pairs) ∉ Nonterminal.condition.extending) :
    condition.run ts (depth + pairs) i = .ok ⟨.condition, i, last + pairs, [c]⟩ := by
  induction pairs generalizing i with
  | zero => exact h
  | succ pairs ih =>
    have ho : ts.kind i = .leftParen := (hp 0 (Nat.succ_pos _)).1
    have hclose : ts.kind (last + 1 + pairs) = .rightParen := (hp pairs (Nat.lt_succ_self _)).2
    rw [show i + (pairs + 1) = i + 1 + pairs by omega] at h
    have hinner := ih h hp.inside (by rw [hclose]; decide)
    have hs := run_spells (by decide) hinner
    rw [show last + 1 + pairs = last + pairs + 1 by omega] at hclose
    rw [show last + 1 + (pairs + 1) = last + pairs + 2 by omega] at hk
    exact Rule.condition_enclosed (hs.closing rfl ho hclose) hinner he hk

end Production

/-- Tokens with `k` parentheses before them and `k` after them, and then an end of input. -/
def Wraps (k : Nat) (tokens all : List Token) : Prop :=
  ∃ opens closes final, all = opens ++ tokens ++ closes ++ [final] ∧
    (opens.length = k ∧ ∀ t ∈ opens, t.kind = .leftParen) ∧
    (closes.length = k ∧ ∀ t ∈ closes, t.kind = .rightParen) ∧ final.kind = .eof

namespace Wraps

variable {k : Nat} {tokens all : List Token} {ts : TokenList}

theorem mem (h : Wraps k tokens all) {t : Token} (ht : t ∈ tokens) : t ∈ all := by
  obtain ⟨opens, closes, final, rfl, _⟩ := h
  simp [ht]

/-- What is wrapped is loaded as it is, unless there is an error in it. -/
theorem loads (h : Wraps k tokens all) (hn : ∀ t ∈ tokens, t.isError = false) :
    ∃ ts, TokenList.ofTokens all = .ok ts ∧ ts.toList = all := by
  obtain ⟨opens, closes, final, rfl, ⟨_, ho⟩, ⟨_, hc⟩, hf⟩ := h
  have hfront : ∀ t ∈ opens ++ tokens ++ closes, t.isError = false := by
    intro t ht
    rw [List.mem_append, List.mem_append] at ht
    rcases ht with (ht | ht) | ht
    · simp [Token.isError, ho t ht]
    · exact hn t ht
    · simp [Token.isError, hc t ht]
  have hend : final.isEof = true := by simp [Token.isEof, hf]
  obtain ⟨ts, hts, hfront, hfinal⟩ := TokenList.ofTokens_of_eof hfront hend
  exact ⟨ts, hts, by simp [TokenList.toList, hfront, hfinal]⟩

theorem size_eq (h : Wraps k tokens all) (hts : ts.toList = all) :
    ts.size = 2 * k + tokens.length + 1 := by
  obtain ⟨opens, closes, final, rfl, ⟨ho, _⟩, ⟨hc, _⟩, _⟩ := h
  rw [← TokenList.length_toList, hts]
  simp only [List.length_append, List.length_singleton]
  omega

theorem token_eq (h : Wraps k tokens all) (hts : ts.toList = all) {i : Nat}
    (hi : i < tokens.length) : tokens[i]? = some (ts.token (i + k)) := by
  have hsize := h.size_eq hts
  obtain ⟨opens, closes, final, rfl, ⟨ho, _⟩, _⟩ := h
  rw [← TokenList.getElem?_toList (by omega), hts, List.append_assoc, List.append_assoc,
    List.getElem?_append_right (by omega), List.getElem?_append_left (by omega), ho,
    Nat.add_sub_cancel]

theorem parentheses (h : Wraps k tokens all) (hts : ts.toList = all) :
    ts.Parentheses 0 (tokens.length + k) k := by
  have hsize := h.size_eq hts
  obtain ⟨opens, closes, final, rfl, ⟨ho, hopens⟩, ⟨hc, hcloses⟩, _⟩ := h
  intro m hm
  have hi : (opens ++ tokens).length = tokens.length + k := by
    rw [List.length_append, ho, Nat.add_comm]
  constructor
  · have ht : opens[m]? = some (ts.token m) := by
      rw [← TokenList.getElem?_toList (by omega), hts, List.append_assoc, List.append_assoc,
        List.getElem?_append_left (by omega)]
    rw [Nat.zero_add]
    exact hopens _ (List.mem_of_getElem? ht)
  · have ht : closes[m]? = some (ts.token (tokens.length + k + m)) := by
      rw [← TokenList.getElem?_toList (by omega), hts, List.append_assoc,
        List.getElem?_append_right (by omega), hi, Nat.add_sub_cancel_left,
        List.getElem?_append_left (by omega)]
    exact hcloses _ (List.mem_of_getElem? ht)

/-- What comes after the tokens is no token to go on with, be it a parenthesis or the end. -/
theorem asEnd_eq (h : Wraps k tokens all) (hts : ts.toList = all) {i : Nat}
    (hi : tokens.length ≤ i) : (ts.kind (i + k)).asEnd = .eof := by
  have hsize := h.size_eq hts
  by_cases hk : i < tokens.length + k
  · have hc := (h.parentheses hts (i - tokens.length) (by omega)).2
    rw [show tokens.length + k + (i - tokens.length) = i + k by omega] at hc
    rw [hc]
    rfl
  · rw [TokenList.kind_of_size_le (by omega)]
    rfl

theorem kind_not_mem (h : Wraps k tokens all) (hts : ts.toList = all) {i : Nat}
    (hi : tokens.length ≤ i) : ts.kind (i + k) ∉ Nonterminal.condition.extending := by
  have hne : ∀ k ∈ Nonterminal.condition.extending, k.asEnd ≠ .eof := by decide
  exact fun hk => hne _ hk (h.asEnd_eq hts hi)

theorem toList_eq (h : Wraps k tokens all) (hts : TokenList.ofTokens all = .ok ts) :
    ts.toList = all := by
  obtain ⟨last, hlast, hlist⟩ := TokenList.toList_of_getLast? hts
  obtain ⟨opens, closes, final, rfl, _, _, hf⟩ := h
  obtain rfl : final = last := by simpa using hlast
  simpa [Token.isEof, hf] using hlist

/-- The tokens are moved by `k`. -/
theorem carries {wrapped : List Token} {ts' : TokenList} {last : Nat} (h : Wraps 0 tokens all)
    (hts : ts.toList = all) (h' : Wraps k tokens wrapped) (hts' : ts'.toList = wrapped)
    (hl : last + 1 = tokens.length) : ts.Carries ts' 0 k last := by
  have hsame {i : Nat} (hi : i ≤ last) : ts'.token (i + k) = ts.token i := by
    have ht := h'.token_eq hts' (i := i) (by omega)
    rw [h.token_eq hts (by omega)] at ht
    exact (Option.some.inj ht).symm
  refine ⟨fun _ hi => congrArg Token.kind (hsame hi), fun _ hi => congrArg Token.text (hsame hi),
    fun {i} _ _ => ?_⟩
  by_cases hi : i ≤ last
  · exact congrArg (fun t => t.kind.asEnd) (hsame hi)
  · have hend := h.asEnd_eq hts (i := i) (by omega)
    exact (h'.asEnd_eq hts' (by omega)).trans hend.symm

theorem condition_run {wrapped : List Token} {ts' : TokenList} {last D d : Nat} {c : Node}
    (h : Wraps 0 tokens all) (hts : ts.toList = all) (h' : Wraps k tokens wrapped)
    (hts' : ts'.toList = wrapped) (hl : last + 1 = tokens.length) (he : c.kind = .expression)
    (hc : Production.condition.run ts D 0 = .ok ⟨.condition, 0, last, [c]⟩)
    (hd : ts.nesting 0 last + k ≤ d) : Production.condition.run ts' d 0 =
      .ok ⟨.condition, 0, 2 * k + last, [c.move 0 k]⟩ := by
  have hp : Production.condition ≠ .parenthesis := by decide
  have hinner := (Production.run_iff_nesting_le hp hc (d := d - k)).mpr (by dsimp only; omega)
  have hmoved := Production.run_carried (h.carries hts h' hts' hl) .condition (Nat.le_refl 0)
    (Nat.zero_le last) (Nat.le_refl last) hinner
  rw [Node.move_mk] at hmoved
  have hc' : (c.move 0 k).kind = .expression := by rw [Node.move_kind, he]
  have hparens := h'.parentheses hts'
  have hk := h'.kind_not_mem hts' (i := last + 1 + k) (by omega)
  rw [← hl] at hparens
  rw [show last + 1 + k = last + k + 1 by omega] at hparens hk
  have hrun : Production.condition.run ts' (d - k + k) 0 =
      .ok ⟨.condition, 0, last + k + k, [c.move 0 k]⟩ :=
    Production.condition_parenthesized hc' hmoved hparens hk
  rw [show d - k + k = d by omega, show last + k + k = 2 * k + last by omega] at hrun
  exact hrun

end Wraps

namespace Parser

/-- An expression is a condition of one expression, and so it is within any number of parentheses,
with the same expression in it as long as they are no deeper than is allowed. -/
theorem condition_of_wrapped_expression {tokens all : List Token} {options : Options} {p : Parser}
    {t : Tree} (hw : Wraps 0 tokens all) (hp : ofTokens all options = .ok p)
    (h : p.run .expression 0 = .ok t) (hl : t.root.last + 1 = tokens.length) :
    p.tokens.nesting 0 t.root.last ≤ options.maxDepth ∧
    ∃ c, c.kind = .expression ∧
      p.run .condition 0 = .ok ⟨p.tokens, ⟨.condition, 0, tokens.length - 1, [c]⟩⟩ ∧
      ∀ k wrapped options', Wraps k tokens wrapped →
        p.tokens.nesting 0 t.root.last + k ≤ options'.maxDepth →
        ∃ q, ofTokens wrapped options' = .ok q ∧ q.run .condition 0 =
          .ok ⟨q.tokens, ⟨.condition, 0, 2 * k + tokens.length - 1, [c.move 0 k]⟩⟩ := by
  obtain ⟨ts, hts, hp⟩ := bind_eq_ok.mp hp
  cases hp
  have hlist := hw.toList_eq hts
  have hn : ∀ t ∈ tokens, t.isError = false := fun t ht => ts.isError_eq_false (hlist ▸ hw.mem ht)
  obtain ⟨c, he, hc⟩ := Production.condition_of_expression (run_eq_ok.mp h).2
    (hl ▸ hw.kind_not_mem hlist (Nat.le_refl _))
  have hd := (Production.run_iff_nesting_le (by decide) hc).mp hc
  refine ⟨hd, c, he, ?_, fun k wrapped options' hw' hk => ?_⟩
  · rw [← hl]
    exact run_eq_ok.mpr ⟨rfl, hc⟩
  · obtain ⟨ts', hts', hlist'⟩ := hw'.loads hn
    have hc' := hw.condition_run hlist hw' hlist' hl he hc hk
    refine ⟨⟨ts', options'⟩, bind_eq_ok.mpr ⟨ts', hts', rfl⟩, run_eq_ok.mpr ⟨rfl, ?_⟩⟩
    rw [← hl]
    exact hc'

theorem condition_of_wrapped_expression_of_two_pairs :
    let tokens : List Token := [⟨.leftParen, "(", ⟨1, 3⟩⟩, ⟨.literal, "a", ⟨1, 4⟩⟩,
      ⟨.rightParen, ")", ⟨1, 5⟩⟩]
    let opens : List Token := [⟨.leftParen, "(", ⟨1, 1⟩⟩, ⟨.leftParen, "(", ⟨1, 2⟩⟩]
    let closes : List Token := [⟨.rightParen, ")", ⟨1, 6⟩⟩, ⟨.rightParen, ")", ⟨1, 7⟩⟩]
    let all := tokens ++ [⟨.eof, "", ⟨1, 6⟩⟩]
    let wrapped := opens ++ tokens ++ closes ++ [⟨.eof, "", ⟨1, 8⟩⟩]
    ∃ p t, Wraps 0 tokens all ∧ ofTokens all ⟨1, false⟩ = .ok p ∧
      p.run .expression 0 = .ok t ∧ t.root.last + 1 = tokens.length ∧ Wraps 2 tokens wrapped ∧
      p.tokens.nesting 0 t.root.last + 2 ≤ 3 ∧
      ∃ c q, c.kind = .expression ∧
        p.run .condition 0 = .ok ⟨p.tokens, ⟨.condition, 0, 2, [c]⟩⟩ ∧
        ofTokens wrapped ⟨3, false⟩ = .ok q ∧
        q.run .condition 0 = .ok ⟨q.tokens, ⟨.condition, 0, 6, [c.move 0 2]⟩⟩ := by
  intro tokens opens closes all wrapped
  let p : Parser := ⟨⟨tokens.toArray, ⟨.eof, "", ⟨1, 6⟩⟩, rfl, by decide⟩, ⟨1, false⟩⟩
  have hw : Wraps 0 tokens all := ⟨[], [], _, rfl, ⟨rfl, nofun⟩, ⟨rfl, nofun⟩, rfl⟩
  have hw' : Wraps 2 tokens wrapped :=
    ⟨opens, closes, _, rfl, ⟨rfl, by decide⟩, ⟨rfl, by decide⟩, rfl⟩
  have hp : ofTokens all ⟨1, false⟩ = .ok p := rfl
  have h : p.run .expression 0 = .ok _ := rfl
  have hd : p.tokens.nesting 0 2 + 2 ≤ 3 := by decide
  obtain ⟨_, c, he, hc, hk⟩ := condition_of_wrapped_expression hw hp h rfl
  obtain ⟨q, hq, hrun⟩ := hk 2 wrapped ⟨3, false⟩ hw' hd
  exact ⟨p, _, hw, hp, h, rfl, hw', hd, c, q, he, hc, hq, hrun⟩

end Parser

end SqlSelect
