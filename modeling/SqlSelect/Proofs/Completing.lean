import SqlSelect.Proofs.Lookahead
import SqlSelect.Proofs.Sentence

namespace SqlSelect

namespace Phrase

/-- Some tokens can be taken away by a phrase, all of them. -/
def Productive (f : Phrase) : Prop := ∃ tokens, f.Spans Terminal.Takes Nonterminal.rule tokens []

/-- These tokens can be gone on with so that all are a phrase. -/
def CanBegin (f : Phrase) (tokens : List Token) : Prop :=
  ∃ more, f.Spans Terminal.Takes Nonterminal.rule (tokens ++ more) []

variable {f g : Phrase} {tokens left left' more : List Token}

/-- What is left may be longer. -/
theorem spans_append (h : f.Spans Terminal.Takes Nonterminal.rule left left')
    (more : List Token) : f.Spans Terminal.Takes Nonterminal.rule (left ++ more) (left' ++ more) := by
  have hletter (t : Terminal) (s s' q : List Token) (ht : t.Takes s s') (hq : q = s ++ more) :
      ∃ q', t.Takes q q' ∧ q' = s' ++ more := by
    obtain ⟨token, ht, rfl⟩ := ht
    exact ⟨_, ⟨token, ht, hq⟩, rfl⟩
  obtain ⟨_, h, rfl⟩ := h.simulate (R := fun s q => q = s ++ more) hletter rfl
  exact h

theorem spans_concat (h : f.Spans Terminal.Takes Nonterminal.rule left []) (more : List Token) :
    f.Spans Terminal.Takes Nonterminal.rule (left ++ more) more := spans_append h more

theorem Productive.mul (hf : Productive f) (hg : Productive g) : Productive (f * g) := by
  obtain ⟨u, hu⟩ := hf
  obtain ⟨v, hv⟩ := hg
  exact ⟨u ++ v, .seq (spans_concat hu v) hv⟩

theorem Productive.letter {t : Terminal} (ht : ∃ token, t.Accepts token) :
    Productive (.one t) := by
  obtain ⟨token, ht⟩ := ht
  exact ⟨[token], .one ⟨token, ht, rfl⟩⟩

theorem Productive.between {a b : Terminal} (ha : ∃ token, a.Accepts token)
    (hb : ∃ token, b.Accepts token) (hf : Productive f) : Productive (.between a b f) := by
  obtain ⟨x, hx⟩ := ha
  obtain ⟨y, hy⟩ := hb
  obtain ⟨u, hu⟩ := hf
  exact ⟨x :: (u ++ [y]), .between ⟨x, hx, rfl⟩ (spans_concat hu [y]) ⟨y, hy, rfl⟩⟩

end Phrase

/-- Whether a form can be written out with names of which some are known to stand for something. -/
def Form.written (known : Nonterminal → Bool) : Phrase → Bool
  | one t => !t.kinds.isEmpty
  | part n => known n
  | between a b f => !a.kinds.isEmpty && !b.kinds.isEmpty && f.written known
  | seq f g => f.written known && g.written known
  | alt f g => f.written known || g.written known
  | opt _ | star _ => true

/-- How many rules have to be written out before this one can be. -/
def Nonterminal.height : Nonterminal → Nat
  | .operator | .operand | .source | .orderedColumn | .limit => 0
  | .expression | .from | .join | .groupBy | .orderBy => 1
  | .conditionTerm | .field | .function | .list => 2
  | .condition | .select => 3
  | .where | .having | .selectQuery => 4
  | .query => 5

theorem Nonterminal.written_rule (n : Nonterminal) :
    n.rule.written (fun m => decide (m.height < n.height)) = true := by
  cases n <;> rfl

theorem Terminal.exists_accepts {t : Terminal} (h : (!t.kinds.isEmpty) = true) :
    ∃ token, t.Accepts token := by
  cases t with
  | among ks =>
    cases ks with
    | nil => cases h
    | cons k ks => exact ⟨⟨k, "", .origin⟩, List.mem_cons_self⟩
  | value => exact ⟨⟨.number, "0", .origin⟩, rfl, by decide⟩

namespace Phrase

variable {f g : Phrase}

theorem productive_of_written {known : Nonterminal → Bool} (h : f.written known = true)
    (hk : ∀ n, known n = true → Productive (.part n)) : Productive f := by
  induction f with
  | one t => exact .letter (Terminal.exists_accepts h)
  | part n => exact hk n h
  | between a b f ih =>
    simp only [Form.written, Bool.and_eq_true] at h
    exact .between (Terminal.exists_accepts h.1.1) (Terminal.exists_accepts h.1.2) (ih h.2)
  | seq f g ihf ihg =>
    have h := (Bool.and_eq_true _ _).mp h
    exact (ihf h.1).mul (ihg h.2)
  | alt f g ihf ihg =>
    rcases (Bool.or_eq_true _ _).mp h with h | h
    · obtain ⟨u, hu⟩ := ihf h
      exact ⟨u, .left hu⟩
    · obtain ⟨u, hu⟩ := ihg h
      exact ⟨u, .right hu⟩
  | opt => exact ⟨[], .skip⟩
  | star => exact ⟨[], .stop⟩

/-- Every rule of the grammar has a sentence. -/
theorem productive_part (n : Nonterminal) : Productive (.part n) := by
  generalize hn : n.height = height
  induction height using Nat.strongRecOn generalizing n with
  | ind height ih =>
    obtain ⟨u, hu⟩ : Productive n.rule :=
      productive_of_written n.written_rule fun m hm => ih _ (hn ▸ of_decide_eq_true hm) m rfl
    exact ⟨u, .part hu⟩

/-- So has every phrase without an empty choice. -/
theorem productive (h : f.written (fun _ => true) = true) : Productive f :=
  productive_of_written h fun n _ => productive_part n

end Phrase

/-- From one index up to another the tokens can begin a phrase. -/
def TokenList.Begins (ts : TokenList) (f : Phrase) (i j : Nat) : Prop :=
  i ≤ j ∧ f.CanBegin (ts.slice i j)

namespace TokenList

open Phrase

variable {ts : TokenList} {f g : Phrase} {i j u : Nat}

/-- A whole phrase begins one. -/
theorem Spells.begins (h : ts.Spells f i j) : ts.Begins f i j :=
  ⟨Spells.le h, [], by rw [List.append_nil]; exact (takes_slice (Spells.le h)).mpr h⟩

/-- No token begins any phrase. -/
theorem begins_self (i : Nat) (hf : f.written (fun _ => true) = true := by rfl) :
    ts.Begins f i i := by
  obtain ⟨u, hu⟩ := productive hf
  exact ⟨Nat.le_refl i, u, by rw [slice_of_le (Nat.le_refl i)]; exact hu⟩

namespace Begins

theorem mul (h : ts.Begins f i j) (hg : g.written (fun _ => true) = true := by rfl) :
    ts.Begins (f * g) i j := by
  obtain ⟨hle, u, hu⟩ := h
  obtain ⟨v, hv⟩ := productive hg
  exact ⟨hle, u ++ v, by rw [← List.append_assoc]; exact .seq (spans_concat hu v) hv⟩

theorem after (hf : ts.Spells f i u) (h : ts.Begins g u j) : ts.Begins (f * g) i j := by
  obtain ⟨hle, v, hv⟩ := h
  have hiu := Spells.le hf
  refine ⟨Nat.le_trans hiu hle, v, ?_⟩
  rw [← slice_append hiu hle, List.append_assoc]
  exact .seq (spans_concat ((takes_slice hiu).mpr hf) _) hv

theorem left (h : ts.Begins f i j) : ts.Begins (f + g) i j :=
  ⟨h.1, h.2.imp fun _ => .left⟩

theorem right (h : ts.Begins g i j) : ts.Begins (f + g) i j :=
  ⟨h.1, h.2.imp fun _ => .right⟩

theorem part {n : Nonterminal} (h : ts.Begins n.rule i j) : ts.Begins (.part n) i j :=
  ⟨h.1, h.2.imp fun _ => .part⟩

theorem take (h : ts.Begins f i j) : ts.Begins (.opt f) i j := ⟨h.1, h.2.imp fun _ => .take⟩

theorem assoc {k : Phrase} (h : ts.Begins (f * (g * k)) i j) : ts.Begins (f * g * k) i j :=
  ⟨h.1, h.2.imp fun _ => Form.spans_assoc.mpr⟩

theorem step (h : ts.Begins f i j) : ts.Begins (.star f) i j :=
  ⟨h.1, h.2.imp fun _ h => .step h .stop⟩

theorem step_after (hf : ts.Spells f i u) (h : ts.Begins (.star f) u j) :
    ts.Begins (.star f) i j := by
  obtain ⟨hle, v, hv⟩ := after hf h
  obtain ⟨w, hf, hs⟩ := Form.spans_mul.mp hv
  exact ⟨hle, v, .step hf hs⟩

theorem kinds_mul {ks : List TokenKind} (hk : ts.kind i ∈ ks) (h : ts.Begins f (i + 1) j) :
    ts.Begins (Phrase.kinds ks * f) i j := after (spells_kinds.mpr ⟨hk, rfl⟩) h

theorem kind_mul {k : TokenKind} (hk : ts.kind i = k) (h : ts.Begins f (i + 1) j) :
    ts.Begins (Phrase.kind k * f) i j := kinds_mul (List.mem_singleton.mpr hk) h

/-- A parenthesis that is open can be closed. -/
theorem parenthesized (hk : ts.kind i = .leftParen) (h : ts.Begins f (i + 1) j) :
    ts.Begins (Phrase.parenthesized f) i j := by
  obtain ⟨hle, u, hu⟩ := h
  refine ⟨Nat.le_of_succ_le hle, u ++ [⟨.rightParen, "", .origin⟩], ?_⟩
  rw [slice_cons hle, List.cons_append, ← List.append_assoc]
  exact .between ⟨_, List.mem_singleton.mpr hk, rfl⟩ (spans_concat hu _)
    ⟨_, List.mem_singleton.mpr rfl, rfl⟩

end Begins

end TokenList

end SqlSelect
