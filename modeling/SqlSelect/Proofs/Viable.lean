import SqlSelect.Proofs.Completing

namespace SqlSelect

/-- A query, with or without a semicolon after it. -/
def Acceptable (tokens : List Token) : Prop :=
  ∃ query, Nonterminal.query.Sentence query ∧ (tokens = query ∨
    ∃ semicolon : Token, semicolon.kind = .semicolon ∧ tokens = query ++ [semicolon])

/-- Tokens of these kinds can be gone on with so that all are acceptable. -/
def Viable (kinds : List TokenKind) : Prop :=
  ∃ tokens, Acceptable tokens ∧ kinds <+: tokens.map (·.kind)

/-- A letter for tokens that do not end a text. -/
def Terminal.Inner (t : Terminal) : Prop := ∀ k ∈ t.kinds, k.isTerminal = false

instance : DecidablePred Terminal.Inner := fun t =>
  inferInstanceAs (Decidable (∀ k ∈ t.kinds, k.isTerminal = false))

theorem Nonterminal.rule_inner (n : Nonterminal) : n.rule.Uses Terminal.Inner := by
  cases n <;> decide

/-- No parenthesis in a form is empty. -/
def Form.filled : Phrase → Bool
  | one _ | part _ => true
  | between _ _ f => f.proper && .rightParen ∉ f.starts && f.filled
  | seq f g | alt f g => f.filled && g.filled
  | opt f | star f => f.filled

theorem Nonterminal.rule_filled (n : Nonterminal) : n.rule.filled = true := by
  cases n <;> decide

namespace Phrase

def acceptable : Phrase := .part .query * .opt (kind .semicolon)

variable {f : Phrase} {tokens left left' : List Token}

/-- The end of a text is no part of a phrase. -/
theorem isTerminal_of_spans (h : f.Spans Terminal.Takes Nonterminal.rule tokens [])
    (hf : f.Uses Terminal.Inner) : ∀ t ∈ tokens, t.kind.isTerminal = false := by
  let R (left left' : List Token) : Prop :=
    ∃ front, left = front ++ left' ∧ ∀ t ∈ front, t.kind.isTerminal = false
  have htrans (left between left' : List Token) :
      R left between → R between left' → R left left' := by
    rintro ⟨front, rfl, hf⟩ ⟨front', rfl, hf'⟩
    exact ⟨front ++ front', (List.append_assoc ..).symm, List.forall_mem_append.mpr ⟨hf, hf'⟩⟩
  have hletter (t : Terminal) (left left' : List Token) : t.Inner → t.Takes left left' →
      R left left' := by
    rintro ht ⟨token, ha, rfl⟩
    exact ⟨[token], rfl, List.forall_mem_singleton.mpr (ht _ ha.mem_kinds)⟩
  obtain ⟨front, rfl, ht⟩ := h.related (R := R) (fun _ => ⟨[], rfl, nofun⟩) htrans hletter
    Nonterminal.rule_inner hf
  rwa [List.append_nil]

/-- What can be taken away is spelt by the front of some token list. -/
theorem exists_spells (h : f.Spans Terminal.Takes Nonterminal.rule tokens [])
    (hf : f.Uses Terminal.Inner) :
    ∃ ts : TokenList, ts.slice 0 tokens.length = tokens ∧ ts.Spells f 0 tokens.length := by
  have hinner : ∀ t ∈ tokens.toArray, t.isError = false := fun t ht => by
    have hk := isTerminal_of_spans h hf t (by simpa using ht)
    cases he : t.isError with
    | false => rfl
    | true =>
      have he : t.kind = .error := by simpa [Token.isError] using he
      rw [he] at hk
      cases hk
  let ts : TokenList := ⟨tokens.toArray, ⟨.eof, "", .origin⟩, rfl, hinner⟩
  have hslice : ts.slice 0 tokens.length = tokens := by
    rw [← TokenList.take_toList (by simp [TokenList.size, ts])]
    simp [TokenList.toList, ts]
  exact ⟨ts, hslice, (TokenList.takes_slice (Nat.zero_le _)).mp (hslice.symm ▸ h)⟩

end Phrase

namespace TokenList

open Phrase

variable {ts : TokenList} {f : Phrase} {i j : Nat}

/-- Where a parenthesis opens in a phrase, the next token does not close it. -/
theorem Spells.kind_succ_ne (h : ts.Spells f i j) (hb : f.bracketed = true)
    (hf : f.filled = true) {m : Nat} (hi : i ≤ m) (hj : m < j) (hm : ts.kind m = .leftParen) :
    ts.kind (m + 1) ≠ .rightParen := by
  induction h with
  | @one t i _ h =>
    obtain ⟨ha, rfl⟩ := h
    obtain rfl : m = i := by omega
    have hk : ts.kind m ∉ [TokenKind.leftParen, .rightParen, .eof] :=
      of_decide_eq_true (List.all_eq_true.mp hb _ ha.mem_kinds)
    exact (hk (by simp [hm])).elim
  | @part n _ _ _ ih => exact ih n.bracketed_rule n.rule_filled hi hj
  | @between a b f i u u' j ha hs hc ih =>
    obtain ⟨_, rfl⟩ := ha
    obtain ⟨hc, rfl⟩ := hc
    simp only [Form.bracketed, Form.filled, Bool.and_eq_true, decide_eq_true_eq] at hb hf
    rcases Nat.lt_or_ge m (i + 1) with hlt | hge
    · -- the parenthesis of this phrase itself, where the inner phrase begins
      obtain rfl : m = i := by omega
      exact fun he => hf.1.2 (he ▸ Spells.kind_mem hs hf.1.1)
    · rcases Nat.lt_or_ge m u' with hlt | hge'
      · exact ih hb.2 hf.2 hge hlt
      · obtain rfl : m = u' := by omega
        have hk := hc.mem_kinds
        rw [hb.1.2, List.mem_singleton] at hk
        cases hm.symm.trans hk
  | @seq f g _ u _ _ _ ihf ihg =>
    have hb := (Bool.and_eq_true _ _).mp hb
    have hf := (Bool.and_eq_true _ _).mp hf
    rcases Nat.lt_or_ge m u with hlt | hge
    · exact ihf hb.1 hf.1 hi hlt
    · exact ihg hb.2 hf.2 hge hj
  | left _ ih => exact ih ((Bool.and_eq_true _ _).mp hb).1 ((Bool.and_eq_true _ _).mp hf).1 hi hj
  | right _ ih => exact ih ((Bool.and_eq_true _ _).mp hb).2 ((Bool.and_eq_true _ _).mp hf).2 hi hj
  | skip | stop => omega
  | take _ ih => exact ih hb hf hi hj
  | @step _ _ u _ _ _ ihf ihs =>
    rcases Nat.lt_or_ge m u with hlt | hge
    · exact ihf hb hf hi hlt
    · exact ihs hb hf hge hj

/-- No phrase can be begun with the end of input. -/
theorem Begins.lt_size (h : ts.Begins f 0 j) (hf : f.Uses Terminal.Inner) : j < ts.size := by
  obtain ⟨_, more, hs⟩ := h
  refine Nat.lt_of_not_le fun hle => ?_
  have hpos : ts.size - 1 < ts.size := by unfold size; omega
  have hmem : ts.token (ts.size - 1) ∈ ts.slice 0 j :=
    List.mem_map_of_mem (List.mem_range'_1.mpr ⟨Nat.zero_le _, by omega⟩)
  have hk := isTerminal_of_spans hs hf _ (List.mem_append_left more hmem)
  change (ts.kind (ts.size - 1)).isTerminal = false at hk
  rw [kind_of_size_le (by omega)] at hk
  cases hk

end TokenList

open Phrase

variable {tokens : List Token}

theorem acceptable_iff :
    Acceptable tokens ↔ acceptable.Spans Terminal.Takes Nonterminal.rule tokens [] := by
  constructor
  · rintro ⟨query, hq, rfl | ⟨semicolon, hk, rfl⟩⟩
    · exact .seq hq .skip
    · exact .seq (spans_concat hq _) (.take (.one ⟨semicolon, List.mem_singleton.mpr hk, rfl⟩))
  · intro h
    obtain ⟨ts, hslice, hs⟩ := exists_spells h (by decide)
    obtain ⟨m, hq, ho⟩ := Form.spans_mul.mp hs
    have hquery := (TokenList.sentence_slice (Nat.zero_le m)).mpr hq
    refine ⟨_, hquery, ?_⟩
    rcases Form.spans_opt.mp ho with he | ho
    · rw [he] at hslice
      exact .inl hslice.symm
    · obtain ⟨hk, he⟩ := TokenList.spells_kind.mp ho
      rw [he, TokenList.slice_succ (Nat.zero_le m)] at hslice
      exact .inr ⟨_, hk, hslice.symm⟩

/-- What begins something acceptable is viable. -/
theorem TokenList.Begins.viable {ts : TokenList} {j : Nat} (h : ts.Begins acceptable 0 j) :
    Viable ((ts.slice 0 j).map (·.kind)) := by
  obtain ⟨_, more, hs⟩ := h
  refine ⟨_, acceptable_iff.mpr hs, ?_⟩
  rw [List.map_append]
  exact List.prefix_append ..

/-- Nothing acceptable has an empty parenthesis in it. -/
theorem Viable.getElem?_succ_ne {kinds : List TokenKind} (h : Viable kinds) {m : Nat}
    (hm : kinds[m]? = some .leftParen) : kinds[m + 1]? ≠ some .rightParen := by
  obtain ⟨tokens, ha, hkinds⟩ := h
  obtain ⟨ts, hslice, hs⟩ := exists_spells (acceptable_iff.mp ha) (by decide)
  have hkind {l : Nat} {k : TokenKind} (hl : kinds[l]? = some k) :
      l < tokens.length ∧ ts.kind l = k := by
    obtain ⟨rest, hr⟩ := hkinds
    have hl : (tokens.map (·.kind))[l]? = some k := by
      rw [← hr, List.getElem?_append_left (List.getElem?_eq_some_iff.mp hl).1]
      exact hl
    have hlt : l < tokens.length := by simpa using (List.getElem?_eq_some_iff.mp hl).1
    rw [← hslice] at hl
    exact ⟨hlt, by simpa [TokenList.slice, TokenList.kind, hlt] using hl⟩
  intro hc
  obtain ⟨hlt, hm⟩ := hkind hm
  exact hs.kind_succ_ne rfl rfl (Nat.zero_le m) hlt hm (hkind hc).2

end SqlSelect
