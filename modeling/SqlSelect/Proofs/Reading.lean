import SqlSelect.Proofs.Lookahead
import SqlSelect.Proofs.Outcome

namespace SqlSelect

variable {ts : TokenList} {a : Nat} {f g : Phrase} {stops : List TokenKind} {rule : Rule}
variable {step : Nat → Except Fault (Option Stretch)}

/-- From index `a` on, a rule finds a phrase that is not followed by a token of some kinds. -/
def Rule.Reads (ts : TokenList) (a : Nat) (f : Phrase) (stops : List TokenKind) (rule : Rule) :
    Prop :=
  ∀ i j, a ≤ i → ts.Spells f i j → ts.kind j ∉ stops → ∃ n, rule i = .ok n ∧ n.last + 1 = j

/-- A step finds a phrase after a token, and says that there is none if the next token does not
begin one. -/
structure ReadsAfter (ts : TokenList) (a : Nat) (f : Phrase) (stops : List TokenKind)
    (step : Nat → Except Fault (Option Stretch)) : Prop where
  found {last j : Nat} : a ≤ last + 1 → ts.Spells f (last + 1) j → ts.kind j ∉ stops →
    ∃ s, step last = .ok (some s) ∧ s.last + 1 = j
  rests {last : Nat} : ts.kind (last + 1) ∉ f.starts → step last = .ok none

namespace ReadsAfter

variable {last j : Nat}

theorem mono {stops' : List TokenKind} (h : ReadsAfter ts a f stops step)
    (hs : ∀ k ∈ stops, k ∈ stops') : ReadsAfter ts a f stops' step :=
  ⟨fun ha hf hj => h.found ha hf fun hk => hj (hs _ hk), h.rests⟩

/-- Repetition is right to go on as long as it can: what begins one more is no end of the last. -/
theorem many_star (h : ReadsAfter ts a f stops step) (hf : f.proper = true)
    (hn : ∀ k ∈ f.starts, k ∉ stops) (bound : Nat) (ha : a ≤ last + 1)
    (hs : ts.Spells (.star f) (last + 1) j) (hj : ts.kind j ∉ f.starts ++ stops)
    (hb : j ≤ last + 1 + bound) : ∃ s, many step bound last = .ok s ∧ s.last + 1 = j := by
  have hj' : ts.kind j ∉ f.starts ∧ ts.kind j ∉ stops := by simpa using hj
  induction bound generalizing last with
  | zero =>
    have := TokenList.Spells.le hs
    exact ⟨⟨[], last⟩, rfl, by dsimp only; omega⟩
  | succ bound ih =>
    rcases Form.spans_star.mp hs with rfl | ⟨u, hu, hs⟩
    · exact ⟨⟨[], last⟩, many_succ_eq_ok.mpr (.inl ⟨h.rests hj'.1, rfl⟩), rfl⟩
    · have hlt := TokenList.Spells.lt hu hf
      have hk : ts.kind u ∉ stops := TokenList.Spells.kind_not_mem hs hn hj'.2
      obtain ⟨one, ho, rfl⟩ := h.found ha hu hk
      obtain ⟨more, hm, hl⟩ := ih (by omega) hs (by omega)
      exact ⟨_, many_succ_eq_ok.mpr (.inr ⟨one, more, ho, hm, rfl⟩), hl⟩

theorem many_opt (h : ReadsAfter ts a f stops step) (ha : a ≤ last + 1)
    (hs : ts.Spells (.opt f) (last + 1) j) (hj : ts.kind j ∉ f.starts ++ stops) :
    ∃ s, many step 1 last = .ok s ∧ s.last + 1 = j := by
  have hj' : ts.kind j ∉ f.starts ∧ ts.kind j ∉ stops := by simpa using hj
  rcases Form.spans_opt.mp hs with rfl | hs
  · exact ⟨⟨[], last⟩, many_succ_eq_ok.mpr (.inl ⟨h.rests hj'.1, rfl⟩), rfl⟩
  · obtain ⟨one, ho, hl⟩ := h.found ha hs hj'.2
    exact ⟨_, many_succ_eq_ok.mpr (.inr ⟨one, ⟨[], one.last⟩, ho, rfl, rfl⟩), hl⟩

end ReadsAfter

namespace Rule.Reads

variable {i j : Nat}

theorem chain_star (hr : Rule.Reads ts a g stops rule) (h : ReadsAfter ts a f stops step)
    (hb : (g * f.star).bracketed = true) (hg : g.proper = true) (hf : f.proper = true)
    (hn : ∀ k ∈ f.starts, k ∉ stops) (ha : a ≤ i) (hs : ts.Spells (g * f.star) i j)
    (hj : ts.kind j ∉ f.starts ++ stops) :
    ∃ s, chain ts.size rule step i = .ok s ∧ s.last + 1 = j := by
  have hsize := TokenList.Spells.lt_size hs hb (by simp [hg])
  obtain ⟨u, hu, hs⟩ := Form.spans_mul.mp hs
  have hle := TokenList.Spells.le hu
  have hk : ts.kind u ∉ stops :=
    TokenList.Spells.kind_not_mem hs hn fun hk => hj (List.mem_append_right _ hk)
  obtain ⟨head, hh, rfl⟩ := hr i u ha hu hk
  obtain ⟨more, hm, hl⟩ := h.many_star hf hn ts.size (by omega) hs hj (by omega)
  exact ⟨_, chain_eq_ok.mpr ⟨head, more, hh, hm, rfl⟩, hl⟩

theorem chain_opt (hr : Rule.Reads ts a g stops rule) (h : ReadsAfter ts a f stops step)
    (hn : ∀ k ∈ f.starts, k ∉ stops) (ha : a ≤ i) (hs : ts.Spells (g * f.opt) i j)
    (hj : ts.kind j ∉ f.starts ++ stops) :
    ∃ s, chain 1 rule step i = .ok s ∧ s.last + 1 = j := by
  obtain ⟨u, hu, hs⟩ := Form.spans_mul.mp hs
  have hle := TokenList.Spells.le hu
  have hk : ts.kind u ∉ stops :=
    TokenList.Spells.kind_not_mem hs hn fun hk => hj (List.mem_append_right _ hk)
  obtain ⟨head, hh, rfl⟩ := hr i u ha hu hk
  obtain ⟨more, hm, hl⟩ := h.many_opt (by omega) hs hj
  exact ⟨_, chain_eq_ok.mpr ⟨head, more, hh, hm, rfl⟩, hl⟩

/-- What a token announces that is the first of the phrase. -/
theorem announced (hr : Rule.Reads ts a f stops rule) {p : TokenKind → Bool}
    (hf : f.proper = true) (hp : ∀ k, p k = true ↔ k ∈ f.starts) :
    ReadsAfter ts a f stops (announced ts p rule) := by
  refine ⟨fun ha hs hj => ?_, fun hk => ?_⟩
  · obtain ⟨n, hn, hl⟩ := hr _ _ ha hs hj
    have hk := (hp _).mpr (TokenList.Spells.kind_mem hs hf)
    exact ⟨_, announced_eq_some.mpr ⟨hk, n, hn, rfl⟩, hl⟩
  · exact if_neg fun hk' => hk ((hp _).mp hk')

/-- What a token announces that stands before the phrase. -/
theorem announced_after (hr : Rule.Reads ts a f stops rule) (p : TokenKind → Bool)
    (ks : List TokenKind) (hp : ∀ k, p k = true ↔ k ∈ ks) :
    ReadsAfter ts a (Phrase.kinds ks * f) stops
      (SqlSelect.announced ts p fun i => rule (i + 1)) := by
  refine ⟨fun ha hs hj => ?_, fun hk => ?_⟩
  · obtain ⟨u, hu, hs⟩ := Form.spans_mul.mp hs
    obtain ⟨hk, rfl⟩ := TokenList.spells_kinds.mp hu
    obtain ⟨n, hn, hl⟩ := hr _ _ (by omega) hs hj
    exact ⟨_, announced_eq_some.mpr ⟨(hp _).mpr hk, n, hn, rfl⟩, hl⟩
  · refine if_neg fun hk' => hk (List.mem_append_left _ ((hp _).mp hk'))

theorem commaList (hr : Rule.Reads ts a f stops rule)
    (hb : f.bracketed = true) (hf : f.proper = true) (hn : .comma ∉ stops) (ha : a ≤ i)
    (hs : ts.Spells (.separated f (Phrase.kind .comma)) i j)
    (hj : ts.kind j ∉ .comma :: stops) :
    ∃ s, commaList ts rule i = .ok s ∧ s.last + 1 = j := by
  have hp : ∀ k : TokenKind, (k == .comma) = true ↔ k ∈ [TokenKind.comma] := by simp
  have hc : (f * (Phrase.kind .comma * f).star).bracketed = true := by
    simp [Form.bracketed, hb]
  have hk : ∀ k ∈ [TokenKind.comma], k ∉ stops := by simpa using hn
  exact hr.chain_star (hr.announced_after _ _ hp) hc hf rfl hk ha hs hj

end Rule.Reads

end SqlSelect
