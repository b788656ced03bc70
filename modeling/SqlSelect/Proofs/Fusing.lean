import SqlSelect.Proofs.Adjacency
import SqlSelect.Proofs.Rescanning

namespace SqlSelect

section

variable {w w₁ g rest rest₁ rest' text : List Char} {k k₁ : TokenKind} {c : Char} {n : Nat}

theorem symbol?_of_not_startsSymbol (hc : startsSymbol c = false) :
    symbol? (c :: text) = none := by
  refine List.findSome?_eq_none_iff.mpr fun v hv => ?_
  have hne : ∀ v ∈ symbols, v.1.toList ≠ [] := by decide
  obtain ⟨a, l, hl⟩ := List.exists_cons_of_ne_nil (hne v hv)
  have ha : startsSymbol a = true := List.any_eq_true.mpr ⟨v, hv, by simp [hl]⟩
  rw [matchWord, hl]
  refine if_neg fun h => ?_
  rw [Bool.and_true, beginsWith, Bool.and_eq_true, sameLetter, beq_iff_eq] at h
  rw [← startsSymbol_caseBlind a, h.1, startsSymbol_caseBlind c, hc] at ha
  cases ha

theorem readSymbol_of_not_startsSymbol (hc : startsSymbol c = false) :
    readSymbol c text = .flaw 0 (.character c) := by
  rw [readSymbol, symbol?_of_not_startsSymbol hc]

theorem isWordStart_of_not_isWordChar (hc : isWordChar c = false) : isWordStart c = false :=
  Bool.eq_false_iff.mpr fun h => by
    rw [isWordChar_of_isWordStart h] at hc
    cases hc

theorem isDecimal_of_not_isWordChar (hc : isWordChar c = false) : isDecimal c = false :=
  Bool.eq_false_iff.mpr fun h => by
    rw [isWordChar_of_isDecimal h] at hc
    cases hc

/-- White space begins no token. -/
theorem scan_of_isSpace (hc : isSpace c = true) : scan (c :: text) = .flaw 0 (.character c) := by
  have hw := isWordChar_of_isSpace hc
  have hs : startsSymbol c = false := by
    refine Bool.eq_false_iff.mpr fun h => ?_
    have hd : ∀ v ∈ symbols, headIs isSpace v.1.toList = false := by decide
    obtain ⟨v, hv, hh⟩ := List.any_eq_true.mp h
    have hhead := hd v hv
    rw [headIs, beq_iff_eq.mp hh] at hhead
    cases hhead.symm.trans hc
  have hne {d : Char} (hd : isSpace d = false) : c ≠ d := by
    rintro rfl
    rw [hd] at hc
    cases hc
  have hcolon : c ≠ ':' := hne rfl
  have hquote : c ≠ '\'' := hne rfl
  have hquotes : c ≠ '"' := hne rfl
  have hbacktick : c ≠ '\x60' := hne rfl
  have hsymbol : readSymbol c text = .flaw 0 (.character c) := readSymbol_of_not_startsSymbol hs
  rw [scan_cons (word?_of_not_wordStart (isWordStart_of_not_isWordChar hw))]
  simp [readFrom, hcolon, hquote, hquotes, hbacktick, isWordStart_of_not_isWordChar hw,
    isDecimal_of_not_isWordChar hw, hsymbol]

theorem headIs_isSpace_of_scan (hne : w ≠ []) (h : scan (w ++ rest) = .token w.length k) :
    headIs isSpace (w ++ rest) = false := by
  obtain ⟨c, w, rfl⟩ := List.exists_cons_of_ne_nil hne
  refine Bool.eq_false_iff.mpr fun hc => ?_
  rw [List.cons_append, scan_of_isSpace hc] at h
  exact Reading.flaw_ne_token h

/-- The tokens that begin with no word, no number and no symbol. -/
theorem scan_opening (hw : isWordChar c = false) (hs : startsSymbol c = false)
    (h : scan (c :: text) = .token n k) : k ∈ TokenKind.names := by
  rw [scan_cons (word?_of_not_wordStart (isWordStart_of_not_isWordChar hw))] at h
  unfold readFrom at h
  rw [isDecimal_of_not_isWordChar hw, isWordStart_of_not_isWordChar hw,
    readSymbol_of_not_startsSymbol hs] at h
  split at h
  next =>
    obtain ⟨_, rfl⟩ := Reading.token_inj.mp h
    decide
  rw [if_neg Bool.false_ne_true] at h
  split at h
  next =>
    unfold readString at h
    split at h
    next =>
      obtain ⟨_, rfl⟩ := Reading.token_inj.mp h
      decide
    next => exact (Reading.flaw_ne_token h).elim
  split at h
  next =>
    unfold readBacktick at h
    split at h
    next =>
      obtain ⟨_, rfl⟩ := Reading.token_inj.mp h
      decide
    next => exact (Reading.flaw_ne_token h).elim
  next => exact (Reading.flaw_ne_token h).elim

theorem compound?_blank (hw : ∀ d ∈ w, isWordChar d = true) (hc : isSpace c = false)
    (h : compoundOf? (lowered w) (spelling (c :: text)) = none) :
    compound? (w ++ ' ' :: c :: text) = none := by
  have hblank : ∀ d ∈ [' '], isSpace d = true := List.forall_mem_singleton.mpr (by decide)
  have hspace : headIs isSpace (c :: text) = false := hc
  have hgap := compound?_gap hw hblank (List.cons_ne_nil ' ' []) hspace
  rw [h, Option.map_none, ite_self] at hgap
  exact hgap

theorem scan_bare_parts (hc : isWordStart c = true)
    (h : scan (c :: w ++ rest) = .token (c :: w).length .literal) :
    word? (c :: w ++ rest) = none ∧ (∀ d ∈ c :: w, isWordChar d = true) ∧
      headIs isWordChar rest = false := by
  rcases scan_wordStart_cases hc h with ⟨h, _⟩ | h | ⟨_, h⟩ | ⟨_, h⟩
  · cases function?_kind h
  · exact (keyword?_kind h rfl).elim
  · obtain ⟨_, _, _, _, _, _, _, _, _, _, hk⟩ := compound?_parts h
    obtain ⟨x, hx, _, _, hk⟩ := compoundOf?_eq_some hk
    have hne : ∀ x ∈ compounds, TokenKind.literal ≠ x.kind := by decide
    exact (hne x hx hk).elim
  · exact h

/-- The words of the tables begin with a letter wherever they stand. -/
theorem isWordStart_of_spelling {v : String} (hv : Plain v) (h : spelling (c :: text) = v) :
    isWordStart c = true := by
  cases hc : isWordChar c with
  | false =>
    have hn : frontWord (c :: text) = [] := List.takeWhile_cons_of_neg (by simp [hc])
    rw [spelling, hn] at h
    exact (hv.1 (h ▸ rfl)).elim
  | true =>
    have hn : frontWord (c :: text) = c :: frontWord text := List.takeWhile_cons_of_pos hc
    have hm : c.toLower ∈ v.toList := by
      rw [← h, spelling, hn, lowered, String.toList_ofList]
      exact List.mem_cons_self
    rw [← isWordStart_caseBlind c]
    exact (hv.2 _ hm).2

/-- A word and a token after it make no keyword where a single blank stands between them and they
made none before. -/
theorem compound?_respaced_none (hw : ∀ d ∈ w, isWordChar d = true)
    (hn : compound? (w ++ (g ++ (w₁ ++ rest₁))) = none)
    (hg : ∀ d ∈ g, isSpace d = true) (hr : headIs isWordChar (g ++ (w₁ ++ rest₁)) = false)
    (hw₁ : w₁ ≠ []) (hk₁ : k₁.isFunction = false) (h₁ : scan (w₁ ++ rest₁) = .token w₁.length k₁)
    (hb : BlankAhead rest')
    (hnext : k₁ = .literal → headIs isWordChar rest₁ = false → atBoundary rest₁ = true) :
    compound? (w ++ ' ' :: (w₁ ++ rest')) = none := by
  have hspace := headIs_isSpace_of_scan hw₁ h₁
  obtain ⟨c, w₁, rfl⟩ := List.exists_cons_of_ne_nil hw₁
  refine compound?_blank hw hspace (Option.eq_none_iff_forall_not_mem.mpr fun k hk => ?_)
  have hk : compoundOf? (lowered w) (spelling (c :: w₁ ++ rest')) = some k := hk
  obtain ⟨x, hx, hfirst, hsecond, _⟩ := compoundOf?_eq_some hk
  have hstart := isWordStart_of_spelling (compounds_plain x hx).2 hsecond
  have hgap : g ≠ [] := by
    rintro rfl
    have hc : isWordChar c = false := hr
    rw [isWordChar_of_isWordStart hstart] at hc
    cases hc
  have hbare (hall : ∀ d ∈ c :: w₁, isWordChar d = true) (hbound : atBoundary rest₁ = true) :
      False := by
    rw [compound?_append hw hg hgap hall (by simp) hbound] at hn
    rw [spelling, frontWord_append hall hb.endsWord] at hk
    rw [hk] at hn
    cases hn
  rcases scan_wordStart_cases hstart h₁ with ⟨h, _⟩ | h | ⟨_, h⟩ | ⟨rfl, _, hall, hr⟩
  · have hkind : k₁.isFunction = true := function?_kind h
    rw [hk₁] at hkind
    cases hkind
  · obtain ⟨hall, hbound, _⟩ := keyword?_parts h
    exact hbare hall hbound
  · obtain ⟨f, g', s, hparts, hf, hg, hg', _, _, _, hk⟩ := compound?_parts h
    obtain ⟨y, hy, hfirst', _, _⟩ := compoundOf?_eq_some hk
    have hgap : headIs isWordChar (g' ++ (s ++ rest')) = false := (headIs_gap hg hg').2.1
    rw [hparts, List.append_assoc, List.append_assoc, spelling, frontWord_append hf hgap] at hsecond
    have hne : ∀ x ∈ compounds, ∀ y ∈ compounds, x.first ≠ y.second := by decide
    exact hne y hy x hx (hfirst'.symm.trans hsecond)
  · exact hbare hall (hnext rfl hr)

end

end SqlSelect
