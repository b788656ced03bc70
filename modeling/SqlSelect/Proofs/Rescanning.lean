import SqlSelect.Proofs.Respacing
import SqlSelect.Proofs.Scanning

namespace SqlSelect

section

variable {w rest rest' text f g s : List Char} {k : TokenKind} {c : Char}

theorem isWordChar_of_mem_frontWord (hc : c ∈ frontWord text) : isWordChar c = true :=
  List.all_eq_true.mp List.all_takeWhile c hc

/-- What is as long as the word at the front is that word. -/
theorem frontWord_eq_of_length (h : (frontWord (w ++ rest)).length = w.length) :
    frontWord (w ++ rest) = w ∧ afterWord (w ++ rest) = rest :=
  List.append_inj (frontWord_append_afterWord (w ++ rest)) h

theorem headIs_dropWhile (p : Char → Bool) (text : List Char) :
    headIs p (text.dropWhile p) = false := by
  have h := List.head?_dropWhile_not p text
  unfold headIs
  cases hd : (text.dropWhile p).head? with
  | none => rfl
  | some c =>
    rw [hd] at h
    exact h

theorem headIs_afterWord (text : List Char) : headIs isWordChar (afterWord text) = false :=
  headIs_dropWhile isWordChar text

theorem headIs_isWordChar_of_atBoundary (h : atBoundary rest = true) :
    headIs isWordChar rest = false := by
  cases rest with
  | nil => rfl
  | cons c rest => exact endsWord_boundary c rest h

theorem keyword?_append (hw : ∀ c ∈ w, isWordChar c = true) (hr : headIs isWordChar rest = false) :
    keyword? (w ++ rest) =
      if atBoundary rest = true then (keywords.lookup (lowered w)).map (Match.mk w.length)
      else none := by
  rw [keyword?_eq, spelling, frontWord_append hw hr, afterWord_append hw hr]

theorem function?_append (hw : ∀ c ∈ w, isWordChar c = true)
    (hr : headIs isWordChar rest = false) :
    function? (w ++ rest) =
      if opensCall rest = true then (functions.lookup (lowered w)).map (Match.mk w.length)
      else none := by
  rw [function?_eq, spelling, frontWord_append hw hr, afterWord_append hw hr]

theorem headIs_gap (hg : ∀ c ∈ g, isSpace c = true) (hg' : g ≠ []) :
    headIs isSpace (g ++ rest) = true ∧ headIs isWordChar (g ++ rest) = false ∧
      atBoundary (g ++ rest) = true := by
  cases g with
  | nil => exact (hg' rfl).elim
  | cons c g =>
    have hc := hg c List.mem_cons_self
    exact ⟨hc, isWordChar_of_isSpace hc, (Bool.or_eq_true _ _).mpr (.inl hc)⟩

/-- A word, some white space, and what comes next. -/
theorem compound?_gap (hf : ∀ c ∈ f, isWordChar c = true) (hg : ∀ c ∈ g, isSpace c = true)
    (hg' : g ≠ []) (hr : headIs isSpace rest = false) : compound? (f ++ (g ++ rest)) =
      if atBoundary (afterWord rest) = true then
        (compoundOf? (lowered f) (spelling rest)).map
          (Match.mk (f.length + g.length + (frontWord rest).length))
      else none := by
  obtain ⟨hspace, hgap, _⟩ : _ ∧ headIs isWordChar (g ++ rest) = false ∧ _ := headIs_gap hg hg'
  have hafter := afterWord_append hf hgap
  have hwidth : frontWidth isSpace (g ++ rest) = g.length := by
    rw [frontWidth, takeWhile_append hg hr]
  have hafterGap : afterGap (f ++ (g ++ rest)) = rest := by
    rw [afterGap, hafter, dropWhile_append hg hr]
  have hfront : spelling (f ++ (g ++ rest)) = lowered f := by
    rw [spelling, frontWord_append hf hgap]
  rw [compound?_eq, hafterGap, hfront, hafter, hwidth, frontWord_append hf hgap]
  exact ite_congr (propext (and_iff_right hspace)) (fun _ => rfl) fun _ => rfl

theorem headIs_isSpace_of_isWordChar (hs : ∀ c ∈ s, isWordChar c = true) (hs' : s ≠ []) :
    headIs isSpace (s ++ rest) = false := by
  obtain ⟨c, s, rfl⟩ := List.exists_cons_of_ne_nil hs'
  refine Bool.eq_false_iff.mpr fun h => ?_
  have hc := hs c List.mem_cons_self
  rw [isWordChar_of_isSpace h] at hc
  cases hc

/-- Two words and the white space between them, with a boundary after the second. -/
theorem compound?_append (hf : ∀ c ∈ f, isWordChar c = true) (hg : ∀ c ∈ g, isSpace c = true)
    (hg' : g ≠ []) (hs : ∀ c ∈ s, isWordChar c = true) (hs' : s ≠ [])
    (hr : atBoundary rest = true) : compound? (f ++ (g ++ (s ++ rest))) =
      (compoundOf? (lowered f) (lowered s)).map (Match.mk (f.length + g.length + s.length)) := by
  have hr' := headIs_isWordChar_of_atBoundary hr
  rw [compound?_gap hf hg hg' (headIs_isSpace_of_isWordChar hs hs'), spelling,
    frontWord_append hs hr', afterWord_append hs hr', if_pos hr]

theorem compoundOf?_eq_some {u v : String} (h : compoundOf? u v = some k) :
    ∃ x ∈ compounds, u = x.first ∧ v = x.second ∧ k = x.kind := by
  obtain ⟨x, hx, h⟩ := List.exists_of_findSome?_eq_some h
  split at h
  next hs => exact ⟨x, hx, hs.1, hs.2, (Option.some.inj h).symm⟩
  next => cases h

/-- The words of a compound, with the white space between them, are all of it. -/
theorem compound?_parts (h : compound? (w ++ rest) = some ⟨w.length, k⟩) :
    ∃ f g s, w = f ++ (g ++ s) ∧ (∀ c ∈ f, isWordChar c = true) ∧ (∀ c ∈ g, isSpace c = true) ∧
      g ≠ [] ∧ (∀ c ∈ s, isWordChar c = true) ∧ s ≠ [] ∧ atBoundary rest = true ∧
      compoundOf? (lowered f) (lowered s) = some k := by
  rw [compound?_eq] at h
  split at h
  next hb =>
    obtain ⟨l, hl, hm⟩ := Option.map_eq_some_iff.mp h
    obtain ⟨hlen, rfl⟩ : (frontWord (w ++ rest)).length
      + frontWidth isSpace (afterWord (w ++ rest)) + (frontWord (afterGap (w ++ rest))).length
        = w.length ∧ l = k := by simpa using hm
    have htext : frontWord (w ++ rest) ++ ((afterWord (w ++ rest)).takeWhile isSpace
        ++ frontWord (afterGap (w ++ rest))) ++ afterWord (afterGap (w ++ rest)) = w ++ rest := by
      rw [List.append_assoc, List.append_assoc, frontWord_append_afterWord, afterGap,
        List.takeWhile_append_dropWhile, frontWord_append_afterWord]
    obtain ⟨hw, hrest⟩ := List.append_inj htext (by rw [← hlen, frontWidth]; simp [Nat.add_assoc])
    refine ⟨frontWord (w ++ rest), (afterWord (w ++ rest)).takeWhile isSpace,
      frontWord (afterGap (w ++ rest)), hw.symm, fun _ => isWordChar_of_mem_frontWord,
      List.all_eq_true.mp List.all_takeWhile, ?_, fun _ => isWordChar_of_mem_frontWord, ?_,
      hrest ▸ hb.2, hl⟩
    · exact List.length_pos_iff.mp (frontWidth_pos_iff.mpr hb.1)
    · intro hn
      obtain ⟨x, hx, _, hs, _⟩ := compoundOf?_eq_some hl
      rw [spelling, hn] at hs
      exact (compounds_plain x hx).2.1 (hs ▸ rfl)
  next => cases h

/-- A word of a table is all of the word at the front of a text. -/
theorem findWord_parts {words : List (String × TokenKind)} {follows : List Char → Bool}
    (hw : ∀ v ∈ words, Plain v.1) (hf : EndsWord follows)
    (h : words.findSome? (matchWord follows (w ++ rest)) = some ⟨w.length, k⟩) :
    (∀ c ∈ w, isWordChar c = true) ∧ follows rest = true ∧ words.lookup (lowered w) = some k := by
  rw [findWord_eq hw hf] at h
  split at h
  next hr =>
    obtain ⟨l, hl, hm⟩ := Option.map_eq_some_iff.mp h
    obtain ⟨hlen, rfl⟩ : (frontWord (w ++ rest)).length = w.length ∧ l = k := by simpa using hm
    obtain ⟨hw, hrest⟩ := frontWord_eq_of_length hlen
    rw [hrest] at hr
    rw [spelling, hw] at hl
    exact ⟨fun c hc => isWordChar_of_mem_frontWord (hw.symm ▸ hc), hr, hl⟩
  next => cases h

theorem keyword?_parts (h : keyword? (w ++ rest) = some ⟨w.length, k⟩) :
    (∀ c ∈ w, isWordChar c = true) ∧ atBoundary rest = true ∧
      keywords.lookup (lowered w) = some k := findWord_parts keywords_plain endsWord_boundary h

theorem function?_parts (h : function? (w ++ rest) = some ⟨w.length, k⟩) :
    (∀ c ∈ w, isWordChar c = true) ∧ opensCall rest = true ∧
      functions.lookup (lowered w) = some k := findWord_parts functions_plain endsWord_call h

/-- A keyword is one before what stands loosely too. -/
theorem keyword?_respaced (hl : Loosens rest rest')
    (h : keyword? (w ++ rest) = some ⟨w.length, k⟩) :
    keyword? (w ++ rest') = some ⟨w.length, k⟩ := by
  obtain ⟨hw, hr, hk⟩ := keyword?_parts h
  have hr' := hl.atBoundary hr
  rw [keyword?_append hw (headIs_isWordChar_of_atBoundary hr'), if_pos hr', hk]
  rfl

theorem compound?_respaced (hl : Loosens rest rest') (hn : keyword? (w ++ rest) = none)
    (h : compound? (w ++ rest) = some ⟨w.length, k⟩) :
    keyword? (w ++ rest') = none ∧ compound? (w ++ rest') = some ⟨w.length, k⟩ := by
  obtain ⟨f, g, s, rfl, hf, hg, hg', hs, hs', hr, hk⟩ := compound?_parts h
  have hgap {r : List Char} : headIs isSpace (g ++ (s ++ r)) = true ∧
      headIs isWordChar (g ++ (s ++ r)) = false ∧ atBoundary (g ++ (s ++ r)) = true :=
    headIs_gap hg hg'
  simp only [List.append_assoc] at hn ⊢
  rw [keyword?_append hf hgap.2.1, if_pos hgap.2.2] at hn
  rw [keyword?_append hf hgap.2.1, if_pos hgap.2.2,
    compound?_append hf hg hg' hs hs' (hl.atBoundary hr), hk]
  refine ⟨hn, ?_⟩
  simp [Nat.add_assoc]

theorem function?_kind {m : Match} (h : function? text = some m) : m.kind.isFunction = true := by
  obtain ⟨v, hv, h⟩ := List.exists_of_findSome?_eq_some h
  have hk : ∀ v ∈ functions, v.2.isFunction = true := by decide
  rw [matchWord_kind h]
  exact hk v hv

theorem keyword?_kind {m : Match} (h : keyword? text = some m) : m.kind ≠ .literal := by
  obtain ⟨v, hv, h⟩ := List.exists_of_findSome?_eq_some h
  have hk : ∀ v ∈ keywords, v.2 ≠ .literal := by decide
  rw [matchWord_kind h]
  exact hk v hv

theorem decimal_points {P : Nat → Prop} (h : ∀ n < 58, 48 ≤ n → P n) (hc : isDecimal c = true) :
    P c.toNat := by
  obtain ⟨hl, hu⟩ : 48 ≤ c.val ∧ c.val ≤ 57 := by simpa [isDecimal, Char.isDigit] using hc
  have hu : c.toNat ≤ 57 := hu
  exact h c.toNat (by omega) hl

theorem isWordChar_of_isDecimal (hc : isDecimal c = true) : isWordChar c = true := by
  have h := decimal_points (P := fun n => numeric.contains n = true) (by decide) hc
  simp [isWordChar, isNumeric, h]

theorem isWordStart_of_isDecimal (hc : isDecimal c = true) : isWordStart c = false := by
  obtain ⟨ha, hn⟩ := decimal_points
    (P := fun n => alphabetic.contains n = false ∧ n ≠ '_'.toNat) (by decide) hc
  have hne : (c == '_') = false := beq_false_of_ne fun he => hn (he ▸ rfl)
  rw [isWordStart, isAlphabetic, ha, hne]
  rfl

theorem ne_of_isWordStart {d : Char} (hc : isWordStart c = true) (hd : isWordStart d = false) :
    c ≠ d := by
  rintro rfl
  rw [hd] at hc
  cases hc

theorem readFrom_of_wordStart (hc : isWordStart c = true) :
    readFrom c text = .token (frontWidth isWordChar (c :: text)) .literal := by
  have hdecimal : ¬isDecimal c = true := fun h => by
    rw [isWordStart_of_isDecimal h] at hc
    cases hc
  have hcolon : c ≠ ':' := ne_of_isWordStart hc (by decide)
  have hquote : c ≠ '\'' := ne_of_isWordStart hc (by decide)
  have hquotes : c ≠ '"' := ne_of_isWordStart hc (by decide)
  have hbacktick : c ≠ '\x60' := ne_of_isWordStart hc (by decide)
  simp [readFrom, hdecimal, hcolon, hquote, hquotes, hbacktick, hc]

theorem scan_of_word? {m : Match} (h : word? text = some m) : scan text = .fixed text m := by
  unfold scan
  rw [h]

theorem scan_cons (h : word? (c :: text) = none) : scan (c :: text) = readFrom c text := by
  unfold scan
  rw [h]

/-- What a token is that begins with a letter. -/
theorem scan_wordStart_cases (hc : isWordStart c = true)
    (h : scan (c :: w ++ rest) = .token (c :: w).length k) :
    function? (c :: w ++ rest) = some ⟨(c :: w).length, k⟩ ∧
        keyword? (c :: w ++ rest) = none ∨
      keyword? (c :: w ++ rest) = some ⟨(c :: w).length, k⟩ ∨
      keyword? (c :: w ++ rest) = none ∧
        compound? (c :: w ++ rest) = some ⟨(c :: w).length, k⟩ ∨
      k = .literal ∧ word? (c :: w ++ rest) = none ∧ (∀ d ∈ c :: w, isWordChar d = true) ∧
        headIs isWordChar rest = false := by
  unfold scan at h
  split at h
  next m hm =>
    obtain ⟨rfl, _⟩ := Reading.fixed_eq_token.mp h
    simp only [word?, Option.orElse_eq_orElse, Option.orElse_eq_or, Option.or_eq_some_iff] at hm
    rcases hm with hm | ⟨hn, hm | ⟨_, hm⟩⟩
    · exact .inr (.inl hm)
    · exact .inr (.inr (.inl ⟨hn, hm⟩))
    · exact .inl ⟨hm, hn⟩
  next hn =>
    have h : readFrom c (w ++ rest) = .token (c :: w).length k := h
    rw [readFrom_of_wordStart hc, Reading.token_inj] at h
    obtain ⟨hlen, rfl⟩ := h
    have hlen : (frontWord (c :: w ++ rest)).length = (c :: w).length := hlen
    obtain ⟨hw, hrest⟩ := frontWord_eq_of_length hlen
    refine .inr (.inr (.inr ⟨rfl, hn, fun d hd => ?_, ?_⟩))
    · exact isWordChar_of_mem_frontWord (hw.symm ▸ hd)
    · rw [← hrest]
      exact headIs_afterWord _

/-- All words of the tables begin with a letter. -/
theorem beginsWith_of_not_wordStart {v : String} (hv : Plain v) (hc : isWordStart c = false) :
    beginsWith v.toList (c :: text) = false := by
  cases hl : v.toList with
  | nil => exact (hv.1 hl).elim
  | cons a l =>
    refine Bool.eq_false_iff.mpr fun h => ?_
    rw [beginsWith, Bool.and_eq_true, sameLetter, beq_iff_eq] at h
    have ha := (hv.2 a (by simp [hl])).2
    rw [← isWordStart_caseBlind a, h.1, isWordStart_caseBlind c, hc] at ha
    cases ha

theorem word?_of_not_wordStart (hc : isWordStart c = false) : word? (c :: text) = none := by
  have hwords {follows : List Char → Bool} {words : List (String × TokenKind)}
      (hp : ∀ v ∈ words, Plain v.1) :
      words.findSome? (matchWord follows (c :: text)) = none := by
    refine List.findSome?_eq_none_iff.mpr fun v hv => ?_
    rw [matchWord, beginsWith_of_not_wordStart (hp v hv) hc]
    rfl
  have hcompounds : compound? (c :: text) = none := by
    refine List.findSome?_eq_none_iff.mpr fun v hv => ?_
    rw [matchCompound, beginsWith_of_not_wordStart (compounds_plain v hv).1 hc]
    rfl
  have hk : keyword? (c :: text) = none := hwords keywords_plain
  have hf : function? (c :: text) = none := hwords functions_plain
  simp [word?, hk, hf, hcompounds]

/-- A word that is in no table is a literal. -/
theorem scan_of_word?_none (hc : isWordStart c = true) (hw : ∀ d ∈ c :: w, isWordChar d = true)
    (hr : headIs isWordChar rest = false) (hn : word? (c :: w ++ rest) = none) :
    scan (c :: w ++ rest) = .token (c :: w).length .literal := by
  refine (scan_cons hn).trans ((readFrom_of_wordStart hc).trans ?_)
  exact Reading.token_inj.mpr ⟨congrArg List.length (frontWord_append hw hr), rfl⟩

/-- A word before a blank is a literal if no keyword begins with it. -/
theorem scan_bare (hc : isWordStart c = true) (hw : ∀ d ∈ c :: w, isWordChar d = true)
    (hb : BlankAhead rest) (hl : keywords.lookup (lowered (c :: w)) = none)
    (hn : compound? (c :: w ++ rest) = none) :
    scan (c :: w ++ rest) = .token (c :: w).length .literal := by
  have hr := hb.endsWord
  have hk : keyword? (c :: w ++ rest) = none := by
    rw [keyword?_append hw hr, hl, Option.map_none, ite_self]
  have hf : function? (c :: w ++ rest) = none := by
    rw [function?_append hw hr, opensCall_eq, hb.headIs rfl, if_neg Bool.false_ne_true]
  refine scan_of_word?_none hc hw hr ?_
  rw [word?, hk, hn, hf]
  rfl

theorem scan_of_word?_some (hm : word? (w ++ rest) = some ⟨w.length, k⟩) :
    scan (w ++ rest) = .token w.length k :=
  (scan_of_word? hm).trans (Reading.fixed_eq_token.mpr ⟨rfl, by simp⟩)

/-- A token is the same before a blank, unless it is the name of a function, which a parenthesis
has to follow, or a word that a keyword begins with. -/
theorem scan_respaced (hb : BlankAhead rest') (hw : w ≠ []) (hk : k.isFunction = false)
    (hl : headIs isWordStart w = true → k = .literal →
      keywords.lookup (lowered w) = none ∧ compound? (w ++ rest') = none)
    (h : scan (w ++ rest) = .token w.length k) : scan (w ++ rest') = .token w.length k := by
  obtain ⟨c, w, rfl⟩ := List.exists_cons_of_ne_nil hw
  cases hc : isWordStart c with
  | false =>
    rw [List.cons_append, scan_cons (word?_of_not_wordStart hc)] at h ⊢
    exact readFrom_respaced hb.loosens h
  | true =>
    rcases scan_wordStart_cases hc h with ⟨h, _⟩ | h | ⟨hn, h⟩ | ⟨rfl, _, hw, _⟩
    · have hkind : k.isFunction = true := function?_kind h
      rw [hk] at hkind
      cases hkind
    · refine scan_of_word?_some ?_
      rw [word?, keyword?_respaced hb.loosens h]
      rfl
    · refine scan_of_word?_some ?_
      obtain ⟨hn, h⟩ := compound?_respaced hb.loosens hn h
      rw [word?, hn, h]
      rfl
    · obtain ⟨hl, hn⟩ := hl hc rfl
      exact scan_bare hc hw hb hl hn

end

end SqlSelect
