import SqlSelect.Lexer.Advance
import SqlSelect.Proofs.Widths

namespace SqlSelect

/-- Nothing more, or a blank first. -/
def BlankAhead (text : List Char) : Prop := ∀ c ∈ text.head?, c = ' '

/-- The second text begins with white space or as the first one does, or is empty. -/
def Loosens (rest rest' : List Char) : Prop :=
  ∀ c ∈ rest'.head?, isSpace c = true ∨ rest.head? = some c

/-- No white space satisfies it. -/
def Inked (p : Char → Bool) : Prop := ∀ c, isSpace c = true → p c = false

theorem inked_of_points {p : Char → Bool}
    (h : ∀ r ∈ whiteSpace, ∀ k < 12, r.1 + k ≤ r.2 → p (Char.ofNat (r.1 + k)) = false) :
    Inked p := by
  intro c hc
  have hp := whiteSpace_points (P := fun n => p (Char.ofNat n) = false) h hc
  rwa [Char.ofNat_toNat] at hp

theorem inked_isWordChar : Inked isWordChar := fun _ => isWordChar_of_isSpace

theorem inked_isDecimal : Inked isDecimal := inked_of_points (by decide)

namespace Reading

theorem token_inj {width width' : Nat} {kind kind' : TokenKind} :
    token width kind = token width' kind' ↔ width = width' ∧ kind = kind' := by
  simp [token]

theorem flaw_ne_token {width width' : Nat} {f : Flaw} {kind : TokenKind} :
    flaw width f ≠ token width' kind := by simp [token, flaw]

theorem fixed_eq_token {text : List Char} {m : Match} {width : Nat} {kind : TokenKind} :
    fixed text m = token width kind ↔ m = ⟨width, kind⟩ ∧ width ≤ text.length := by
  unfold fixed
  split
  next h =>
    rw [List.length_take] at h
    rw [token_inj]
    constructor
    · rintro ⟨rfl, rfl⟩
      exact ⟨rfl, by omega⟩
    · rintro ⟨rfl, _⟩
      exact ⟨rfl, rfl⟩
  next h =>
    rw [List.length_take] at h
    refine ⟨fun he => (flaw_ne_token he).elim, ?_⟩
    rintro ⟨rfl, hle⟩
    dsimp only at h
    omega

end Reading

section

variable {w rest rest' text : List Char} {p : Char → Bool} {n : Nat} {k : TokenKind}

theorem BlankAhead.headIs (hb : BlankAhead rest) (hp : p ' ' = false) :
    headIs p rest = false := by
  cases rest with
  | nil => rfl
  | cons c rest =>
    have hc : c = ' ' := hb c rfl
    rw [hc]
    exact hp

theorem BlankAhead.endsWord (hb : BlankAhead rest) : SqlSelect.headIs isWordChar rest = false :=
  hb.headIs (isWordChar_of_isSpace rfl)

theorem BlankAhead.loosens (hb : BlankAhead rest') : Loosens rest rest' :=
  fun c hc => .inl (hb c hc ▸ rfl)

theorem Loosens.headIs (hl : Loosens rest rest') (hp : Inked p) (h : headIs p rest = false) :
    SqlSelect.headIs p rest' = false := by
  cases rest' with
  | nil => rfl
  | cons c rest' =>
    rcases hl c rfl with hc | hc
    · exact hp c hc
    · rw [SqlSelect.headIs, hc] at h
      exact h

theorem Loosens.atBoundary (hl : Loosens rest rest') (h : atBoundary rest = true) :
    SqlSelect.atBoundary rest' = true := by
  cases rest' with
  | nil => rfl
  | cons c rest' =>
    rcases hl c rfl with hc | hc
    · exact (Bool.or_eq_true _ _).mpr (.inl hc)
    · obtain ⟨_, rfl⟩ := List.head?_eq_some_iff.mp hc
      exact h

theorem frontWidth_eq_zero_iff : frontWidth p text = 0 ↔ headIs p text = false := by
  rw [Bool.eq_false_iff, ne_eq, ← frontWidth_pos_iff]
  omega

theorem headIs_append (hw : w ≠ []) : headIs p (w ++ rest) = headIs p w := by
  obtain ⟨c, w, rfl⟩ := List.exists_cons_of_ne_nil hw
  rfl

theorem headIs_drop_append (h : n < w.length) :
    headIs p ((w ++ rest).drop n) = headIs p (w.drop n) := by
  rw [List.drop_append_of_le_length (Nat.le_of_lt h), List.drop_eq_getElem_cons h]
  rfl

/-- What stands loosely goes on with nothing that was at its end before. -/
theorem headIs_drop_respaced (hl : Loosens rest rest') (hp : Inked p) (hn : n ≤ w.length)
    (h : headIs p ((w ++ rest).drop n) = false) : headIs p ((w ++ rest').drop n) = false := by
  rcases Nat.lt_or_eq_of_le hn with hn | rfl
  · rw [headIs_drop_append hn] at h ⊢
    exact h
  · rw [List.drop_left] at h ⊢
    exact hl.headIs hp h

theorem frontWidth_append : frontWidth p (w ++ rest) =
    if frontWidth p w = w.length then w.length + frontWidth p rest else frontWidth p w := by
  rw [frontWidth, List.takeWhile_append]
  unfold frontWidth
  split
  next => rw [List.length_append]
  next => rfl

/-- A run of characters that ended at its end before ends there. -/
theorem frontWidth_respaced (hl : Loosens rest rest') (hp : Inked p)
    (h : frontWidth p (w ++ rest) ≤ w.length) :
    frontWidth p (w ++ rest') = frontWidth p (w ++ rest) := by
  rw [frontWidth_append] at h ⊢
  rw [frontWidth_append]
  split
  next hw =>
    rw [if_pos hw] at h
    have hrest : frontWidth p rest = 0 := by omega
    rw [frontWidth_eq_zero_iff.mpr (hl.headIs hp (frontWidth_eq_zero_iff.mp hrest)), hrest]
  next => rfl

theorem frontWidth_drop_respaced (hl : Loosens rest rest') (hp : Inked p)
    (hn : n ≤ w.length) (h : n + frontWidth p ((w ++ rest).drop n) ≤ w.length) :
    frontWidth p ((w ++ rest').drop n) = frontWidth p ((w ++ rest).drop n) := by
  rw [List.drop_append_of_le_length hn] at h ⊢
  rw [List.drop_append_of_le_length hn]
  refine frontWidth_respaced hl hp ?_
  rw [List.length_drop]
  omega

theorem inked_isPoint : Inked (· = '.') := inked_of_points (by decide)

theorem mantissa_respaced (hl : Loosens rest rest') (hp : Inked p)
    (h : mantissa p (w ++ rest) ≤ w.length) : mantissa p (w ++ rest') = mantissa p (w ++ rest) := by
  unfold mantissa at h ⊢
  split at h
  next hd =>
    have hf : frontWidth p (w ++ rest') = frontWidth p (w ++ rest) :=
      frontWidth_respaced hl hp (by omega)
    rw [hf, if_pos hd, headIs_drop_append (by omega)]
    rw [headIs_drop_append (by omega)] at hd
    rw [if_pos hd, frontWidth_drop_respaced hl hp (by omega) h]
  next hd =>
    have hd' := headIs_drop_respaced hl inked_isPoint h (Bool.eq_false_iff.mpr hd)
    rw [frontWidth_respaced hl hp h, if_neg hd, if_neg (Bool.eq_false_iff.mp hd')]

theorem inked_isMark : Inked fun c => c = 'e' || c = 'E' := inked_of_points (by decide)

theorem inked_isSign : Inked fun c => c = '+' || c = '-' := inked_of_points (by decide)

theorem exponentMark_respaced (hl : Loosens rest rest') (hn : n ≤ w.length)
    (h : n + exponentMark ((w ++ rest).drop n) ≤ w.length) :
    exponentMark ((w ++ rest').drop n) = exponentMark ((w ++ rest).drop n) := by
  unfold exponentMark at h ⊢
  rw [List.drop_drop] at h ⊢
  rw [List.drop_drop]
  split at h
  next he =>
    have hlt : n < w.length := by split at h <;> omega
    rw [if_pos he, headIs_drop_append hlt]
    rw [headIs_drop_append hlt] at he
    rw [if_pos he]
    split at h
    next hs =>
      rw [if_pos hs, headIs_drop_append (by omega)]
      rw [headIs_drop_append (by omega)] at hs
      rw [if_pos hs]
    next hs =>
      have hs' := headIs_drop_respaced hl inked_isSign h (Bool.eq_false_iff.mpr hs)
      rw [if_neg hs, if_neg (Bool.eq_false_iff.mp hs')]
  next he =>
    have he' := headIs_drop_respaced hl inked_isMark hn (Bool.eq_false_iff.mpr he)
    rw [if_neg he, if_neg (Bool.eq_false_iff.mp he')]

theorem endNumber_eq_token {width : Nat} : endNumber width text = .token n k ↔
    width = n ∧ k = .number ∧ headIs isWordChar (text.drop n) = false := by
  unfold endNumber
  split
  next h =>
    refine ⟨fun he => (Reading.flaw_ne_token he).elim, ?_⟩
    rintro ⟨rfl, _, hn⟩
    rw [hn] at h
    cases h
  next h =>
    rw [Reading.token_inj]
    constructor
    · rintro ⟨rfl, rfl⟩
      exact ⟨rfl, rfl, Bool.eq_false_iff.mpr h⟩
    · rintro ⟨rfl, rfl, _⟩
      exact ⟨rfl, rfl⟩

theorem endNumber_respaced (hl : Loosens rest rest')
    (h : endNumber n (w ++ rest) = .token w.length k) :
    endNumber n (w ++ rest') = .token w.length k := by
  obtain ⟨rfl, rfl, hr⟩ := endNumber_eq_token.mp h
  exact endNumber_eq_token.mpr
    ⟨rfl, rfl, headIs_drop_respaced hl inked_isWordChar (Nat.le_refl _) hr⟩

theorem readPower_respaced (hl : Loosens rest rest')
    (h : readPower n (w ++ rest) = .token w.length k) :
    n < w.length ∧ readPower n (w ++ rest') = .token w.length k := by
  unfold readPower at h ⊢
  split at h
  next hd =>
    have hlen := (endNumber_eq_token.mp h).1
    have hpos := frontWidth_pos_iff.mpr hd
    have hn : n < w.length := by omega
    refine ⟨hn, ?_⟩
    have hf : frontWidth isDecimal ((w ++ rest').drop n) =
        frontWidth isDecimal ((w ++ rest).drop n) :=
      frontWidth_drop_respaced hl inked_isDecimal (by omega) (by omega)
    rw [headIs_drop_append hn] at hd
    rw [hf, headIs_drop_append hn, if_pos hd]
    exact endNumber_respaced hl h
  next => exact (Reading.flaw_ne_token h).elim

theorem readExponent_respaced (hl : Loosens rest rest')
    (h : readExponent n (w ++ rest) = .token w.length k) :
    n ≤ w.length ∧ readExponent n (w ++ rest') = .token w.length k := by
  unfold readExponent at h ⊢
  split at h
  next he =>
    have hn := Nat.le_of_eq (endNumber_eq_token.mp h).1
    have hm : exponentMark ((w ++ rest').drop n) = exponentMark ((w ++ rest).drop n) :=
      exponentMark_respaced hl hn (by omega)
    rw [hm, if_pos he]
    exact ⟨hn, endNumber_respaced hl h⟩
  next he =>
    obtain ⟨hn, h⟩ := readPower_respaced hl h
    have hm : exponentMark ((w ++ rest').drop n) = exponentMark ((w ++ rest).drop n) :=
      exponentMark_respaced hl (by omega) (by omega)
    rw [hm, if_neg he]
    exact ⟨by omega, h⟩

theorem isMarked_append (h : 2 ≤ w.length) : isMarked (w ++ rest) = isMarked w := by
  rw [isMarked_eq, isMarked_eq, headIs_drop_append (by omega)]
  have h0 : headIs (· = '0') ((w ++ rest).drop 0) = headIs (· = '0') (w.drop 0) :=
    headIs_drop_append (by omega)
  rw [List.drop_zero, List.drop_zero] at h0
  rw [h0]

theorem isMarked_respaced (hl : Loosens rest rest') (hw : w ≠ [])
    (h : isMarked (w ++ rest) = false) : isMarked (w ++ rest') = false := by
  match w with
  | [c] =>
    rw [isMarked_eq, Bool.and_eq_false_iff] at h ⊢
    exact h.imp_right (hl.headIs (inked_of_points (by decide)))
  | _ :: _ :: w =>
    rw [isMarked_append (by simp)] at h ⊢
    exact h

theorem mantissa_pos_of_headIs (h : headIs p text = true) : 0 < mantissa p text := by
  cases text with
  | nil => cases h
  | cons => exact mantissa_pos h

theorem inked_isHexadecimal : Inked isHexadecimal := inked_of_points (by decide)

theorem readNumber_respaced (hl : Loosens rest rest') (hw : w ≠ [])
    (h : readNumber (w ++ rest) = .token w.length k) :
    readNumber (w ++ rest') = .token w.length k := by
  unfold readNumber at h ⊢
  split at h
  next hm =>
    split at h
    next hd =>
      have hlen := (endNumber_eq_token.mp h).1
      rw [isMarked_append (by omega)] at hm
      have hpos : 2 < w.length := by
        have := mantissa_pos_of_headIs hd
        omega
      have hle : mantissa isHexadecimal (w.drop 2 ++ rest) ≤ (w.drop 2).length := by
        rw [List.length_drop, ← List.drop_append_of_le_length (by omega)]
        omega
      have hmantissa := mantissa_respaced hl inked_isHexadecimal hle
      rw [headIs_drop_append hpos] at hd
      rw [isMarked_append (by omega), if_pos hm, headIs_drop_append hpos, if_pos hd,
        List.drop_append_of_le_length (by omega), hmantissa,
        ← List.drop_append_of_le_length (by omega)]
      exact endNumber_respaced hl h
    next => exact (Reading.flaw_ne_token h).elim
  next hm =>
    have hm' := isMarked_respaced hl hw (Bool.eq_false_iff.mpr hm)
    obtain ⟨hn, h⟩ := readExponent_respaced hl h
    rw [if_neg (Bool.eq_false_iff.mp hm'), mantissa_respaced hl inked_isDecimal hn]
    exact h

theorem stringEnd_quote {quote : Char} :
    stringEnd quote (quote :: rest) = some 1 ↔ headIs (· = quote) rest = false := by
  cases rest with
  | nil => simp [stringEnd, headIs]
  | cons d rest =>
    by_cases hd : d = quote
    · simp [stringEnd, headIs, hd]
    · simp [stringEnd, headIs, hd]

theorem stringEnd_respaced {quote : Char} (hl : Loosens rest rest') (hq : isSpace quote = false)
    (h : stringEnd quote (w ++ rest) = some w.length) :
    stringEnd quote (w ++ rest') = some w.length := by
  induction w using stringEnd.induct quote with
  | case1 => exact (Nat.lt_irrefl 0 (stringEnd_bounds h).1).elim
  | case2 =>
    have hquote : Inked (· = quote) := fun c hc => decide_eq_false fun he => by
      rw [he, hq] at hc
      cases hc
    exact stringEnd_quote.mpr (hl.headIs hquote (stringEnd_quote.mp h))
  | case3 c hc =>
    cases rest with
    | nil => cases (if_neg hc).symm.trans h
    | cons d rest =>
      simp only [List.cons_append, List.nil_append, stringEnd, if_neg hc, List.length_cons,
        Option.map_eq_some_iff] at h
      obtain ⟨m, hm, hn⟩ := h
      have := (stringEnd_bounds hm).1
      simp at hn
      omega
  | case4 w ih =>
    simp only [List.cons_append, stringEnd, reduceIte, List.length_cons,
      Option.map_eq_some_iff] at h ⊢
    obtain ⟨m, hm, hn⟩ := h
    have hn : m = w.length := by omega
    exact ⟨w.length, ih (hn ▸ hm), rfl⟩
  | case5 d w hd =>
    simp [stringEnd, hd] at h
  | case6 c d w hc ih =>
    simp only [List.cons_append, stringEnd, if_neg hc, List.length_cons,
      Option.map_eq_some_iff] at h ⊢ ih
    obtain ⟨m, hm, hn⟩ := h
    have hn : m = w.length + 1 := by omega
    exact ⟨w.length + 1, ih (hn ▸ hm), rfl⟩

theorem readString_respaced {quote : Char} (hl : Loosens rest rest') (hq : isSpace quote = false)
    (h : readString quote (w ++ rest) = .token (w.length + 1) k) :
    readString quote (w ++ rest') = .token (w.length + 1) k := by
  unfold readString at h ⊢
  split at h
  next width hw =>
    obtain ⟨hlen, rfl⟩ := Reading.token_inj.mp h
    obtain rfl : width = w.length := by omega
    rw [stringEnd_respaced hl hq hw]
    exact h
  next => exact (Reading.flaw_ne_token h).elim

theorem readBacktick_respaced (h : readBacktick (w ++ rest) = .token (w.length + 1) k) :
    readBacktick (w ++ rest') = .token (w.length + 1) k := by
  unfold readBacktick at h ⊢
  split at h
  next hm =>
    obtain ⟨hlen, rfl⟩ := Reading.token_inj.mp h
    have hlt : frontWidth (· ≠ '\x60') w < w.length := by
      rw [frontWidth_append] at hlen
      split at hlen <;> omega
    have hmem : '\x60' ∈ w := by
      obtain ⟨c, hc, hp⟩ := frontWidth_lt_iff.mp hlt
      have hp : c = '\x60' := by simpa using hp
      exact hp ▸ hc
    rw [if_pos (List.mem_append_left rest' hmem), frontWidth_append, if_neg (by omega)]
    rw [frontWidth_append, if_neg (by omega)] at h
    exact h
  next => exact (Reading.flaw_ne_token h).elim

theorem beginsWith_append {v : List Char} (h : v.length ≤ w.length) :
    beginsWith v (w ++ rest) = beginsWith v w := by
  induction v generalizing w with
  | nil => rfl
  | cons a v ih =>
    cases w with
    | nil => cases h
    | cons c w =>
      simp only [List.cons_append, beginsWith, ih (Nat.le_of_succ_le_succ h)]

/-- What has no white space in it and ends in what stands loosely, began the text before. -/
theorem beginsWith_respaced {v : List Char} (hl : Loosens rest rest')
    (hv : ∀ a ∈ v, isSpace a = false) (hlen : v.length ≤ w.length + 1)
    (h : beginsWith v (w ++ rest') = true) : beginsWith v (w ++ rest) = true := by
  induction v generalizing w with
  | nil => rfl
  | cons a v ih =>
    cases w with
    | nil =>
      obtain rfl : v = [] := List.length_eq_zero_iff.mp (by simpa using hlen)
      cases rest' with
      | nil => cases h
      | cons c rest' =>
        have hsame : sameLetter a c = true := (Bool.and_eq_true_iff.mp h).1
        rcases hl c rfl with hc | hc
        · have ha := hv a List.mem_cons_self
          rw [← isSpace_caseBlind a, beq_iff_eq.mp hsame, isSpace_caseBlind c, hc] at ha
          cases ha
        · obtain ⟨_, rfl⟩ := List.head?_eq_some_iff.mp hc
          exact Bool.and_eq_true_iff.mpr ⟨hsame, rfl⟩
    | cons c w =>
      rw [List.cons_append, beginsWith, Bool.and_eq_true] at h ⊢
      exact ⟨h.1, ih (fun b hb => hv b (List.mem_cons_of_mem a hb)) (Nat.le_of_succ_le_succ hlen) h.2⟩

theorem findSymbol_respaced {words : List (String × TokenKind)} (hl : Loosens rest rest')
    (hw : w ≠ []) (hwords : ∀ v ∈ words, v.1.toList.length ≤ 2 ∧ ∀ a ∈ v.1.toList, isSpace a = false)
    (h : words.findSome? (matchWord (fun _ => true) (w ++ rest)) = some ⟨w.length, k⟩) :
    words.findSome? (matchWord (fun _ => true) (w ++ rest')) = some ⟨w.length, k⟩ := by
  have hmatch {v : String × TokenKind} {text : List Char} : matchWord (fun _ => true) text v =
      if beginsWith v.1.toList text = true then some ⟨v.1.length, v.2⟩ else none := by
    rw [matchWord, Bool.and_true]
  have hpos := List.length_pos_iff.mpr hw
  induction words with
  | nil => cases h
  | cons v words ih =>
    rw [List.findSome?_cons, hmatch] at h ⊢
    split at h
    next m hm =>
      cases Option.some.inj h
      split at hm
      next hv =>
        obtain ⟨hlen, rfl⟩ : v.1.length = w.length ∧ v.2 = k := by simpa using hm
        have hlen : v.1.toList.length ≤ w.length := by
          rw [String.length_toList]
          omega
        rw [beginsWith_append hlen] at hv ⊢
        rw [if_pos hv, hm]
      next => cases hm
    next hm =>
      split at hm
      next => cases hm
      next hv =>
        obtain ⟨hlen, hink⟩ := hwords v List.mem_cons_self
        rw [if_neg fun hv' => hv (beginsWith_respaced hl hink (by omega) hv')]
        exact ih (fun u hu => hwords u (List.mem_cons_of_mem v hu)) h

theorem symbols_inked :
    ∀ v ∈ symbols, v.1.toList.length ≤ 2 ∧ ∀ a ∈ v.1.toList, isSpace a = false := by
  have h : ∀ v ∈ symbols, v.1.toList.length ≤ 2 ∧ v.1.toList.any isSpace = false := by decide
  exact fun v hv => (h v hv).imp_right fun ha a hm => by simpa using List.any_eq_false.mp ha a hm

theorem readSymbol_respaced {c : Char} (hl : Loosens rest rest')
    (h : readSymbol c (w ++ rest) = .token (w.length + 1) k) :
    readSymbol c (w ++ rest') = .token (w.length + 1) k := by
  unfold readSymbol at h ⊢
  split at h
  next m hm =>
    obtain ⟨rfl, _⟩ := Reading.fixed_eq_token.mp h
    have hm' : symbol? (c :: w ++ rest') = some ⟨(c :: w).length, k⟩ :=
      findSymbol_respaced hl (List.cons_ne_nil c w) symbols_inked hm
    rw [List.cons_append] at hm'
    rw [hm']
    exact Reading.fixed_eq_token.mpr ⟨rfl, by simp⟩
  next => exact (Reading.flaw_ne_token h).elim

theorem inked_isAlphabetic : Inked isAlphabetic := fun c hc => by
  have hw := isWordChar_of_isSpace hc
  simp only [isWordChar, Bool.or_eq_false_iff] at hw
  exact hw.1.1

/-- Whether a colon opens a parameter is told by the character after it. -/
theorem readParameter_respaced (hl : Loosens rest rest') :
    (headIs isAlphabetic (w ++ rest') = true → headIs isAlphabetic (w ++ rest) = true) ∧
      (headIs isAlphabetic (w ++ rest) = true → frontWidth isWordChar (w ++ rest) ≤ w.length →
        headIs isAlphabetic (w ++ rest') = true) := by
  cases w with
  | nil =>
    refine ⟨fun h => ?_, fun h hle => ?_⟩
    · refine Classical.byContradiction fun hn => ?_
      rw [List.nil_append, hl.headIs inked_isAlphabetic (Bool.eq_false_iff.mpr hn)] at h
      cases h
    · have hw : headIs isWordChar rest = true := by
        cases rest with
        | nil => cases h
        | cons c rest =>
          have hc : isAlphabetic c = true := h
          simp [headIs, isWordChar, hc]
      have := frontWidth_pos_iff.mpr hw
      simp at hle
      omega
  | cons c w => exact ⟨id, fun h _ => h⟩

theorem readFrom_respaced {c : Char} (hl : Loosens rest rest')
    (h : readFrom c (w ++ rest) = .token (w.length + 1) k) :
    readFrom c (w ++ rest') = .token (w.length + 1) k := by
  have hparameter : (headIs isAlphabetic (w ++ rest') = true →
      headIs isAlphabetic (w ++ rest) = true) ∧ _ := readParameter_respaced hl
  unfold readFrom at h ⊢
  split at h
  next hc =>
    obtain ⟨hcolon, ha⟩ := (Bool.and_eq_true _ _).mp hc
    obtain ⟨hlen, rfl⟩ := Reading.token_inj.mp h
    have hle : frontWidth isWordChar (w ++ rest) ≤ w.length := by omega
    rw [hcolon, hparameter.2 ha hle, frontWidth_respaced hl inked_isWordChar hle]
    exact h
  next hc =>
    have hc' : ¬(decide (c = ':') && headIs isAlphabetic (w ++ rest')) = true := by
      intro hc'
      obtain ⟨hcolon, ha⟩ := (Bool.and_eq_true _ _).mp hc'
      exact hc ((Bool.and_eq_true _ _).mpr ⟨hcolon, hparameter.1 ha⟩)
    rw [if_neg hc']
    revert h
    split
    next => exact readNumber_respaced hl (List.cons_ne_nil c w)
    split
    next hq =>
      refine readString_respaced hl ?_
      have hq : c = '\'' ∨ c = '"' := by simpa using hq
      rcases hq with rfl | rfl <;> rfl
    split
    next => exact readBacktick_respaced
    split
    next =>
      intro h
      obtain ⟨hlen, rfl⟩ := Reading.token_inj.mp h
      have hle : frontWidth isWordChar (c :: w ++ rest) ≤ (c :: w).length := Nat.le_of_eq hlen
      refine Reading.token_inj.mpr ⟨?_, rfl⟩
      exact (frontWidth_respaced hl inked_isWordChar hle).trans hlen
    next => exact readSymbol_respaced hl

end

end SqlSelect
