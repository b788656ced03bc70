import SqlSelect.Proofs.LeadingWords

namespace SqlSelect

section

variable {c : Char} {p digit : Char → Bool} {rest : List Char}

theorem isDecimal_iff : isDecimal c = true ↔ 48 ≤ c.toNat ∧ c.toNat ≤ 57 := by
  simp [isDecimal, Char.isDigit, UInt32.le_iff_toNat_le]

theorem isHexadecimal_iff : isHexadecimal c = true ↔
    48 ≤ c.toNat ∧ c.toNat ≤ 57 ∨ 97 ≤ c.toNat ∧ c.toNat ≤ 102 ∨ 65 ≤ c.toNat ∧ c.toNat ≤ 70 := by
  simp only [isHexadecimal, Char.isDigit, Bool.or_eq_true, Bool.and_eq_true, decide_eq_true_eq,
    Char.le_def, UInt32.le_iff_toNat_le, ge_iff_le, or_assoc]
  rfl

theorem frontWidth_of_headIs (h : headIs p rest = true) :
    frontWidth p rest = 1 + frontWidth p (rest.drop 1) := by
  obtain ⟨c, rest, rfl, hc⟩ := eq_cons_of_headIs h
  rw [frontWidth, List.takeWhile_cons_of_pos hc, List.length_cons, Nat.add_comm]
  rfl

theorem mantissa_of_headIs (h : headIs digit rest = true) :
    mantissa digit rest = 1 + mantissa digit (rest.drop 1) := by
  simp only [mantissa, frontWidth_of_headIs h, List.drop_drop, Nat.add_assoc]
  split
  next => rfl
  next => rfl

/-- The digits at the front of a text end where none comes next, and so do those after a point. -/
theorem headIs_drop_mantissa (digit : Char → Bool) (rest : List Char) :
    headIs digit (rest.drop (mantissa digit rest)) = false := by
  unfold mantissa
  split
  next =>
    rw [← List.drop_drop, drop_frontWidth]
    exact headIs_dropWhile digit _
  next =>
    rw [drop_frontWidth]
    exact headIs_dropWhile digit rest

/-- A hexadecimal number has no exponent, since its digits go on where one would begin. -/
theorem readExponent_hexadecimal (n : Nat) (rest : List Char) :
    readExponent (n + mantissa isHexadecimal (rest.drop n)) rest =
      endNumber (n + mantissa isHexadecimal (rest.drop n)) rest := by
  have hdigit := headIs_drop_mantissa isHexadecimal (rest.drop n)
  rw [List.drop_drop] at hdigit
  have hletter : ¬headIs (fun c => c = 'e' || c = 'E')
      (rest.drop (n + mantissa isHexadecimal (rest.drop n))) = true := by
    intro h
    obtain ⟨c, more, he, hc⟩ := eq_cons_of_headIs h
    have hc : c = 'e' ∨ c = 'E' := by simpa using hc
    rw [he] at hdigit
    rcases hc with rfl | rfl
    · cases hdigit
    · cases hdigit
  rw [readExponent, exponentMark, if_neg hletter, if_pos rfl]

end

namespace Cursor

theorem among_iff {characters : String} {c : Char} :
    among characters c = true ↔ c.toNat ∈ characters.toList.map Char.toNat := by
  rw [among, List.contains_iff_mem, List.mem_map]
  constructor
  · exact fun h => ⟨c, h, rfl⟩
  · rintro ⟨d, hd, he⟩
    exact Char.toNat_inj.mp he ▸ hd

theorem among_one {characters : String} {a : Char} (h : characters.toList = [a]) :
    among characters = fun c => decide (c = a) := by
  funext c
  simp [among, h]

theorem among_two {characters : String} {a b : Char} (h : characters.toList = [a, b]) :
    among characters = fun c => c = a || c = b := by
  funext c
  simp [among, h]

theorem among_decimalDigits : among decimalDigits = isDecimal := by
  funext c
  have hpoints : decimalDigits.toList.map Char.toNat = List.range' 48 10 := by decide
  rw [Bool.eq_iff_iff, among_iff, hpoints, isDecimal_iff, List.mem_range'_1]
  omega

theorem among_hexadecimalDigits : among hexadecimalDigits = isHexadecimal := by
  funext c
  have hpoints : hexadecimalDigits.toList.map Char.toNat =
    List.range' 48 10 ++ (List.range' 97 6 ++ List.range' 65 6) := by decide
  rw [Bool.eq_iff_iff, among_iff, hpoints, isHexadecimal_iff]
  simp only [List.mem_append, List.mem_range'_1]
  omega

namespace Leads

variable {text : String} {lx : Lexer} {n : Nat} {p digit : Char → Bool} {digits : String}

theorem nextChar_more (text : String) (lx : Lexer) (n : Nat) :
    Leads text Cursor.nextChar (lx.advance n) ((lx.rest.drop n).head?, lx.advance (n + 1)) := by
  rw [← Lexer.advance_advance]
  exact nextChar text (lx.advance n)

theorem accept_more (hp : headIs p (lx.rest.drop n) = true) :
    Leads text (accept p) (lx.advance n) (true, lx.advance (n + 1)) := by
  rw [← Lexer.advance_advance]
  exact accept_true hp

theorem acceptWhile_more (text : String) (lx : Lexer) (n : Nat) (p : Char → Bool) :
    Leads text (Cursor.acceptWhile p) (lx.advance n)
      ((), lx.advance (n + frontWidth p (lx.rest.drop n))) := by
  rw [← Lexer.advance_advance]
  exact acceptWhile text (lx.advance n) p

theorem malformedNumber (text : String) (lx : Lexer) :
    Leads text malformedNumber lx (lx.report .number) :=
  (pending text lx).bind (report fun _ => rfl)

theorem endNumber (text : String) (lx : Lexer) (n : Nat) :
    Leads text endNumber (lx.advance n) (lx.follow (SqlSelect.endNumber n lx.rest)) := by
  refine (peek text (lx.advance n)).bind ?_
  unfold SqlSelect.endNumber
  by_cases hw : headIs isWordChar (lx.rest.drop n) = true
  · have hany : (lx.advance n).rest.head?.any isWordChar = true := hw
    rw [if_pos hw, if_pos hany]
    exact (nextChar_more text lx n).bind (malformedNumber text (lx.advance (n + 1)))
  · have hany : ¬(lx.advance n).rest.head?.any isWordChar = true := hw
    rw [if_neg hw, if_neg hany]
    exact emit text (lx.advance n) .number

/-- The sign of an exponent, if there is one. -/
theorem sign (text : String) (lx : Lexer) (n : Nat) : ∃ b,
    Leads text (accept (among "+-")) (lx.advance n) (b, lx.advance
      (n + if headIs (fun c => c = '+' || c = '-') (lx.rest.drop n) then 1 else 0)) := by
  have hsign : among "+-" = fun c => c = '+' || c = '-' := among_two (by decide)
  rw [hsign]
  split
  next hs => exact ⟨true, accept_more hs⟩
  next hs => exact ⟨false, accept_false (Bool.eq_false_iff.mpr hs)⟩

theorem lexExponent (text : String) (lx : Lexer) (n : Nat) :
    Leads text lexExponent (lx.advance n) (lx.follow (readPower
      (n + if headIs (fun c => c = '+' || c = '-') (lx.rest.drop n) then 1 else 0) lx.rest)) := by
  obtain ⟨b, hsign⟩ := sign text lx n
  refine hsign.bind ?_
  generalize (n + if headIs (fun c => c = '+' || c = '-') (lx.rest.drop n) then 1 else 0) = m
  unfold readPower
  rw [among_decimalDigits]
  by_cases hd : headIs isDecimal (lx.rest.drop m) = true
  · have hwidth := frontWidth_of_headIs hd
    rw [List.drop_drop] at hwidth
    rw [if_pos hd, hwidth, ← Nat.add_assoc]
    exact (accept_more hd).bind ((acceptWhile_more text lx (m + 1) isDecimal).bind
      (endNumber text lx _))
  · rw [if_neg hd]
    exact (accept_false (Bool.eq_false_iff.mpr hd)).bind (malformedNumber text (lx.advance m))

theorem lexFraction (hd : among digits = digit) (text : String) (lx : Lexer) (n : Nat) :
    Leads text (lexFraction digits) (lx.advance n)
      ((), lx.advance (n + if headIs (· = '.') (lx.rest.drop n) then
        1 + frontWidth digit (lx.rest.drop (n + 1)) else 0)) := by
  have hpoint : among "." = fun c => decide (c = '.') := among_one (by decide)
  unfold Cursor.lexFraction
  rw [hpoint, hd]
  split
  next hp =>
    rw [← Nat.add_assoc]
    exact (accept_more hp).bind (acceptWhile_more text lx (n + 1) digit)
  next hp => exact (accept_false (Bool.eq_false_iff.mpr hp)).bind (pure ())

theorem lexDigits (hd : among digits = digit) (text : String) (lx : Lexer) (n : Nat) :
    Leads text (lexDigits digits) (lx.advance n)
      (lx.follow (readExponent (n + mantissa digit (lx.rest.drop n)) lx.rest)) := by
  have hletter : among "eE" = fun c => c = 'e' || c = 'E' := among_two (by decide)
  have hwidth : n + mantissa digit (lx.rest.drop n) = n + frontWidth digit (lx.rest.drop n) +
      if headIs (· = '.') (lx.rest.drop (n + frontWidth digit (lx.rest.drop n))) then
        1 + frontWidth digit (lx.rest.drop (n + frontWidth digit (lx.rest.drop n) + 1)) else 0 := by
    simp only [mantissa, List.drop_drop, Nat.add_assoc]
    split
    next => rfl
    next => rfl
  unfold Cursor.lexDigits
  rw [hletter, hd]
  refine (acceptWhile_more text lx n digit).bind ((lexFraction hd text lx _).bind ?_)
  rw [← hwidth]
  generalize n + mantissa digit (lx.rest.drop n) = m
  unfold readExponent exponentMark
  by_cases he : headIs (fun c => c = 'e' || c = 'E') (lx.rest.drop m) = true
  · have hpower := lexExponent text lx (m + 1)
    rw [Nat.add_assoc] at hpower
    rw [if_pos he, List.drop_drop]
    refine (accept_more he).bind ?_
    split at hpower
    next hs =>
      rw [if_pos hs]
      exact hpower
    next hs =>
      rw [if_neg hs]
      exact hpower
  · rw [if_neg he, if_pos rfl]
    exact (accept_false (Bool.eq_false_iff.mpr he)).bind (endNumber text lx m)

/-- Whether the mark of a hexadecimal number comes next. Where it does not a zero has been taken all
the same. -/
theorem mark (text : String) (lx : Lexer) :
    Leads text (accept (among "0") <&&> accept (among "xX")) lx (isMarked lx.rest,
      lx.advance (if isMarked lx.rest then 2 else if headIs (· = '0') lx.rest then 1 else 0)) := by
  have hzero : among "0" = fun c => decide (c = '0') := among_one (by decide)
  have hletter : among "xX" = fun c => c = 'x' || c = 'X' := among_two (by decide)
  rw [hzero, hletter, isMarked_eq]
  by_cases hz : headIs (· = '0') lx.rest = true
  · refine (accept_true hz).bind ?_
    rw [hz]
    by_cases hx : headIs (fun c => c = 'x' || c = 'X') (lx.rest.drop 1) = true
    · rw [hx]
      exact accept_more hx
    · rw [Bool.eq_false_iff.mpr hx]
      exact accept_false (Bool.eq_false_iff.mpr hx)
  · rw [Bool.eq_false_iff.mpr hz]
    refine (accept_false (Bool.eq_false_iff.mpr hz)).bind ?_
    rw [Bool.false_and, if_neg Bool.false_ne_true, if_neg Bool.false_ne_true, Lexer.advance_zero]
    exact pure false

theorem lexNumber (text : String) (lx : Lexer) :
    Leads text lexNumber lx (lx.follow (readNumber lx.rest)) := by
  refine (mark text lx).bind ?_
  unfold readNumber
  cases hm : isMarked lx.rest with
  | true =>
    simp only [if_true]
    rw [among_hexadecimalDigits]
    by_cases hd : headIs isHexadecimal (lx.rest.drop 2) = true
    · have hdigits := lexDigits among_hexadecimalDigits text lx 3
      rw [readExponent_hexadecimal] at hdigits
      rw [if_pos hd, mantissa_of_headIs hd, List.drop_drop, ← Nat.add_assoc]
      exact (accept_more hd).bind hdigits
    · rw [if_neg hd]
      exact (accept_false (Bool.eq_false_iff.mpr hd)).bind (malformedNumber text (lx.advance 2))
  | false =>
    have hdigits := lexDigits among_decimalDigits text lx
      (if headIs (· = '0') lx.rest then 1 else 0)
    have hwidth : (if headIs (· = '0') lx.rest then 1 else 0) +
        mantissa isDecimal (lx.rest.drop (if headIs (· = '0') lx.rest then 1 else 0)) =
          mantissa isDecimal lx.rest := by
      by_cases hz : headIs (· = '0') lx.rest = true
      · obtain ⟨c, rest, hr, hc⟩ := eq_cons_of_headIs hz
        obtain rfl := of_decide_eq_true hc
        have hdigit : headIs isDecimal ('0' :: rest) = true := rfl
        rw [if_pos hz, hr, mantissa_of_headIs hdigit]
      · rw [if_neg hz, Nat.zero_add, List.drop_zero]
    rw [hwidth] at hdigits
    exact hdigits

end Leads

end Cursor

end SqlSelect
