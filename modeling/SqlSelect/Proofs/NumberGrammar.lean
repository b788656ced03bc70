import SqlSelect.Proofs.Beginning

namespace SqlSelect

/-- One such character at least, and no other. -/
def Run (p : Char → Bool) (w : List Char) : Prop := w ≠ [] ∧ ∀ c ∈ w, p c = true

/-- Digits, which may have a point after them and more digits after that. -/
inductive IsMantissa (digit : Char → Bool) : List Char → Prop
  | whole {w} : Run digit w → IsMantissa digit w
  | pointed {w f} : Run digit w → (∀ c ∈ f, digit c = true) → IsMantissa digit (w ++ '.' :: f)

/-- The letter of an exponent and its sign, if it has one. -/
def IsMark (mark : List Char) : Prop := ∃ e sign, (e = 'e' ∨ e = 'E') ∧
  (sign = [] ∨ sign = ['+'] ∨ sign = ['-']) ∧ mark = e :: sign

/-- The number literals. Only decimal ones have an exponent. -/
inductive IsNumeral : List Char → Prop
  | hexadecimal {x m} : x = 'x' ∨ x = 'X' → IsMantissa isHexadecimal m → IsNumeral ('0' :: x :: m)
  | decimal {m} : IsMantissa isDecimal m → IsNumeral m
  | power {m mark w} : IsMantissa isDecimal m → IsMark mark → Run isDecimal w →
      IsNumeral (m ++ (mark ++ w))

/-- The width of an exponent and its digits, zero where it has none. -/
def powerWidth (text : List Char) : Nat :=
  if exponentMark text ≠ 0 ∧ headIs isDecimal (text.drop (exponentMark text)) = true then
    exponentMark text + frontWidth isDecimal (text.drop (exponentMark text))
  else 0

/-- The width of the longest number literal at the front of a text that begins with a digit. -/
def numeralWidth (text : List Char) : Nat :=
  if isMarked text = true ∧ headIs isHexadecimal (text.drop 2) = true then
    2 + mantissa isHexadecimal (text.drop 2)
  else mantissa isDecimal text + powerWidth (text.drop (mantissa isDecimal text))

section

variable {w m rest text : List Char} {p digit : Char → Bool}

theorem eq_cons_of_headIs (h : headIs p text = true) : ∃ c rest, text = c :: rest ∧ p c = true := by
  cases text with
  | nil => cases h
  | cons c rest => exact ⟨c, rest, rfl, h⟩

theorem Run.headIs (h : Run p w) : headIs p (w ++ rest) = true := by
  obtain ⟨c, w, rfl⟩ := List.exists_cons_of_ne_nil h.1
  exact h.2 c List.mem_cons_self

theorem take_frontWidth (p : Char → Bool) (text : List Char) :
    text.take (frontWidth p text) = text.takeWhile p :=
  (List.prefix_iff_eq_take.mp (List.takeWhile_prefix p)).symm

theorem mem_take_frontWidth {c : Char} (hc : c ∈ text.take (frontWidth p text)) : p c = true := by
  rw [take_frontWidth] at hc
  exact List.all_eq_true.mp List.all_takeWhile c hc

theorem run_take_frontWidth (h : SqlSelect.headIs p text = true) :
    Run p (text.take (frontWidth p text)) := by
  refine ⟨?_, fun c => mem_take_frontWidth⟩
  rw [take_frontWidth]
  exact List.length_pos_iff.mp (frontWidth_pos_iff.mpr h)

theorem le_frontWidth (hw : ∀ c ∈ w, p c = true) (rest : List Char) :
    w.length ≤ frontWidth p (w ++ rest) := by
  rw [frontWidth, List.takeWhile_append_of_pos hw, List.length_append]
  omega

theorem frontWidth_eq (hw : ∀ c ∈ w, p c = true) (hr : SqlSelect.headIs p rest = false) :
    frontWidth p (w ++ rest) = w.length := by rw [frontWidth, takeWhile_append hw hr]

theorem isMantissa_take (h : headIs digit text = true) :
    IsMantissa digit (text.take (mantissa digit text)) := by
  have hrun := run_take_frontWidth h
  unfold mantissa
  split
  next hp =>
    obtain ⟨c, rest, hr, hc⟩ := eq_cons_of_headIs hp
    obtain rfl := of_decide_eq_true hc
    rw [List.take_add, List.take_add, ← List.drop_drop, hr, List.append_assoc]
    exact .pointed hrun fun c => mem_take_frontWidth
  next => exact .whole hrun

theorem mantissa_pointed {f : List Char} (hw : Run digit w) (hp : digit '.' = false) :
    mantissa digit (w ++ '.' :: f) = w.length + 1 + frontWidth digit f := by
  have hwidth : frontWidth digit (w ++ '.' :: f) = w.length := frontWidth_eq hw.2 hp
  rw [mantissa, hwidth, List.drop_left, if_pos (show headIs (· = '.') ('.' :: f) = true from rfl),
    ← List.drop_drop, List.drop_left]
  rfl

theorem IsMantissa.headIs (h : IsMantissa digit m) : headIs digit (m ++ rest) = true := by
  cases h with
  | whole hw => exact hw.headIs
  | pointed hw hf =>
    rw [List.append_assoc]
    exact hw.headIs

/-- No mantissa at the front of a text is longer than the digits and the point there. -/
theorem IsMantissa.length_le (h : IsMantissa digit m) (hp : digit '.' = false)
    (rest : List Char) :
    m.length ≤ mantissa digit (m ++ rest) := by
  cases h with
  | whole hw =>
    have hle := le_frontWidth hw.2 rest
    unfold mantissa
    split <;> omega
  | @pointed w f hw hf =>
    have hle := le_frontWidth hf rest
    rw [List.append_assoc, List.cons_append, mantissa_pointed hw hp, List.length_append,
      List.length_cons]
    omega

theorem IsMantissa.mantissa_eq (h : IsMantissa digit m) (hp : digit '.' = false)
    (hr : SqlSelect.headIs digit rest = false) (hr' : SqlSelect.headIs (· = '.') rest = false) :
    mantissa digit (m ++ rest) = m.length := by
  cases h with
  | whole hw =>
    rw [mantissa, frontWidth_eq hw.2 hr, List.drop_left, hr', if_neg Bool.false_ne_true]
  | @pointed w f hw hf =>
    rw [List.append_assoc, List.cons_append, mantissa_pointed hw hp, frontWidth_eq hf hr,
      List.length_append, List.length_cons]
    omega

theorem IsMark.headIs {mark : List Char} {b : Bool} (h : IsMark mark) (he : p 'e' = b)
    (he' : p 'E' = b) : headIs p (mark ++ rest) = b := by
  obtain ⟨e, sign, rfl | rfl, _, rfl⟩ := h
  · exact he
  · exact he'

theorem isMark_take (h : exponentMark text ≠ 0) : IsMark (text.take (exponentMark text)) := by
  unfold exponentMark at h ⊢
  split at h
  next he =>
    obtain ⟨e, rest, rfl, he'⟩ := eq_cons_of_headIs he
    rw [if_pos he]
    have he' : e = 'e' ∨ e = 'E' := by simpa using he'
    split
    next hs =>
      have hs : SqlSelect.headIs (fun c => c = '+' || c = '-') rest = true := hs
      obtain ⟨s, rest, rfl, hs'⟩ := eq_cons_of_headIs hs
      have hs' : s = '+' ∨ s = '-' := by simpa using hs'
      exact ⟨e, [s], he', .inr (by simpa using hs'), rfl⟩
    next => exact ⟨e, [], he', .inl rfl, rfl⟩
  next => exact (h rfl).elim

theorem IsMark.exponentMark_eq {mark : List Char} (h : IsMark mark) (hw : Run isDecimal w) :
    exponentMark (mark ++ (w ++ rest)) = mark.length := by
  obtain ⟨e, sign, he, hs, rfl⟩ := h
  have hmark : SqlSelect.headIs (fun c => c = 'e' || c = 'E') (e :: (sign ++ (w ++ rest))) = true := by
    simpa [SqlSelect.headIs] using he
  rw [List.cons_append, exponentMark, if_pos hmark]
  rcases hs with rfl | rfl | rfl
  · obtain ⟨c, w, rfl⟩ := List.exists_cons_of_ne_nil hw.1
    have hc := hw.2 c List.mem_cons_self
    have hplus : c ≠ '+' := by
      rintro rfl
      cases hc
    have hminus : c ≠ '-' := by
      rintro rfl
      cases hc
    refine if_neg fun hs => ?_
    have hs : (decide (c = '+') || decide (c = '-')) = true := hs
    simp [hplus, hminus] at hs
  · rfl
  · rfl

theorem eq_cons_of_isMarked (h : isMarked text = true) :
    ∃ x rest, (x = 'x' ∨ x = 'X') ∧ text = '0' :: x :: rest := by
  unfold isMarked at h
  split at h
  next rest => exact ⟨_, rest, .inl rfl, rfl⟩
  next rest => exact ⟨_, rest, .inr rfl, rfl⟩
  next => cases h

theorem IsMark.powerWidth_eq {mark : List Char} (h : IsMark mark) (hw : Run isDecimal w)
    (rest : List Char) :
    powerWidth (mark ++ (w ++ rest)) = mark.length + frontWidth isDecimal (w ++ rest) := by
  have hne : mark.length ≠ 0 := by
    obtain ⟨e, sign, _, _, rfl⟩ := h
    exact Nat.succ_ne_zero _
  rw [powerWidth, h.exponentMark_eq hw, List.drop_left, if_pos ⟨hne, hw.headIs⟩]

/-- The mark of a hexadecimal number is a decimal number too, of one digit. -/
theorem mantissa_of_isMarked (h : isMarked text = true) :
    mantissa isDecimal text = 1 ∧ powerWidth (text.drop 1) = 0 ∧
      headIs isWordChar (text.drop 1) = true := by
  obtain ⟨x, rest, rfl | rfl, rfl⟩ := eq_cons_of_isMarked h
  · exact ⟨rfl, rfl, show isWordChar 'x' = true by decide⟩
  · exact ⟨rfl, rfl, show isWordChar 'X' = true by decide⟩

/-- What the width is of is a number literal. -/
theorem isNumeral_take (h : headIs isDecimal text = true) :
    IsNumeral (text.take (numeralWidth text)) := by
  have hm := isMantissa_take h
  unfold numeralWidth
  split
  next hx =>
    obtain ⟨x, rest, hx', rfl⟩ := eq_cons_of_isMarked hx.1
    rw [List.take_add]
    exact .hexadecimal hx' (isMantissa_take hx.2)
  unfold powerWidth
  split
  next hp =>
    rw [List.take_add, List.take_add]
    exact .power hm (isMark_take hp.1) (run_take_frontWidth hp.2)
  next => exact .decimal hm

theorem mantissa_le_numeralWidth (text : List Char) :
    mantissa isDecimal text ≤ numeralWidth text := by
  unfold numeralWidth
  split
  next hx =>
    have := (mantissa_of_isMarked hx.1).1
    omega
  next => omega

/-- No number literal at the front of a text is wider. -/
theorem IsNumeral.length_le (h : IsNumeral m) (rest : List Char) :
    m.length ≤ numeralWidth (m ++ rest) := by
  cases h with
  | @hexadecimal x m hx hm =>
    have hmarked : isMarked ('0' :: x :: m ++ rest) = true := by
      rcases hx with rfl | rfl <;> rfl
    have hle := hm.length_le (by decide) rest
    rw [numeralWidth, if_pos ⟨hmarked, hm.headIs⟩]
    simp only [List.length_cons, List.cons_append, List.drop_succ_cons, List.drop_zero]
    omega
  | decimal hm =>
    have hle := hm.length_le (by decide) rest
    have := mantissa_le_numeralWidth (m ++ rest)
    omega
  | @power m mark w hm hmark hw =>
    have hle := le_frontWidth hw.2 rest
    have hdigit : headIs isDecimal (mark ++ (w ++ rest)) = false := hmark.headIs (by decide) (by decide)
    have hpoint : headIs (· = '.') (mark ++ (w ++ rest)) = false := hmark.headIs (by decide) (by decide)
    have hmantissa := hm.mantissa_eq (by decide) hdigit hpoint
    have hpower := hmark.powerWidth_eq hw rest
    have hmarked : ¬isMarked (m ++ (mark ++ (w ++ rest))) = true := by
      intro hmarked
      obtain ⟨hone, hzero, _⟩ := mantissa_of_isMarked hmarked
      rw [← hone, hmantissa, List.drop_left, hpower] at hzero
      have := List.length_pos_iff.mpr hw.1
      omega
    rw [List.append_assoc, List.append_assoc, numeralWidth, if_neg fun h => hmarked h.1, hmantissa,
      List.drop_left, hpower, List.length_append, List.length_append]
    omega

/-- A number is read to the end of the longest literal, and is malformed just if a word goes on
there. -/
theorem readNumber_eq (text : List Char) : readNumber text = endNumber (numeralWidth text) text ∨
    headIs isWordChar (text.drop (numeralWidth text)) = true ∧
      ∃ n, readNumber text = .flaw n .number := by
  unfold readNumber numeralWidth
  split
  next hmarked =>
    split
    next hd => exact .inl (by rw [if_pos ⟨hmarked, hd⟩])
    next hd =>
      obtain ⟨hone, hzero, hword⟩ := mantissa_of_isMarked hmarked
      rw [if_neg fun h => hd h.2, hone, hzero]
      exact .inr ⟨hword, _, rfl⟩
  next hmarked =>
    rw [if_neg fun h => hmarked h.1]
    unfold readExponent powerWidth
    split
    next hzero => exact .inl (by rw [if_neg fun h => h.1 hzero]; rfl)
    next hmark =>
      unfold readPower
      rw [← List.drop_drop]
      split
      next hd => exact .inl (by rw [if_pos ⟨hmark, hd⟩, Nat.add_assoc])
      next hd =>
        rw [if_neg fun h => hd h.2]
        refine .inr ⟨?_, _, rfl⟩
        rw [Nat.add_zero, ← List.take_append_drop (exponentMark _) (text.drop _)]
        exact (isMark_take hmark).headIs (by decide) (by decide)

theorem scan_of_isDecimal (h : headIs isDecimal text = true) : scan text = readNumber text := by
  obtain ⟨c, rest, rfl, hc⟩ := eq_cons_of_headIs h
  have hcolon : c ≠ ':' := by
    rintro rfl
    cases hc
  rw [scan_cons (word?_of_not_wordStart (isWordStart_of_isDecimal hc)), readFrom,
    if_neg (by simp [hcolon]), if_pos hc]

end

/-- A token that begins with a digit is the longest number literal there, unless an identifier
character follows that. -/
theorem token_of_digit {text : String} {t : Token} {front rest : List Char}
    (ht : BeginsAt t front rest text.toList (tokenize text)) (hd : headIs isDecimal rest = true) :
    ∃ m after, rest = m ++ after ∧ IsNumeral m ∧
      (∀ m', IsNumeral m' → m' <+: rest → m'.length ≤ m.length) ∧ t.position = .ofFront front ∧
      (headIs isWordChar after = false → t.kind = .number ∧ t.text.toList = m) ∧
      (headIs isWordChar after = true → t.kind = .error ∧
        ∃ read, t.text = Flaw.message read (.ofFront front) .number) := by
  have htoken := token_eq_of_beginsAt ht
  rw [scan_of_isDecimal hd] at htoken
  have hm := isNumeral_take hd
  have hlongest (m' : List Char) (hm' : IsNumeral m') (hp : m' <+: rest) :
      m'.length ≤ (rest.take (numeralWidth rest)).length := by
    obtain ⟨after, rfl⟩ := hp
    have hle := hm'.length_le after
    rw [List.length_take, List.length_append]
    omega
  refine ⟨rest.take (numeralWidth rest), rest.drop (numeralWidth rest),
    (List.take_append_drop _ _).symm, hm, hlongest, ?_, fun hend => ?_, fun hword => ?_⟩
  · rw [htoken, Reading.tokenAt]
    split <;> rfl
  · rcases readNumber_eq rest with hread | ⟨hword, _⟩
    · rw [hread, endNumber, if_neg (Bool.eq_false_iff.mp hend)] at htoken
      rw [htoken]
      exact ⟨rfl, String.toList_ofList⟩
    · cases hend.symm.trans hword
  · rcases readNumber_eq rest with hread | ⟨_, n, hread⟩
    · rw [hread, endNumber, if_pos hword] at htoken
      rw [htoken]
      exact ⟨rfl, _, rfl⟩
    · rw [hread] at htoken
      rw [htoken]
      exact ⟨rfl, _, rfl⟩

theorem token_of_digit_exponent :
    let text := "x 1.5e"
    let rest := "1.5e".toList
    ∃ t, BeginsAt t "x ".toList rest text.toList (tokenize text) ∧ headIs isDecimal rest = true ∧
      t.kind = .error ∧ t.position = ⟨1, 3⟩ ∧ ∃ m after, rest = m ++ after ∧ IsNumeral m ∧
        (∀ m', IsNumeral m' → m' <+: rest → m'.length ≤ m.length) ∧
        (headIs isWordChar after = false → t.kind = .number ∧ t.text.toList = m) := by
  intro text rest
  have htokens : tokenize text = [⟨.literal, "x", ⟨1, 1⟩⟩,
      ⟨.error, "malformed number literal '1.5e' at line 1, column 3", ⟨1, 3⟩⟩] :=
    Lexer.toTokens_of_firstTokens 2 (by decide +kernel) (by decide)
  have ht : BeginsAt ⟨.error, "malformed number literal '1.5e' at line 1, column 3", ⟨1, 3⟩⟩
      "x ".toList rest text.toList (tokenize text) := by
    rw [htokens]
    exact ⟨by decide, by decide +kernel, [⟨[], ⟨.literal, "x", ⟨1, 1⟩⟩⟩], [' '], _, rfl,
      by decide, by simp, List.forall_mem_singleton.mpr (by decide)⟩
  have hd : headIs isDecimal rest = true := by decide
  obtain ⟨m, after, hm, hnumeral, hlongest, hposition, hend, _⟩ := token_of_digit ht hd
  exact ⟨_, ht, hd, rfl, hposition.trans (by decide), m, after, hm, hnumeral, hlongest, hend⟩

end SqlSelect
