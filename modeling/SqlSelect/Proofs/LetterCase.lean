import SqlSelect.Lexer.Reading
import SqlSelect.Numeral.Unsigned

namespace SqlSelect

/-- The letters that have a small letter in ASCII. -/
def capitals : List Char := "ABCDEFGHIJKLMNOPQRSTUVWXYZ".toList

theorem toLower_eq_or_mem_capitals (c : Char) : c.toLower = c ∨ c ∈ capitals := by
  unfold Char.toLower
  split
  next h =>
    refine .inr ?_
    have hn : c.toNat ∈ capitals.map Char.toNat := by
      have h₁ : 65 ≤ c.toNat := h.1
      have h₂ : c.toNat ≤ 90 := h.2
      have hr : ∀ n < 91, 65 ≤ n → n ∈ capitals.map Char.toNat := by decide
      exact hr _ (by omega) h₁
    obtain ⟨d, hd, he⟩ := List.mem_map.mp hn
    have he : d = c := Char.toNat_inj.mp he
    exact he ▸ hd
  next => exact .inl rfl

theorem toList_toLower (s : String) : s.toLower.toList = s.toList.map Char.toLower :=
  String.toList_map

/-- What is the same for a capital and for its small letter. -/
def CaseBlind {β : Type} (f : Char → β) : Prop := ∀ c, f c.toLower = f c

theorem caseBlind_of_capitals {β : Type} {f : Char → β}
    (h : capitals.map (fun c => f c.toLower) = capitals.map f) : CaseBlind f := by
  intro c
  rcases toLower_eq_or_mem_capitals c with he | hc
  · rw [he]
  · exact List.map_inj_left.mp h c hc

theorem toLower_idem : CaseBlind Char.toLower := caseBlind_of_capitals (by decide)

theorem isSpace_caseBlind : CaseBlind isSpace := caseBlind_of_capitals (by decide)

theorem startsSymbol_caseBlind : CaseBlind startsSymbol := caseBlind_of_capitals (by decide)

theorem isAlphabetic_caseBlind : CaseBlind isAlphabetic := caseBlind_of_capitals (by decide)

theorem isWordChar_caseBlind : CaseBlind isWordChar := caseBlind_of_capitals (by decide)

theorem isWordStart_caseBlind : CaseBlind isWordStart := caseBlind_of_capitals (by decide)

theorem isDecimal_caseBlind : CaseBlind isDecimal := caseBlind_of_capitals (by decide)

theorem isHexadecimal_caseBlind : CaseBlind isHexadecimal := caseBlind_of_capitals (by decide)

theorem digitValue?_caseBlind : CaseBlind digitValue? := caseBlind_of_capitals (by decide)

section

variable {p : Char → Bool} {text : List Char}

theorem frontWidth_lower (hp : CaseBlind p) :
    frontWidth p (text.map Char.toLower) = frontWidth p text := by
  have h : p ∘ Char.toLower = p := funext hp
  rw [frontWidth, frontWidth, List.takeWhile_map, h, List.length_map]

theorem headIs_lower (hp : CaseBlind p) : headIs p (text.map Char.toLower) = headIs p text := by
  cases text with
  | nil => rfl
  | cons c rest => exact hp c

theorem beginsWith_lower (word : List Char) :
    beginsWith word (text.map Char.toLower) = beginsWith word text := by
  induction word generalizing text with
  | nil => rfl
  | cons w word ih =>
    cases text with
    | nil => rfl
    | cons c rest => simp only [List.map_cons, beginsWith, sameLetter, toLower_idem c, ih]

theorem atBoundary_lower : atBoundary (text.map Char.toLower) = atBoundary text := by
  cases text with
  | nil => rfl
  | cons c rest =>
    simp only [List.map_cons, atBoundary, isSpace_caseBlind c, startsSymbol_caseBlind c]

theorem opensCall_eq : opensCall text = headIs (· = '(') text := by
  unfold opensCall
  split
  next => rfl
  next h =>
    cases text with
    | nil => rfl
    | cons c rest =>
      have hc : c ≠ '(' := fun hc => h rest (hc ▸ rfl)
      simp [headIs, hc]

theorem opensCall_lower : opensCall (text.map Char.toLower) = opensCall text := by
  rw [opensCall_eq, opensCall_eq]
  exact headIs_lower (caseBlind_of_capitals (by decide))

theorem findWord_lower {follows : List Char → Bool}
    (hf : ∀ text : List Char, follows (text.map Char.toLower) = follows text)
    (words : List (String × TokenKind)) :
    words.findSome? (matchWord follows (text.map Char.toLower)) =
      words.findSome? (matchWord follows text) := by
  have h : matchWord follows (text.map Char.toLower) = matchWord follows text := by
    funext w
    simp only [matchWord, beginsWith_lower, ← List.map_drop, hf]
  rw [h]

theorem compound?_lower : compound? (text.map Char.toLower) = compound? text := by
  have h : matchCompound (text.map Char.toLower) = matchCompound text := by
    funext w
    have hg : w.gapEnd (text.map Char.toLower) = w.gapEnd text := by
      simp only [Compound.gapEnd, ← List.map_drop, frontWidth_lower isSpace_caseBlind]
    unfold matchCompound Compound.width
    rw [hg]
    simp only [beginsWith_lower, ← List.map_drop, atBoundary_lower]
  rw [compound?, compound?, h]

theorem word?_lower : word? (text.map Char.toLower) = word? text := by
  unfold word? keyword? function?
  rw [findWord_lower fun _ => atBoundary_lower, findWord_lower fun _ => opensCall_lower,
    compound?_lower]

theorem isMarked_eq : isMarked text =
    (headIs (· = '0') text && headIs (fun c => c = 'x' || c = 'X') (text.drop 1)) := by
  unfold isMarked
  split
  next => rfl
  next => rfl
  next hx hX =>
    cases text with
    | nil => rfl
    | cons c rest =>
      by_cases hc : c = '0'
      · subst hc
        cases rest with
        | nil => rfl
        | cons d rest =>
          have hd : d ≠ 'x' := fun hd => hx rest (hd ▸ rfl)
          have hd' : d ≠ 'X' := fun hd => hX rest (hd ▸ rfl)
          simp [headIs, hd, hd']
      · simp [headIs, hc]

theorem isMarked_lower : isMarked (text.map Char.toLower) = isMarked text := by
  rw [isMarked_eq, isMarked_eq, ← List.map_drop]
  rw [headIs_lower (caseBlind_of_capitals (by decide)),
    headIs_lower (caseBlind_of_capitals (by decide))]

theorem mantissa_lower (hp : CaseBlind p) :
    mantissa p (text.map Char.toLower) = mantissa p text := by
  have hpoint : CaseBlind fun c => decide (c = '.') := caseBlind_of_capitals (by decide)
  simp only [mantissa, ← List.map_drop, frontWidth_lower hp, headIs_lower hpoint]

theorem exponentMark_lower : exponentMark (text.map Char.toLower) = exponentMark text := by
  have he : CaseBlind fun c => decide (c = 'e') || decide (c = 'E') :=
    caseBlind_of_capitals (by decide)
  have hs : CaseBlind fun c => decide (c = '+') || decide (c = '-') :=
    caseBlind_of_capitals (by decide)
  simp only [exponentMark, ← List.map_drop, headIs_lower he, headIs_lower hs]

theorem endNumber_lower (width : Nat) :
    endNumber width (text.map Char.toLower) = endNumber width text := by
  simp only [endNumber, ← List.map_drop, headIs_lower isWordChar_caseBlind]

theorem readNumber_lower : readNumber (text.map Char.toLower) = readNumber text := by
  simp only [readNumber, readExponent, readPower, isMarked_lower, endNumber_lower,
    exponentMark_lower, mantissa_lower isDecimal_caseBlind, mantissa_lower isHexadecimal_caseBlind,
    headIs_lower isDecimal_caseBlind, headIs_lower isHexadecimal_caseBlind,
    frontWidth_lower isDecimal_caseBlind, ← List.map_drop]

theorem stringEnd_lower {quote : Char} (hq : CaseBlind fun c => decide (c = quote)) :
    stringEnd quote (text.map Char.toLower) = stringEnd quote text := by
  have hq (c : Char) : c.toLower = quote ↔ c = quote := decide_eq_decide.mp (hq c)
  induction text using stringEnd.induct quote with
  | case1 => rfl
  | case2 => simp only [List.map_cons, List.map_nil, stringEnd, hq]
  | case3 c hc => simp only [List.map_cons, List.map_nil, stringEnd, hq]
  | case4 rest ih => simp only [List.map_cons, stringEnd, hq, reduceIte, ih]
  | case5 d rest hd => simp only [List.map_cons, stringEnd, hq, reduceIte, if_neg hd]
  | case6 c d rest hc ih =>
    rw [List.map_cons] at ih
    simp only [List.map_cons, stringEnd, hq, if_neg hc, ih]

theorem readString_lower {quote : Char} (hq : CaseBlind fun c => decide (c = quote)) :
    readString quote (text.map Char.toLower) = readString quote text := by
  simp only [readString, stringEnd_lower hq, List.length_map]

theorem readBacktick_lower : readBacktick (text.map Char.toLower) = readBacktick text := by
  have hb : CaseBlind fun c => decide (c = '\x60') := caseBlind_of_capitals (by decide)
  have hn : CaseBlind fun c => decide (c ≠ '\x60') := caseBlind_of_capitals (by decide)
  have hm : '\x60' ∈ text.map Char.toLower ↔ '\x60' ∈ text := by
    simp only [List.mem_map, decide_eq_decide.mp (hb _), exists_eq_right]
  simp only [readBacktick, hm, frontWidth_lower hn, List.length_map]

theorem Reading.fixed_lower (m : Match) :
    Reading.fixed (text.map Char.toLower) m = Reading.fixed text m := by
  simp only [Reading.fixed, ← List.map_take, List.length_map]

theorem readSymbol_lower {c : Char} (hc : c.toLower = c) :
    readSymbol c.toLower (text.map Char.toLower) = readSymbol c text := by
  have hm : c :: text.map Char.toLower = (c :: text).map Char.toLower := by rw [List.map_cons, hc]
  have hs : symbol? ((c :: text).map Char.toLower) = symbol? (c :: text) :=
    findWord_lower (fun _ => rfl) symbols
  simp only [readSymbol, hc, hm, hs, Reading.fixed_lower]

theorem readFrom_lower (c : Char) (rest : List Char) :
    readFrom c.toLower (rest.map Char.toLower) = readFrom c rest := by
  have hcolon : CaseBlind fun c => decide (c = ':') := caseBlind_of_capitals (by decide)
  have hquote : CaseBlind fun c => decide (c = '\'') || decide (c = '"') :=
    caseBlind_of_capitals (by decide)
  have hbacktick : CaseBlind fun c => decide (c = '\x60') :=
    caseBlind_of_capitals (by decide)
  unfold readFrom
  simp only [hcolon c, hquote c, decide_eq_decide.mp (hbacktick c), isDecimal_caseBlind c,
    isWordStart_caseBlind c, headIs_lower isAlphabetic_caseBlind,
    frontWidth_lower isWordChar_caseBlind, ← List.map_cons, readNumber_lower, readBacktick_lower]
  -- Only two branches look at `c` itself, and no letter comes to them.
  refine ite_congr rfl (fun _ => rfl) fun _ => ite_congr rfl (fun _ => rfl) fun _ => ?_
  refine ite_congr rfl (fun hq => ?_) fun _ => ite_congr rfl (fun _ => rfl) fun _ => ?_
  · have hq : c = '\'' ∨ c = '"' := by simpa using hq
    rcases hq with rfl | rfl
    · exact readString_lower (caseBlind_of_capitals (by decide))
    · exact readString_lower (caseBlind_of_capitals (by decide))
  · refine ite_congr rfl (fun _ => rfl) fun hw => readSymbol_lower ?_
    have hletter : ∀ d ∈ capitals, isWordStart d = true :=
      List.all_eq_true.mp (by decide)
    exact (toLower_eq_or_mem_capitals c).resolve_right fun hc => hw (hletter c hc)

/-- A text reads as it does in small letters. -/
theorem scan_lower : scan (text.map Char.toLower) = scan text := by
  unfold scan
  rw [word?_lower]
  cases word? text with
  | some m => exact Reading.fixed_lower m
  | none =>
    cases text with
    | nil => rfl
    | cons c rest => exact readFrom_lower c rest

end

section

variable {text : List Char}

theorem dropPlus_cons (c : Char) (rest : List Char) :
    dropPlus (c :: rest) = if c = '+' then rest else c :: rest := by
  unfold dropPlus
  split
  next h =>
    obtain ⟨rfl, rfl⟩ := List.cons.inj h
    rfl
  next h =>
    have hc : c ≠ '+' := fun hc => h rest (hc ▸ rfl)
    rw [if_neg hc]

theorem dropPlus_lower : dropPlus (text.map Char.toLower) = (dropPlus text).map Char.toLower := by
  cases text with
  | nil => rfl
  | cons c rest =>
    have hplus : CaseBlind fun c => decide (c = '+') := caseBlind_of_capitals (by decide)
    simp only [List.map_cons, dropPlus_cons, decide_eq_decide.mp (hplus c),
      apply_ite (List.map Char.toLower)]

theorem readDigits_lower (radix high : Nat) :
    readDigits radix high (text.map Char.toLower) = readDigits radix high text := by
  induction text generalizing high with
  | nil => rfl
  | cons c rest ih => simp only [List.map_cons, readDigits, digit?, digitValue?_caseBlind c, ih]

theorem magnitude?_lower (radix : Nat) :
    magnitude? radix (text.map Char.toLower) = magnitude? radix text := by
  simp only [magnitude?, dropPlus_lower, readDigits_lower, List.isEmpty_map]

theorem natural?_eq : natural? text =
    if isMarked text then magnitude? 16 (text.drop 2) else magnitude? 10 text := by
  unfold natural?
  split
  next => rfl
  next => rfl
  next hx hX =>
    rw [if_neg]
    unfold isMarked
    split
    next rest => exact (hx rest rfl).elim
    next rest => exact (hX rest rfl).elim
    next => exact Bool.false_ne_true

theorem natural?_lower : natural? (text.map Char.toLower) = natural? text := by
  simp only [natural?_eq, isMarked_lower, ← List.map_drop, magnitude?_lower]

end

/-- A number has one value however its letters are written. -/
theorem unsigned?_toLower (s : String) : unsigned? s.toLower = unsigned? s := by
  rw [unsigned?, unsigned?, toList_toLower, natural?_lower]

end SqlSelect
