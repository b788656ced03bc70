import SqlSelect.Proofs.LetterCase

namespace SqlSelect

/-- All identifier characters at the front of a text. -/
def frontWord (text : List Char) : List Char := text.takeWhile isWordChar

def afterWord (text : List Char) : List Char := text.dropWhile isWordChar

/-- A word in small letters. -/
def lowered (w : List Char) : String := String.ofList (w.map Char.toLower)

def spelling (text : List Char) : String := lowered (frontWord text)

/-- What comes after the word at the front of a text and the white space after it. -/
def afterGap (text : List Char) : List Char := (afterWord text).dropWhile isSpace

/-- Words are not empty in the tables, and all small letters. -/
def Plain (w : String) : Prop :=
  w.toList ≠ [] ∧ ∀ c ∈ w.toList, c.toLower = c ∧ isWordStart c = true

instance (w : String) : Decidable (Plain w) :=
  have := List.decidableBAll (fun c => c.toLower = c ∧ isWordStart c = true) w.toList
  instDecidableAnd

theorem keywords_plain : ∀ v ∈ keywords, Plain v.1 := by decide

theorem functions_plain : ∀ v ∈ functions, Plain v.1 := by decide

theorem compounds_plain : ∀ v ∈ compounds, Plain v.first ∧ Plain v.second := by decide

/-- What may follow a word holds of no text that could go on with the word. -/
def EndsWord (follows : List Char → Bool) : Prop :=
  ∀ c rest, follows (c :: rest) = true → isWordChar c = false

/-- No range of white space has more than eleven characters. -/
theorem whiteSpace_points {P : Nat → Prop}
    (h : ∀ r ∈ whiteSpace, ∀ k < 12, r.1 + k ≤ r.2 → P (r.1 + k)) {c : Char}
    (hc : isSpace c = true) : P c.toNat := by
  obtain ⟨r, hr, hl, hu⟩ := Ranges.exists_of_contains hc
  have hw : ∀ r ∈ whiteSpace, r.2 < r.1 + 12 := by decide
  have hp := h r hr (c.toNat - r.1) (by have := hw r hr; omega) (by omega)
  rwa [Nat.add_sub_cancel' hl] at hp

theorem isWordChar_of_isSpace {c : Char} (hc : isSpace c = true) : isWordChar c = false := by
  have h := whiteSpace_points (P := fun n => alphabetic.contains n = false ∧
    numeric.contains n = false ∧ n ≠ '_'.toNat) (by decide +kernel) hc
  have hu : (c == '_') = false := beq_false_of_ne fun he => h.2.2 (he ▸ rfl)
  simp [isWordChar, isAlphabetic, isNumeric, h.1, h.2.1, hu]

theorem isWordChar_of_startsSymbol {c : Char} (hc : startsSymbol c = true) :
    isWordChar c = false := by
  have h : ∀ s ∈ symbols, headIs isWordChar s.1.toList = false := by decide
  obtain ⟨s, hs, hd⟩ := List.any_eq_true.mp hc
  have hhead := h s hs
  rwa [headIs, beq_iff_eq.mp hd] at hhead

theorem endsWord_space : EndsWord (headIs isSpace) := fun _ _ h => isWordChar_of_isSpace h

theorem endsWord_boundary : EndsWord atBoundary := by
  intro c rest h
  rcases (Bool.or_eq_true _ _).mp h with h | h
  · exact isWordChar_of_isSpace h
  · exact isWordChar_of_startsSymbol h

theorem endsWord_call : EndsWord opensCall := by
  intro c rest h
  rw [opensCall_eq] at h
  have hc : c = '(' := by simpa [headIs] using h
  rw [hc]
  decide

section

variable {w rest text : List Char}

theorem frontWord_append_afterWord (text : List Char) :
    frontWord text ++ afterWord text = text := List.takeWhile_append_dropWhile

theorem takeWhile_append {p : Char → Bool} (hw : ∀ c ∈ w, p c = true)
    (hr : headIs p rest = false) : (w ++ rest).takeWhile p = w := by
  rw [List.takeWhile_append_of_pos hw]
  cases rest with
  | nil => exact List.append_nil w
  | cons c rest =>
    have hc : p c = false := hr
    rw [List.takeWhile_cons_of_neg (by simp [hc]), List.append_nil]

theorem dropWhile_append {p : Char → Bool} (hw : ∀ c ∈ w, p c = true)
    (hr : headIs p rest = false) : (w ++ rest).dropWhile p = rest := by
  have h := List.takeWhile_append_dropWhile (p := p) (l := w ++ rest)
  rw [takeWhile_append hw hr] at h
  exact List.append_cancel_left h

theorem frontWord_append (hw : ∀ c ∈ w, isWordChar c = true)
    (hr : headIs isWordChar rest = false) : frontWord (w ++ rest) = w := takeWhile_append hw hr

theorem afterWord_append (hw : ∀ c ∈ w, isWordChar c = true)
    (hr : headIs isWordChar rest = false) : afterWord (w ++ rest) = rest := dropWhile_append hw hr

theorem length_spelling (text : List Char) : (spelling text).length = (frontWord text).length := by
  rw [← String.length_toList, spelling, lowered, String.toList_ofList, List.length_map]

theorem drop_length_spelling (text : List Char) :
    text.drop (spelling text).length = afterWord text := by
  conv => lhs; arg 2; rw [← frontWord_append_afterWord text]
  rw [length_spelling, List.drop_left]

theorem drop_frontWidth (p : Char → Bool) (text : List Char) :
    text.drop (frontWidth p text) = text.dropWhile p := by
  conv => lhs; arg 2; rw [← List.takeWhile_append_dropWhile (p := p) (l := text)]
  exact List.drop_left

theorem frontWidth_pos_iff {p : Char → Bool} : 0 < frontWidth p text ↔ headIs p text = true := by
  cases text with
  | nil => exact ⟨nofun, nofun⟩
  | cons c rest =>
    cases hc : p c with
    | true => simp [frontWidth, headIs, hc]
    | false => simp [frontWidth, headIs, hc]

theorem beginsWith_iff {word : List Char} : beginsWith word text = true ↔
    ∃ front rest, text = front ++ rest ∧ front.map Char.toLower = word.map Char.toLower := by
  induction word generalizing text with
  | nil => exact ⟨fun _ => ⟨[], text, rfl, rfl⟩, fun _ => rfl⟩
  | cons w word ih =>
    cases text with
    | nil =>
      refine ⟨nofun, ?_⟩
      rintro ⟨front, rest, h, hf⟩
      rw [(List.append_eq_nil_iff.mp h.symm).1] at hf
      cases hf
    | cons c text =>
      rw [beginsWith, Bool.and_eq_true, ih, sameLetter, beq_iff_eq]
      constructor
      · rintro ⟨hc, front, rest, rfl, hf⟩
        exact ⟨c :: front, rest, rfl, by rw [List.map_cons, List.map_cons, hf, hc]⟩
      · rintro ⟨front, rest, h, hf⟩
        cases front with
        | nil => cases hf
        | cons d front =>
          rw [List.cons_append, List.cons.injEq] at h
          rw [List.map_cons, List.map_cons, List.cons.injEq] at hf
          exact ⟨by rw [h.1, hf.1], front, rest, h.2, hf.2⟩

/-- A word of the tables stands before what ends a word just if it is all of the word there. -/
theorem beginsWith_and_iff {v : String} {follows : List Char → Bool} (hv : Plain v)
    (hf : EndsWord follows) :
    (beginsWith v.toList text && follows (text.drop v.length)) = true ↔
      spelling text = v ∧ follows (afterWord text) = true := by
  have hlower : v.toList.map Char.toLower = v.toList :=
    (List.map_congr_left fun c hc => (hv.2 c hc).1).trans (List.map_id _)
  rw [Bool.and_eq_true, beginsWith_iff, hlower]
  constructor
  · rintro ⟨⟨front, rest, rfl, hfront⟩, hrest⟩
    have hword : ∀ c ∈ front, isWordChar c = true := by
      intro c hc
      have hl : c.toLower ∈ v.toList := hfront ▸ List.mem_map_of_mem hc
      refine isWordChar_of_isWordStart ?_
      rw [← isWordStart_caseBlind c]
      exact (hv.2 _ hl).2
    have hlen : front.length = v.length := by
      rw [← String.length_toList, ← hfront, List.length_map]
    rw [List.drop_left' hlen] at hrest
    have hhead : headIs isWordChar rest = false := by
      cases rest with
      | nil => rfl
      | cons c rest => exact hf c rest hrest
    rw [spelling, lowered, frontWord_append hword hhead, afterWord_append hword hhead, hfront,
      String.ofList_toList]
    exact ⟨rfl, hrest⟩
  · rintro ⟨rfl, hrest⟩
    rw [drop_length_spelling]
    refine ⟨⟨frontWord text, afterWord text, (frontWord_append_afterWord text).symm, ?_⟩, hrest⟩
    rw [spelling, lowered, String.toList_ofList]

theorem matchWord_eq {v : String × TokenKind} {follows : List Char → Bool} (hv : Plain v.1)
    (hf : EndsWord follows) : matchWord follows text v =
      if spelling text = v.1 ∧ follows (afterWord text) = true then
        some ⟨(frontWord text).length, v.2⟩
      else none := by
  simp only [matchWord, beginsWith_and_iff hv hf]
  refine ite_congr rfl (fun h => ?_) fun _ => rfl
  rw [← h.1, length_spelling]

/-- The first word of a table that fits is the word at the front of the text. -/
theorem findWord_eq {words : List (String × TokenKind)} {follows : List Char → Bool}
    (hw : ∀ v ∈ words, Plain v.1) (hf : EndsWord follows) :
    words.findSome? (matchWord follows text) =
      if follows (afterWord text) = true then
        (words.lookup (spelling text)).map (Match.mk (frontWord text).length)
      else none := by
  induction words with
  | nil => simp
  | cons v words ih =>
    have ih := ih fun u hu => hw u (List.mem_cons_of_mem v hu)
    rw [List.findSome?_cons, matchWord_eq (hw v List.mem_cons_self) hf, ih, List.lookup_cons]
    by_cases hb : follows (afterWord text) = true
    · by_cases hs : spelling text = v.1
      · simp [hb, hs]
      · simp [hb, hs, beq_false_of_ne hs]
    · simp [hb]

theorem keyword?_eq (text : List Char) : keyword? text =
    if atBoundary (afterWord text) = true then
      (keywords.lookup (spelling text)).map (Match.mk (frontWord text).length)
    else none := findWord_eq keywords_plain endsWord_boundary

theorem function?_eq (text : List Char) : function? text =
    if opensCall (afterWord text) = true then
      (functions.lookup (spelling text)).map (Match.mk (frontWord text).length)
    else none := findWord_eq functions_plain endsWord_call

/-- Both words of a compound are all of the word where they stand. -/
theorem matchCompound_eq {v : Compound} (hv : Plain v.first ∧ Plain v.second) :
    matchCompound text v =
      if spelling text = v.first ∧ headIs isSpace (afterWord text) = true ∧
          spelling (afterGap text) = v.second ∧ atBoundary (afterWord (afterGap text)) = true then
        some ⟨(frontWord text).length + frontWidth isSpace (afterWord text)
          + (frontWord (afterGap text)).length, v.kind⟩
      else none := by
  have hfirst : (beginsWith v.first.toList text && decide (v.first.length < v.gapEnd text)) = true ↔
      spelling text = v.first ∧ headIs isSpace (afterWord text) = true := by
    rw [← beginsWith_and_iff hv.1 endsWord_space, Bool.and_eq_true, Bool.and_eq_true,
      ← frontWidth_pos_iff, decide_eq_true_eq, Compound.gapEnd, Nat.lt_add_right_iff_pos]
  unfold matchCompound
  by_cases hs : spelling text = v.first ∧ headIs isSpace (afterWord text) = true
  · have hlen : v.first.length = (frontWord text).length := by rw [← hs.1, length_spelling]
    have hafter : text.drop v.first.length = afterWord text := by
      rw [← hs.1, drop_length_spelling]
    have hgap : v.gapEnd text = (frontWord text).length + frontWidth isSpace (afterWord text) := by
      rw [Compound.gapEnd, hafter, hlen]
    have hdrop : text.drop (v.gapEnd text) = afterGap text := by
      rw [Compound.gapEnd, ← List.drop_drop, hafter, drop_frontWidth, afterGap]
    have hend : text.drop (v.width text) = (afterGap text).drop v.second.length := by
      rw [Compound.width, ← List.drop_drop, hdrop]
    rw [hfirst.mpr hs, Bool.true_and, hdrop, hend]
    simp only [beginsWith_and_iff hv.2 endsWord_boundary, hs, true_and]
    refine ite_congr rfl (fun h => ?_) fun _ => rfl
    rw [Compound.width, hgap, ← h.1, length_spelling]
  · rw [Bool.eq_false_iff.mpr fun h => hs (hfirst.mp h)]
    rw [Bool.false_and, Bool.false_and, if_neg Bool.false_ne_true, if_neg fun h => hs ⟨h.1, h.2.1⟩]

/-- The compound that two words are. -/
def compoundOf? (first second : String) : Option TokenKind :=
  compounds.findSome? fun v => if first = v.first ∧ second = v.second then some v.kind else none

/-- A keyword of two words is told by both of them, the white space between them and what follows
the second. -/
theorem compound?_eq (text : List Char) : compound? text =
    if headIs isSpace (afterWord text) = true ∧ atBoundary (afterWord (afterGap text)) = true then
      (compoundOf? (spelling text) (spelling (afterGap text))).map (Match.mk ((frontWord text).length
        + frontWidth isSpace (afterWord text) + (frontWord (afterGap text)).length))
    else none := by
  have hplain := compounds_plain
  unfold compound? compoundOf?
  generalize compounds = vs at hplain
  induction vs with
  | nil => simp
  | cons v vs ih =>
    have ih := ih fun u hu => hplain u (List.mem_cons_of_mem v hu)
    rw [List.findSome?_cons, List.findSome?_cons, matchCompound_eq (hplain v List.mem_cons_self), ih]
    by_cases hb : headIs isSpace (afterWord text) = true ∧
      atBoundary (afterWord (afterGap text)) = true
    · by_cases hs : spelling text = v.first ∧ spelling (afterGap text) = v.second
      · simp [hb, hs]
      · rw [if_neg fun h => hs ⟨h.1, h.2.2.1⟩, if_neg hs]
    · rw [if_neg fun h => hb ⟨h.2.1, h.2.2.2⟩, if_neg hb, if_neg hb]

end

end SqlSelect
