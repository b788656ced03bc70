import SqlSelect.Proofs.TokenShape

namespace SqlSelect

/-- What a string or a backtick literal stands between. -/
def quoteMarks : List Char := ['\'', '"', '\x60']

/-- The quotation mark that is open after one more character. -/
def openMark (q : Option Char) (c : Char) : Option Char :=
  match q with
  | none => if c ∈ quoteMarks then some c else none
  | some d => if c = d then none else some d

/-- A text with a blank for each line feed between quotation marks. -/
def flattened : Option Char → List Char → List Char
  | _, [] => []
  | q, c :: text =>
    (if q.isSome = true ∧ c = '\n' then ' ' else c) :: flattened (openMark q c) text

/-- A text that stands in one line if no line feed between quotation marks ends a line. -/
structure Unbroken (text : List Char) : Prop where
  closed : text.foldl openMark none = none
  oneLine : '\n' ∉ flattened none text

/-- A text with no quotation mark and no line feed. -/
def Unmarked (text : List Char) : Prop := ∀ c ∈ text, c ∉ '\n' :: quoteMarks

instance (text : List Char) : Decidable (Unmarked text) :=
  List.decidableBAll (fun c : Char => c ∉ '\n' :: quoteMarks) text

section

variable {text w rest s : List Char} {q : Char} {k : TokenKind}

theorem flattened_append (m : Option Char) (text rest : List Char) :
    flattened m (text ++ rest) = flattened m text ++ flattened (text.foldl openMark m) rest := by
  induction text generalizing m with
  | nil => rfl
  | cons c text ih =>
    rw [List.cons_append, flattened, ih, flattened, List.foldl_cons, List.cons_append]

theorem Unbroken.append (h : Unbroken text) (h' : Unbroken rest) : Unbroken (text ++ rest) := by
  refine ⟨?_, ?_⟩
  · rw [List.foldl_append, h.closed, h'.closed]
  · rw [flattened_append, h.closed, List.mem_append, not_or]
    exact ⟨h.oneLine, h'.oneLine⟩

theorem unmarked_cons {c : Char} :
    Unmarked (c :: text) ↔ c ∉ '\n' :: quoteMarks ∧ Unmarked text := List.forall_mem_cons

theorem unmarked_append : Unmarked (text ++ rest) ↔ Unmarked text ∧ Unmarked rest :=
  List.forall_mem_append

theorem unmarked_of {p : Char → Bool} (hp : ('\n' :: quoteMarks).any p = false)
    (hw : ∀ c ∈ w, p c = true) : Unmarked w :=
  fun c hc hm => List.any_eq_false.mp hp c hm (hw c hc)

theorem unmarked_word (hw : ∀ c ∈ w, isWordChar c = true) : Unmarked w :=
  unmarked_of (by decide) hw

theorem Unmarked.flattened_eq (hw : Unmarked w) :
    w.foldl openMark none = none ∧ flattened none w = w := by
  induction w with
  | nil => exact ⟨rfl, rfl⟩
  | cons c w ih =>
    obtain ⟨hc, hw⟩ := unmarked_cons.mp hw
    have hopen : openMark none c = none := if_neg (List.not_mem_of_not_mem_cons hc)
    obtain ⟨hfold, hflat⟩ := ih hw
    rw [List.foldl_cons, flattened, hopen]
    exact ⟨hfold, by rw [hflat]; rfl⟩

theorem Unmarked.unbroken (hw : Unmarked w) : Unbroken w := by
  obtain ⟨hfold, hflat⟩ := hw.flattened_eq
  refine ⟨hfold, fun hn => ?_⟩
  rw [hflat] at hn
  exact hw '\n' hn List.mem_cons_self

theorem ne_newline_of_mem_quoteMarks (hq : q ∈ quoteMarks) : q ≠ '\n' := by
  rintro rfl
  exact absurd hq (by decide)

/-- A mark that is written twice within two of its kind closes them and opens them again. -/
theorem flattened_doubled (hq : q ∈ quoteMarks) (s : List Char) :
    (doubled q s).foldl openMark (some q) = some q ∧ '\n' ∉ flattened (some q) (doubled q s) := by
  have hne := ne_newline_of_mem_quoteMarks hq
  induction s with
  | nil => exact ⟨rfl, List.not_mem_nil⟩
  | cons c s ih =>
    obtain ⟨hfold, hflat⟩ := ih
    by_cases hc : c = q
    · subst hc
      simp [openMark, flattened, hq, hne, hne.symm, hfold, hflat]
    · have hopen : openMark (some q) c = some q := if_neg hc
      rw [doubled_cons_ne hc, List.foldl_cons, flattened, hopen]
      refine ⟨hfold, List.not_mem_cons_of_ne_of_not_mem ?_ hflat⟩
      by_cases hn : c = '\n'
      · simp [hn]
      · simp [hn, Ne.symm hn]

theorem unbroken_quoted (hq : q ∈ quoteMarks) (s : List Char) : Unbroken (quoted q s) := by
  obtain ⟨hfold, hflat⟩ := flattened_doubled hq s
  have hne := ne_newline_of_mem_quoteMarks hq
  have hopen : openMark none q = some q := if_pos hq
  have hclose : openMark (some q) q = none := if_pos rfl
  refine ⟨?_, ?_⟩
  · rw [quoted, List.foldl_cons, hopen, List.foldl_append, hfold, List.foldl_cons, hclose,
      List.foldl_nil]
  · rw [quoted, flattened, hopen, flattened_append, hfold]
    simp [flattened, hne, hne.symm, hflat]

theorem doubled_of_not_mem (hq : q ∉ s) : doubled q s = s := by
  induction s with
  | nil => rfl
  | cons c s ih =>
    obtain ⟨hc, hs⟩ := List.ne_and_not_mem_of_not_mem_cons hq
    rw [doubled_cons_ne hc.symm, ih hs]

theorem IsMantissa.unmarked {digit : Char → Bool} (hd : ('\n' :: quoteMarks).any digit = false)
    (h : IsMantissa digit w) : Unmarked w := by
  cases h with
  | whole hw => exact unmarked_of hd hw.2
  | pointed hw hf =>
    refine unmarked_append.mpr ⟨unmarked_of hd hw.2, ?_⟩
    exact unmarked_cons.mpr ⟨by decide, unmarked_of hd hf⟩

theorem IsNumeral.unmarked (h : IsNumeral w) : Unmarked w := by
  have hdecimal : ('\n' :: quoteMarks).any isDecimal = false := by decide
  cases h with
  | hexadecimal hx hm =>
    refine unmarked_cons.mpr ⟨by decide, unmarked_cons.mpr ⟨?_, hm.unmarked (by decide)⟩⟩
    rcases hx with rfl | rfl <;> decide
  | decimal hm => exact hm.unmarked hdecimal
  | power hm hmark hw =>
    refine unmarked_append.mpr ⟨hm.unmarked hdecimal,
      unmarked_append.mpr ⟨?_, unmarked_of hdecimal hw.2⟩⟩
    obtain ⟨e, sign, rfl | rfl, rfl | rfl | rfl, rfl⟩ := hmark <;> decide

/-- A keyword of one word or the name of a function is all letters. -/
theorem unmarked_of_word? (h : word? (w ++ rest) = some ⟨w.length, k⟩)
    (hk : ∀ v ∈ compounds, v.kind ≠ k) : Unmarked w := by
  rcases word?_cases h with h | h | h
  · exact unmarked_word (keyword?_parts h).1
  · obtain ⟨v, hv, h⟩ := List.exists_of_findSome?_eq_some h
    exact (hk v hv (matchCompound_kind h).symm).elim
  · exact unmarked_word (function?_parts h).1

/-- No mark and no line feed is a small letter of another character. -/
theorem unmarked_of_lowered (h : Unmarked (lowered w).toList) : Unmarked w := by
  intro c hc hm
  have hlower : ('\n' :: quoteMarks).map Char.toLower = '\n' :: quoteMarks := by decide
  refine h c.toLower ?_ ?_
  · rw [lowered, String.toList_ofList]
    exact List.mem_map_of_mem hc
  · rw [← hlower]
    exact List.mem_map_of_mem hm

/-- All tokens but the keywords of two words stand in one line. -/
theorem TokenShape.unbroken (h : TokenShape rest k w) (hk : ∀ v ∈ compounds, v.kind ≠ k) :
    Unbroken w := by
  cases h with
  | worded hm => exact (unmarked_of_word? hm hk).unbroken
  | finish => exact Unmarked.unbroken nofun
  | parameter hw => exact (unmarked_cons.mpr ⟨by decide, unmarked_word hw⟩).unbroken
  | number hw => exact hw.unmarked.unbroken
  | string hq =>
    rcases hq with rfl | rfl
    · exact unbroken_quoted (by decide) _
    · exact unbroken_quoted (by decide) _
  | @backtick s hs =>
    have h : Unbroken (quoted '\x60' s) := unbroken_quoted (by decide) s
    rw [quoted, doubled_of_not_mem hs] at h
    exact h
  | bare hw => exact (unmarked_word hw).unbroken
  | symbol hm =>
    have hsymbols : ∀ v ∈ symbols, Unmarked v.1.toList := by decide
    exact (unmarked_of_lowered (hsymbols _ hm)).unbroken

theorem unbroken_intercalate {texts : List String} (h : ∀ s ∈ texts, Unbroken s.toList) :
    Unbroken (String.intercalate " " texts).toList := by
  rw [String.toList_intercalate]
  induction texts with
  | nil => exact Unmarked.unbroken nofun
  | cons s texts ih =>
    obtain ⟨hs, htexts⟩ := List.forall_mem_cons.mp h
    cases texts with
    | nil => simpa using hs
    | cons s' texts =>
      have ih := ih htexts
      rw [List.map_cons] at ih
      have hblank : Unbroken " ".toList := Unmarked.unbroken (by decide)
      rw [List.map_cons, List.map_cons, List.intercalate_cons_cons]
      exact (hs.append hblank).append ih

end

end SqlSelect
