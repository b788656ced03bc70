import SqlSelect.Proofs.Lexing

namespace SqlSelect

/-- Words with a gap before each, and one after the last. -/
def spaced : (Nat → List Char) → List (List Char) → List Char
  | gaps, [] => gaps 0
  | gaps, w :: words => gaps 0 ++ (w ++ spaced (fun i => gaps (i + 1)) words)

/-- The texts of the tokens, without the end. -/
def tokenTexts (text : String) : List (List Char) := (tokenize text).dropLast.map (·.text.toList)

section

variable {w rest rest' b text : List Char} {g h : Nat → List Char} {ws : List (List Char)}
  {k : TokenKind} {c : Char} {l : Lexeme} {ls : List Lexeme}

theorem Loosens.append_left (hl : Loosens rest rest') : Loosens (b ++ rest) (b ++ rest') := by
  cases b with
  | nil => exact hl
  | cons c b => exact fun d hd => .inr hd

/-- Gaps may be widened, and closed where none was or nothing follows. -/
theorem spaced_loosens (hh : ∀ c ∈ h 0, isSpace c = true) (hw : ∀ w ∈ ws, w ≠ [])
    (hgap : ws ≠ [] → h 0 = [] → g 0 = []) : Loosens (spaced g ws) (spaced h ws) := by
  intro c hc
  cases ws with
  | nil => exact .inl (hh c (List.mem_of_head? hc))
  | cons w ws =>
    cases hgap' : h 0 with
    | cons d gap =>
      rw [spaced, hgap'] at hc
      obtain rfl : d = c := Option.some.inj hc
      exact .inl (hh d (hgap' ▸ List.mem_cons_self))
    | nil =>
      obtain ⟨d, w, rfl⟩ := List.exists_cons_of_ne_nil (hw w List.mem_cons_self)
      rw [spaced, hgap'] at hc
      rw [spaced, hgap (List.cons_ne_nil _ _) hgap']
      exact .inr hc

theorem eq_cons_of_opensCall (h : opensCall rest = true) : ∃ after, rest = '(' :: after := by
  unfold opensCall at h
  split at h
  next after => exact ⟨after, rfl⟩
  next => cases h

theorem opensCall_respaced (hl : Loosens rest' rest) (h : opensCall rest = true) :
    opensCall rest' = true := by
  obtain ⟨after, rfl⟩ := eq_cons_of_opensCall h
  rcases hl '(' rfl with hc | hc
  · cases hc
  · obtain ⟨after', rfl⟩ := List.head?_eq_some_iff.mp hc
    rfl

theorem compound?_of_not_space (hw : ∀ d ∈ w, isWordChar d = true)
    (hr : headIs isWordChar rest = false) (hs : headIs isSpace rest = false) :
    compound? (w ++ rest) = none := by
  rw [compound?_eq, afterWord_append hw hr, hs]
  exact if_neg fun h => Bool.false_ne_true h.1

/-- The name of a function is one while the parenthesis stays where it is. -/
theorem function?_respaced (hl : Loosens rest' rest) (hn : keyword? (w ++ rest) = none)
    (h : function? (w ++ rest) = some ⟨w.length, k⟩) :
    word? (w ++ rest') = some ⟨w.length, k⟩ := by
  obtain ⟨hw, hr, hk⟩ := function?_parts h
  have hr' := opensCall_respaced hl hr
  obtain ⟨after, rfl⟩ := eq_cons_of_opensCall hr
  obtain ⟨after', rfl⟩ := eq_cons_of_opensCall hr'
  have hend {after : List Char} : headIs isWordChar ('(' :: after) = false :=
    endsWord_call '(' after rfl
  have hkeyword : keyword? (w ++ '(' :: after') = none := by
    rw [keyword?_append hw hend] at hn ⊢
    exact hn
  have hcompound : compound? (w ++ '(' :: after') = none := by
    exact compound?_of_not_space hw hend rfl
  rw [word?, hkeyword, hcompound, function?_append hw hend, if_pos hr', hk]
  rfl

/-- A token that begins with a letter ends the word it begins with, if not sooner. -/
theorem headIs_afterWord_append (hc : isWordStart c = true)
    (h : scan (c :: w ++ rest) = .token (c :: w).length k) :
    headIs isWordChar (afterWord (c :: w) ++ rest) = false := by
  have hall (hw : ∀ d ∈ c :: w, isWordChar d = true) (hr : headIs isWordChar rest = false) :
      headIs isWordChar (afterWord (c :: w) ++ rest) = false := by
    have hn : afterWord (c :: w ++ []) = [] := afterWord_append hw rfl
    rw [List.append_nil] at hn
    rw [hn]
    exact hr
  rcases scan_wordStart_cases hc h with ⟨h, _⟩ | h | ⟨_, h⟩ | ⟨_, _, hw, hr⟩
  · obtain ⟨hw, hr, _⟩ := function?_parts h
    obtain ⟨after, rfl⟩ := eq_cons_of_opensCall hr
    exact hall hw (endsWord_call '(' after rfl)
  · obtain ⟨hw, hr, _⟩ := keyword?_parts h
    exact hall hw (headIs_isWordChar_of_atBoundary hr)
  · obtain ⟨f, g, s, hparts, hf, hg, hg', _⟩ := compound?_parts h
    have hgap : headIs isWordChar (g ++ s) = false := (headIs_gap hg hg').2.1
    rw [hparts, afterWord_append hf hgap, List.append_assoc]
    exact (headIs_gap hg hg').2.1
  · exact hall hw hr

/-- The word at the front of a token does not go on after it, whatever the gaps. -/
theorem frontWord_respaced (hl : Loosens rest rest')
    (h : headIs isWordChar (afterWord w ++ rest) = false) :
    frontWord (w ++ rest') = frontWord (w ++ rest) ∧
      Loosens (afterWord (w ++ rest)) (afterWord (w ++ rest')) := by
  have hl' : Loosens (afterWord w ++ rest) (afterWord w ++ rest') := hl.append_left
  have h' := hl'.headIs inked_isWordChar h
  have hw : ∀ c ∈ frontWord w, isWordChar c = true := fun _ => isWordChar_of_mem_frontWord
  rw [← frontWord_append_afterWord w, List.append_assoc, List.append_assoc]
  rw [frontWord_append hw h, frontWord_append hw h', afterWord_append hw h, afterWord_append hw h']
  exact ⟨rfl, hl'⟩

theorem Lexes.chars_ne_nil (h : Lexes text ls) : ∀ w ∈ ls.map Lexeme.chars, w ≠ [] := by
  induction h with
  | done => exact nofun
  | step _ hne _ _ _ ih => exact List.forall_mem_cons.mpr ⟨hne, ih⟩

/-- A word and the token after it make a keyword or none with any white space between them. -/
theorem compound?_respaced_gap {gap gap' w₁ rest₁ rest₁' : List Char} {k₁ : TokenKind}
    (hw : ∀ d ∈ w, isWordChar d = true) (hg : ∀ d ∈ gap, isSpace d = true) (hne : gap ≠ [])
    (hg' : ∀ d ∈ gap', isSpace d = true) (hne' : gap' ≠ []) (hw₁ : w₁ ≠ [])
    (h₁ : scan (w₁ ++ rest₁) = .token w₁.length k₁) (hl : Loosens rest₁ rest₁')
    (hl' : Loosens rest₁' rest₁) (hn : compound? (w ++ (gap ++ (w₁ ++ rest₁))) = none) :
    compound? (w ++ (gap' ++ (w₁ ++ rest₁'))) = none := by
  have hspace : headIs isSpace (w₁ ++ rest₁) = false := headIs_isSpace_of_scan hw₁ h₁
  obtain ⟨c, w₁, rfl⟩ := List.exists_cons_of_ne_nil hw₁
  have hspace' : headIs isSpace (c :: w₁ ++ rest₁') = false := hspace
  rw [compound?_gap hw hg hne hspace] at hn
  rw [compound?_gap hw hg' hne' hspace']
  refine ite_eq_right_iff.mpr fun hb => Option.map_eq_none_iff.mpr ?_
  refine Option.eq_none_iff_forall_not_mem.mpr fun k hk => ?_
  have hk : compoundOf? (lowered w) (spelling (c :: w₁ ++ rest₁')) = some k := hk
  obtain ⟨x, hx, _, hsecond, _⟩ := compoundOf?_eq_some hk
  have hstart := isWordStart_of_spelling (compounds_plain x hx).2 hsecond
  have hend := headIs_afterWord_append hstart h₁
  have hend' := hl.append_left.headIs inked_isWordChar hend
  have hbound := (frontWord_respaced hl' hend').2.atBoundary hb
  have hn := Option.map_eq_none_iff.mp (ite_eq_right_iff.mp hn hbound)
  rw [spelling, (frontWord_respaced hl hend).1] at hk
  rw [spelling, hk] at hn
  cases hn

/-- The gaps before some number of words and after them, and others that are blank where they are. -/
structure Respaces (g h : Nat → List Char) (n : Nat) : Prop where
  before : ∀ i ≤ n, ∀ c ∈ g i, isSpace c = true
  after : ∀ i ≤ n, ∀ c ∈ h i, isSpace c = true
  closed : ∀ i < n, h i = [] ↔ g i = []

namespace Respaces

variable {n : Nat}

theorem symm (hr : Respaces g h n) : Respaces h g n :=
  ⟨hr.after, hr.before, fun i hi => (hr.closed i hi).symm⟩

theorem tail (hr : Respaces g h (n + 1)) :
    Respaces (fun i => g (i + 1)) (fun i => h (i + 1)) n :=
  ⟨fun i hi => hr.before (i + 1) (Nat.succ_le_succ hi),
    fun i hi => hr.after (i + 1) (Nat.succ_le_succ hi),
    fun i hi => hr.closed (i + 1) (Nat.succ_lt_succ hi)⟩

theorem loosens (hr : Respaces g h ls.length) (hl : Lexes text ls) :
    Loosens (spaced g (ls.map Lexeme.chars)) (spaced h (ls.map Lexeme.chars)) := by
  refine spaced_loosens (hr.after 0 (Nat.zero_le _)) hl.chars_ne_nil fun hne => ?_
  refine (hr.closed 0 (List.length_pos_iff.mpr fun hn => hne ?_)).mp
  rw [hn, List.map_nil]

end Respaces

theorem Lexes.uncons {gap : List Char} (hg : ∀ c ∈ gap, isSpace c = true)
    (hl : Lexes (gap ++ (l.chars ++ rest)) (l :: ls)) :
    l.chars ≠ [] ∧ l.kind.isTerminal = false ∧
      scan (l.chars ++ rest) = .token l.chars.length l.kind ∧ Lexes rest ls := by
  generalize htext : gap ++ (l.chars ++ rest) = text at hl
  cases hl with
  | @step gap' _ rest' _ hg' hne hk hs hl =>
    have hhead' : headIs isSpace (l.chars ++ rest') = false := headIs_isSpace_of_scan hne hs
    have hhead : headIs isSpace (l.chars ++ rest) = false := by
      rw [headIs_append hne] at hhead' ⊢
      exact hhead'
    obtain rfl : rest = rest' := by
      have hdrop := congrArg (List.dropWhile isSpace) htext
      rw [dropWhile_append hg hhead, dropWhile_append hg' hhead'] at hdrop
      exact List.append_cancel_left hdrop
    exact ⟨hne, hk, hs, hl⟩

/-- A word that nothing but white space follows is no word of two. -/
theorem compound?_last {gap : List Char} (hw : ∀ d ∈ w, isWordChar d = true)
    (hg : ∀ d ∈ gap, isSpace d = true) : compound? (w ++ gap) = none := by
  by_cases hne : gap = []
  · rw [hne]
    exact compound?_of_not_space hw rfl rfl
  · have hn : compoundOf? (lowered w) (spelling []) = none := by
      refine Option.eq_none_iff_forall_not_mem.mpr fun k hk => ?_
      obtain ⟨x, hx, _, hs, _⟩ := compoundOf?_eq_some hk
      exact (compounds_plain x hx).2.1 (hs ▸ rfl)
    have hgap := compound?_gap hw hg hne (show headIs isSpace [] = false from rfl)
    rw [List.append_nil, hn, Option.map_none, ite_self] at hgap
    exact hgap

/-- A word that makes no keyword with what comes next makes none if the gaps are others. -/
theorem compound?_spaced (hr : Respaces g h ls.length) (hw : ∀ d ∈ w, isWordChar d = true)
    (hend : headIs isWordChar (spaced g (ls.map Lexeme.chars)) = false)
    (hl : Lexes (spaced g (ls.map Lexeme.chars)) ls)
    (hn : compound? (w ++ spaced g (ls.map Lexeme.chars)) = none) :
    compound? (w ++ spaced h (ls.map Lexeme.chars)) = none := by
  have hend' := (hr.loosens hl).headIs inked_isWordChar hend
  cases ls with
  | nil => exact compound?_last hw (hr.after 0 (Nat.le_refl 0))
  | cons l ls =>
    obtain ⟨hne, _, hs, hl⟩ := hl.uncons (hr.before 0 (Nat.zero_le _))
    by_cases hgap : h 0 = []
    · refine compound?_of_not_space hw hend' ?_
      have hhead := headIs_isSpace_of_scan hne hs
      rw [headIs_append hne] at hhead
      rw [List.map_cons, spaced, hgap, List.nil_append, headIs_append hne]
      exact hhead
    · exact compound?_respaced_gap hw (hr.before 0 (Nat.zero_le _))
        (fun h0 => hgap ((hr.closed 0 (Nat.succ_pos _)).mpr h0)) (hr.after 0 (Nat.zero_le _)) hgap hne
        hs (hr.tail.loosens hl) (hr.tail.symm.loosens hl) hn

theorem word?_eq_none : word? text = none ↔
    keyword? text = none ∧ compound? text = none ∧ function? text = none := by
  simp [word?]

/-- A token is read the same before texts that begin alike but for white space, unless a word that
makes no keyword with the one makes one with the other. -/
theorem scan_loosened (hto : Loosens rest rest') (hfrom : Loosens rest' rest) (hw : w ≠ [])
    (hcompound : k = .literal → (∀ d ∈ w, isWordChar d = true) → headIs isWordChar rest = false →
      compound? (w ++ rest) = none → compound? (w ++ rest') = none)
    (hs : scan (w ++ rest) = .token w.length k) : scan (w ++ rest') = .token w.length k := by
  obtain ⟨c, w, rfl⟩ := List.exists_cons_of_ne_nil hw
  cases hc : isWordStart c with
  | false =>
    rw [List.cons_append, scan_cons (word?_of_not_wordStart hc)] at hs ⊢
    exact readFrom_respaced hto hs
  | true =>
    rcases scan_wordStart_cases hc hs with ⟨hm, hn⟩ | hm | ⟨hn, hm⟩ | ⟨rfl, hn, hw, hend⟩
    · exact scan_of_word?_some (function?_respaced hfrom hn hm)
    · refine scan_of_word?_some ?_
      rw [word?, keyword?_respaced hto hm]
      rfl
    · obtain ⟨hn, hm⟩ := compound?_respaced hto hn hm
      refine scan_of_word?_some ?_
      rw [word?, hn, hm]
      rfl
    · obtain ⟨hkeyword, hnone, hfunction⟩ := word?_eq_none.mp hn
      have hend' := hto.headIs inked_isWordChar hend
      rw [keyword?_append hw hend, ite_eq_right_iff] at hkeyword
      rw [function?_append hw hend, ite_eq_right_iff] at hfunction
      refine scan_of_word?_none hc hw hend' (word?_eq_none.mpr ⟨?_, ?_, ?_⟩)
      · rw [keyword?_append hw hend', ite_eq_right_iff]
        exact fun hb => hkeyword (hfrom.atBoundary hb)
      · exact hcompound rfl hw hend hnone
      · rw [function?_append hw hend', ite_eq_right_iff]
        exact fun hb => hfunction (opensCall_respaced hto hb)

/-- What comes after a token may be spaced anew. -/
theorem scan_spaced (hr : Respaces g h ls.length) (hw : w ≠ [])
    (hl : Lexes (spaced g (ls.map Lexeme.chars)) ls)
    (hs : scan (w ++ spaced g (ls.map Lexeme.chars)) = .token w.length k) :
    scan (w ++ spaced h (ls.map Lexeme.chars)) = .token w.length k :=
  scan_loosened (hr.loosens hl) (hr.symm.loosens hl) hw
    (fun _ hw hend hn => compound?_spaced hr hw hend hl hn) hs

/-- A text of tokens may be spaced anew, as long as no gap opens or closes between two of them. -/
theorem Lexes.spaced (hg : ∀ i ≤ ls.length, ∀ c ∈ g i, isSpace c = true)
    (hh : ∀ i ≤ ls.length, ∀ c ∈ h i, isSpace c = true)
    (hgap : ∀ i, 0 < i → i < ls.length → (h i = [] ↔ g i = []))
    (hl : Lexes (spaced g (ls.map Lexeme.chars)) ls) :
    Lexes (SqlSelect.spaced h (ls.map Lexeme.chars)) ls := by
  induction ls generalizing g h with
  | nil => exact .done (hh 0 (Nat.le_refl 0))
  | cons l ls ih =>
    obtain ⟨hne, hk, hs, hl⟩ := hl.uncons (hg 0 (Nat.zero_le _))
    have hr : Respaces (fun i => g (i + 1)) (fun i => h (i + 1)) ls.length :=
      ⟨fun i hi => hg (i + 1) (Nat.succ_le_succ hi), fun i hi => hh (i + 1) (Nat.succ_le_succ hi),
        fun i hi => hgap (i + 1) (Nat.succ_pos i) (Nat.succ_lt_succ hi)⟩
    exact .step (hh 0 (Nat.zero_le _)) hne hk (scan_spaced hr hne hl hs)
      (ih hr.before hr.after (fun i _ => hr.closed i) hl)

theorem Lexes.exists_gaps (hl : Lexes text ls) : ∃ g, text = SqlSelect.spaced g (ls.map Lexeme.chars) ∧
    ∀ i ≤ ls.length, ∀ c ∈ g i, isSpace c = true := by
  induction hl with
  | @done gap hg => exact ⟨fun _ => gap, rfl, fun _ _ => hg⟩
  | @step gap l rest ls hg _ _ _ _ ih =>
    obtain ⟨g, rfl, hblank⟩ := ih
    refine ⟨fun i => i.casesOn gap g, rfl, fun i hi => ?_⟩
    cases i with
    | zero => exact hg
    | succ i => exact hblank i (Nat.le_of_succ_le_succ hi)

end

section

variable {text : String} {ls : List Lexeme}

/-- A text is its tokens with this white space before each of them and after the last. -/
def SpacedBy (text : String) (gaps : Nat → List Char) : Prop :=
  text.toList = spaced gaps (tokenTexts text) ∧
    ∀ i ≤ (tokenTexts text).length, ∀ c ∈ gaps i, isSpace c = true

theorem text_of_eof {t : Token} (ht : t ∈ tokenize text) (hk : t.kind = .eof) : t.text = "" :=
  (tiles_tokenize text).text_of_eof ht hk

theorem tokenize_of_lexes (h : Lexes text.toList ls) :
    (tokenize text).map (fun t => (t.kind, t.text)) =
      ls.map (fun l => (l.kind, String.ofList l.chars)) ++ [(.eof, "")] := by
  obtain ⟨front, final, he, rfl, hk⟩ :=
    Lexer.Settled.toTokens_of_lexes (show Lexes (Lexer.ofText text).rest ls from h) ⟨rfl, rfl⟩
  have he : tokenize text = front ++ [final] := he
  have hend : final.text = "" := text_of_eof (by rw [he]; exact List.mem_concat_self) hk
  rw [he, List.map_append, List.map_map]
  simp [Token.lexeme, hk, hend]

theorem exists_lexes (he : ∀ t ∈ tokenize text, t.kind ≠ .error) :
    ∃ ls, Lexes text.toList ls ∧ tokenTexts text = ls.map Lexeme.chars := by
  obtain ⟨front, final, htokens, _, ⟨hk, _⟩ | ⟨hk, _⟩⟩ := tokenize_loads text
  · exact (he final (by rw [htokens]; exact List.mem_concat_self) hk).elim
  · have hs : (Lexer.ofText text).Settled := ⟨rfl, rfl⟩
    refine ⟨front.map Token.lexeme, hs.toTokens_lexes htokens hk, ?_⟩
    rw [tokenTexts, htokens, List.dropLast_concat, List.map_map]
    rfl

/-- A text without an error is its tokens and white space between them, and any other white space
between the same tokens gives the same kinds and texts, as long as no gap opens or closes between
two of them. -/
theorem tokenize_spaced (he : ∀ t ∈ tokenize text, t.kind ≠ .error) :
    (∃ g, SpacedBy text g) ∧ ∀ g h, SpacedBy text g →
      (∀ i ≤ (tokenTexts text).length, ∀ c ∈ h i, isSpace c = true) →
      (∀ i, 0 < i → i < (tokenTexts text).length → (h i = [] ↔ g i = [])) →
      (tokenize (String.ofList (spaced h (tokenTexts text)))).map (fun t => (t.kind, t.text)) =
        (tokenize text).map fun t => (t.kind, t.text) := by
  obtain ⟨ls, hl, htexts⟩ := exists_lexes he
  have hlen : (tokenTexts text).length = ls.length := by rw [htexts, List.length_map]
  unfold SpacedBy
  rw [hlen, htexts]
  refine ⟨hl.exists_gaps, fun g h hg hh hgap => ?_⟩
  have hl' : Lexes (spaced h (ls.map Lexeme.chars)) ls :=
    Lexes.spaced hg.2 hh hgap (hg.1 ▸ hl)
  rw [tokenize_of_lexes hl]
  exact tokenize_of_lexes (by rwa [String.toList_ofList])

theorem tokenize_spaced_lines :
    let text := "a left join b"
    let g : Nat → List Char := fun i => if i = 0 ∨ i = 3 then [] else [' ']
    (∀ t ∈ tokenize text, t.kind ≠ .error) ∧ SpacedBy text g ∧
      spaced (fun _ => ['\n', ' ']) (tokenTexts text) = "\n a\n left join\n b\n ".toList ∧
      (tokenize (String.ofList (spaced (fun _ => ['\n', ' ']) (tokenTexts text)))).map
        (fun t => (t.kind, t.text)) = (tokenize text).map fun t => (t.kind, t.text) := by
  intro text g
  have htokens : tokenize text = [⟨.literal, "a", ⟨1, 1⟩⟩, ⟨.leftJoin, "left join", ⟨1, 3⟩⟩,
      ⟨.literal, "b", ⟨1, 13⟩⟩, ⟨.eof, "", ⟨1, 14⟩⟩] :=
    Lexer.toTokens_of_firstTokens 4 (by decide +kernel) (by decide)
  have htexts : tokenTexts text = ["a".toList, "left join".toList, "b".toList] := by
    rw [tokenTexts, htokens]
    rfl
  have he : ∀ t ∈ tokenize text, t.kind ≠ .error := by
    rw [htokens]
    decide
  have hg : SpacedBy text g := by
    unfold SpacedBy
    rw [htexts]
    refine ⟨by decide, fun i _ c hc => ?_⟩
    by_cases hi : i = 0 ∨ i = 3
    · simp [g, hi] at hc
    · obtain rfl : c = ' ' := by simpa [g, hi] using hc
      decide
  have hblank : ∀ c ∈ ['\n', ' '], isSpace c = true :=
    List.forall_mem_cons.mpr ⟨by decide, List.forall_mem_singleton.mpr (by decide)⟩
  refine ⟨he, hg, by rw [htexts]; rfl, (tokenize_spaced he).2 g _ hg (fun _ _ => hblank) ?_⟩
  intro i hpos hi
  rw [htexts] at hi
  have hi : i < 3 := hi
  have hne : ¬(i = 0 ∨ i = 3) := by omega
  simp [g, hne]

end

end SqlSelect
