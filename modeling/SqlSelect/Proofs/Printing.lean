import SqlSelect.Proofs.Lexing

namespace SqlSelect

/-- Lexemes with a blank before each. -/
def printed (ls : List Lexeme) : List Char := ls.flatMap fun l => ' ' :: l.chars

theorem blankAhead_printed (ls : List Lexeme) : BlankAhead (printed ls) := by
  cases ls with
  | nil => exact nofun
  | cons l ls => simp [BlankAhead, printed]

/-- What is printed is a blank, and the texts with one blank between every two. -/
theorem printed_lexemes {tokens : List Token} (h : tokens ≠ []) :
    printed (tokens.map Token.lexeme) =
      ' ' :: (String.intercalate " " (tokens.map (·.text))).toList := by
  rw [String.toList_intercalate, List.map_map]
  induction tokens with
  | nil => exact (h rfl).elim
  | cons k rest ih =>
    cases rest with
    | nil => simp [printed, Token.lexeme]
    | cons k' rest =>
      have hrest := ih (List.cons_ne_nil k' rest)
      simp only [List.map_cons, printed, List.flatMap_cons] at hrest ⊢
      rw [List.intercalate_cons_cons, hrest]
      simp [Token.lexeme]

/-- The first lexemes of a list can be told apart when they are printed: none is the name of a
function or a word spelt like a keyword, and no third name follows two. -/
structure Printable (ls : List Lexeme) (n : Nat) : Prop where
  not_function : ∀ l ∈ ls.take n, l.kind.isFunction = false
  not_keyword : ∀ l ∈ ls.take n, l.kind = .literal → headIs isWordStart l.chars = true →
    keywords.lookup (lowered l.chars) = none
  not_third {i : Nat} {l l' l'' : Lexeme} : i + 1 < n → ls[i]? = some l → ls[i + 1]? = some l' →
    ls[i + 2]? = some l'' → l.kind = .literal → l'.kind = .literal →
    l''.kind ∉ TokenKind.names

variable {text rest w : List Char} {ls : List Lexeme} {l : Lexeme} {n : Nat}

theorem Printable.tail (h : Printable (l :: ls) (n + 1)) : Printable ls n := by
  refine ⟨fun m hm => h.not_function m (List.mem_cons_of_mem l hm),
    fun m hm => h.not_keyword m (List.mem_cons_of_mem l hm), fun {i _ _ _} hi h₁ h₂ h₃ => ?_⟩
  exact h.not_third (i := i + 1) (by omega) h₁ h₂ h₃

/-- Blanks before a text are passed over. -/
theorem Lexes.of_blank (h : Lexes (' ' :: text) ls) :
    Lexes text ls := by
  generalize hb : ' ' :: text = blank at h
  cases h with
  | done hg => exact .done fun c hc => hg c (hb ▸ List.mem_cons_of_mem _ hc)
  | @step gap l rest ls hg hne hk hs hl =>
    cases gap with
    | nil =>
      rw [List.nil_append] at hb
      rw [← hb] at hs
      exact (Reading.flaw_ne_token ((scan_of_isSpace rfl).symm.trans hs)).elim
    | cons c gap =>
      obtain ⟨_, rfl⟩ := List.cons.inj hb
      exact .step (fun d hd => hg d (List.mem_cons_of_mem c hd)) hne hk hs hl

/-- What stands after a word is a boundary, unless a token comes that opens without one. -/
theorem Lexes.atBoundary (h : Lexes text ls) (hr : headIs isWordChar text = false)
    (hn : ∀ l, ls[0]? = some l → l.kind ∉ TokenKind.names) :
    atBoundary text = true := by
  cases h with
  | done hg =>
    cases text with
    | nil => rfl
    | cons c text => exact (Bool.or_eq_true _ _).mpr (.inl (hg c List.mem_cons_self))
  | @step gap l rest ls hg hne hk hs hl =>
    cases gap with
    | cons c gap => exact (Bool.or_eq_true _ _).mpr (.inl (hg c List.mem_cons_self))
    | nil =>
      obtain ⟨c, w, hc⟩ := List.exists_cons_of_ne_nil hne
      rw [hc] at hr hs ⊢
      cases hsymbol : startsSymbol c with
      | true => exact (Bool.or_eq_true _ _).mpr (.inr hsymbol)
      | false => exact (hn l rfl (scan_opening hr hsymbol hs)).elim

/-- No keyword begins with a word that has been a literal, where a blank comes after it. -/
theorem Lexes.compound?_printed (h : Lexes rest ls) (hw : ∀ c ∈ w, isWordChar c = true)
    (hr : headIs isWordChar rest = false) (hn : compound? (w ++ rest) = none)
    (hf : ∀ l ∈ ls.take n, l.kind.isFunction = false)
    (ha : 0 < n → ∀ l l', ls[0]? = some l → ls[1]? = some l' → l.kind = .literal →
      l'.kind ∉ TokenKind.names) :
    compound? (w ++ printed (ls.take n)) = none := by
  have hend : compound? (w ++ []) = none := by
    rw [compound?_eq, afterWord_append hw rfl]
    rfl
  cases n with
  | zero => exact hend
  | succ n =>
    cases h with
    | done => exact hend
    | @step gap l rest ls hg hne hk hs hl =>
      refine compound?_respaced_none hw hn hg hr hne (hf l List.mem_cons_self) hs
        (blankAhead_printed (ls.take n)) fun hk hr => ?_
      exact hl.atBoundary hr fun l' h' => ha n.succ_pos l l' rfl h' hk

/-- The first tokens of a text are read again from their texts with a blank before each. -/
theorem Lexes.respaced (h : Lexes text ls) (hp : Printable ls n) :
    Lexes (printed (ls.take n)) (ls.take n) := by
  induction h generalizing n with
  | done =>
    rw [List.take_nil]
    exact .done nofun
  | @step gap l rest ls hg hne hk hs hl ih =>
    cases n with
    | zero => exact .done nofun
    | succ n =>
      have hscan := scan_respaced (blankAhead_printed (ls.take n)) hne
        (hp.not_function l List.mem_cons_self) (fun hc hk => ?_) hs
      · have hstep : Lexes ([' '] ++ (l.chars ++ printed (ls.take n))) (l :: ls.take n) :=
          .step (List.forall_mem_singleton.mpr rfl) hne hk hscan (ih hp.tail)
        exact hstep
      · refine ⟨hp.not_keyword l List.mem_cons_self hk hc, ?_⟩
        obtain ⟨c, w, hchars⟩ := List.exists_cons_of_ne_nil hne
        rw [hchars] at hc hs ⊢
        rw [hk] at hs
        obtain ⟨hword, hw, hr⟩ := scan_bare_parts hc hs
        refine hl.compound?_printed hw hr ?_ hp.tail.not_function fun hn l' l'' h' h'' hk' => ?_
        · simp only [word?, Option.orElse_eq_orElse, Option.orElse_eq_or, Option.or_eq_none_iff]
            at hword
          exact hword.2.1
        · exact hp.not_third (i := 0) (by omega) rfl h' h'' hk hk'

end SqlSelect
