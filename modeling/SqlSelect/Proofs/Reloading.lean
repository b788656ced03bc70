import SqlSelect.Proofs.Moving
import SqlSelect.Proofs.NormalForm
import SqlSelect.Proofs.Printing

namespace SqlSelect

/-- A token that reads as itself between blanks: it is not the name of a function, and not a bare
word spelt like a keyword. -/
structure Token.StandsAlone (t : Token) : Prop where
  not_function : t.kind.isFunction = false
  not_keyword : t.kind = .literal → t.text.toList.head? ≠ some '\x60' →
    t.text.toLower ∉ keywords.map Prod.fst

theorem Token.StandsAlone.lookup_eq_none {t : Token} (h : t.StandsAlone) (hk : t.kind = .literal)
    (hs : headIs isWordStart t.text.toList = true) :
    keywords.lookup (lowered t.text.toList) = none := by
  have hq : t.text.toList.head? ≠ some '\x60' := by
    intro hq
    obtain ⟨rest, hrest⟩ := List.head?_eq_some_iff.mp hq
    rw [hrest] at hs
    have hquote : isWordStart '\x60' = true := hs
    revert hquote
    decide
  have hl : lowered t.text.toList = t.text.toLower := by
    rw [← String.toList_inj]
    simp [lowered, toList_toLower]
  rw [hl]
  refine List.lookup_eq_none_iff.mpr fun p hp => ?_
  exact bne_iff_ne.mpr fun he => h.not_keyword hk hq (he ▸ List.mem_map_of_mem hp)

namespace TokenList

variable {ts : TokenList} {e i : Nat}

def lexemes (ts : TokenList) : List Lexeme := ts.front.toList.map Token.lexeme

theorem length_lexemes (ts : TokenList) : ts.lexemes.length + 1 = ts.size := by
  simp [lexemes, size]

theorem getElem?_lexemes (h : i + 1 < ts.size) : ts.lexemes[i]? = some (ts.token i).lexeme := by
  have hi : i < ts.front.size := Nat.lt_of_succ_lt_succ h
  simp [lexemes, token, hi]

theorem getElem?_lexemes_eq_some {l : Lexeme} (h : ts.lexemes[i]? = some l) :
    l = (ts.token i).lexeme := by
  have hi := (List.getElem?_eq_some_iff.mp h).1
  have hlen := ts.length_lexemes
  rw [getElem?_lexemes (by omega)] at h
  exact (Option.some.inj h).symm

/-- The tokens of a query can be told apart when they are printed. -/
theorem Spells.printable (h : ts.Spells (.part .query) 0 (e + 1))
    (hend : (ts.kind (e + 1)).asEnd = .eof)
    (ha : ∀ i, i ≤ e → (ts.token i).StandsAlone) : Printable ts.lexemes (e + 1) := by
  have halone : ∀ l ∈ ts.lexemes.take (e + 1), ∃ i, i ≤ e ∧ l = (ts.token i).lexeme := by
    intro l hl
    obtain ⟨i, hi⟩ := List.mem_iff_getElem?.mp hl
    rw [List.getElem?_take] at hi
    split at hi
    next hlt => exact ⟨i, by omega, getElem?_lexemes_eq_some hi⟩
    next => cases hi
  refine ⟨fun l hl => ?_, fun l hl hk hs => ?_, fun {i _ _ _} hi h₁ h₂ h₃ hk₁ hk₂ => ?_⟩
  · obtain ⟨i, hi, rfl⟩ := halone l hl
    exact (ha i hi).not_function
  · obtain ⟨i, hi, rfl⟩ := halone l hl
    exact (ha i hi).lookup_eq_none hk hs
  · obtain rfl := getElem?_lexemes_eq_some h₁
    obtain rfl := getElem?_lexemes_eq_some h₂
    obtain rfl := getElem?_lexemes_eq_some h₃
    by_cases hlast : i + 2 < e + 1
    · exact h.not_third hlast hk₁ hk₂
    · obtain rfl : e = i + 1 := by omega
      intro hmem
      revert hend
      show ¬(ts.kind (i + 2)).asEnd = .eof
      revert hmem
      show ts.kind (i + 2) ∈ _ → _
      generalize ts.kind (i + 2) = k
      cases k <;> decide

end TokenList

/-- A text that is parsed is read as the tokens it is parsed with. -/
theorem lexes_of_parse {text : String} {options : Options} {t : Tree}
    (h : parse text options = .ok t) :
    Lexes text.toList t.source.lexemes ∧ (Parser.mk t.source options).parse = .ok t := by
  obtain ⟨front, final, he, -, ⟨-, hs⟩ | ⟨hk, ts, hfront, -, hs⟩⟩ := tokenize_loads text
  · cases (hs options).symm.trans h
  · rw [hs] at h
    obtain rfl : t.source = ts := (Parser.parse_eq_ok.mp h).2.1
    have hlexes : Lexes (Lexer.ofText text).rest (front.map Token.lexeme) :=
      Lexer.Settled.toTokens_lexes ⟨rfl, rfl⟩ he hk
    refine ⟨?_, h⟩
    rw [TokenList.lexemes, hfront]
    exact hlexes

theorem parse_of_lexes {text : String} {ls : List Lexeme} (h : Lexes text.toList ls) :
    ∃ ts : TokenList, ts.lexemes = ls ∧
      ∀ options, parse text options = (Parser.mk ts options).parse := by
  obtain ⟨front, final, he, hfront, hfinal⟩ :=
    Lexer.Settled.toTokens_of_lexes (show Lexes (Lexer.ofText text).rest ls from h) ⟨rfl, rfl⟩
  obtain ⟨front', final', he', -, hs⟩ := tokenize_loads text
  obtain ⟨rfl, hlast⟩ := List.append_inj' (he.symm.trans he') rfl
  obtain rfl := List.singleton_inj.mp hlast
  rcases hs with ⟨hk, -⟩ | ⟨-, ts, hts, -, hs⟩
  · cases hk.symm.trans hfinal
  · exact ⟨ts, by simp [TokenList.lexemes, hts, hfront], hs⟩

end SqlSelect
