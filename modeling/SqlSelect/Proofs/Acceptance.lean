import SqlSelect.Proofs.Derivation
import SqlSelect.Proofs.QueryReading
import SqlSelect.Proofs.Sentence

namespace SqlSelect

variable {ts : TokenList} {a depth : Nat}

/-- The number of parentheses that open from an index on. -/
def TokenList.openings (ts : TokenList) (a : Nat) : Nat :=
  (ts.slice a ts.size).countP (·.kind == .leftParen)

theorem TokenList.openings_succ_le {p : Nat} (ha : a ≤ p) (ho : ts.kind p = .leftParen) :
    ts.openings (p + 1) + 1 ≤ ts.openings a := by
  have hp : p + 1 < ts.size := lt_size_of_kind (by simp [ho])
  have hk : (ts.token p).kind = .leftParen := ho
  unfold openings
  rw [← slice_append ha (show p ≤ ts.size by omega), slice_cons (show p < ts.size by omega),
    List.countP_append, List.countP_cons, hk]
  exact Nat.le_add_left _ _

/-- A depth of as many levels as parentheses open is enough. -/
theorem nested_reads (h : ts.openings a ≤ depth) : (nested ts depth).Reads ts a := by
  induction depth generalizing a with
  | zero =>
    intro blame e p ha ho
    have := TokenList.openings_succ_le ha ho
    omega
  | succ depth ih =>
    intro blame e p ha ho
    have := TokenList.openings_succ_le ha ho
    have hn : (nested ts depth).Reads ts (p + 1) := ih (by omega)
    cases e with
    | selectQuery => exact Rule.selectQuery_reads hn
    | condition => exact Rule.condition_reads hn
    | expression => exact Rule.expression_reads hn

theorem Production.run_spells {part : Production} (hp : part ≠ .parenthesis) {start : Nat}
    {n : Node} (h : part.run ts depth start = .ok n) :
    ts.Spells part.nodeKind.phrase start (n.last + 1) := by
  obtain ⟨hk, rfl, _, hl⟩ := Stretch.Fits.role_iff.mp (part.run_makes hp ts depth start n h)
  exact hl.spells (.of part.nodeKind) hk

namespace Parser

variable {p : Parser}

theorem complete_eq_ok_iff (ht : p.options.allowTrailingInput = false)
    (hd : p.tokens.openings 0 ≤ p.options.maxDepth) : (∃ n, p.complete = .ok n) ↔
      ∃ j, p.tokens.Spells (.part .query) 0 j ∧
        (p.tokens.kind j = .eof ∨
          p.tokens.kind j = .semicolon ∧ p.tokens.kind (j + 1) = .eof) := by
  have hend (last : Nat) : p.tokens.kind (queryEnd p.tokens last) = .eof ↔
      p.tokens.kind (last + 1) = .eof ∨
        p.tokens.kind (last + 1) = .semicolon ∧ p.tokens.kind (last + 2) = .eof := by
    unfold queryEnd
    split
    next hk => simp [hk]
    next hk => simp [hk]
  constructor
  · rintro ⟨n, h⟩
    obtain ⟨query, hq, h⟩ := bind_eq_ok.mp h
    rw [ht, Bool.false_or] at h
    split at h
    next he =>
      refine ⟨query.last + 1, Production.run_spells (by decide) hq, ?_⟩
      exact (hend query.last).mp (of_decide_eq_true he)
    next => cases h
  · rintro ⟨j, hs, he⟩
    have hj : p.tokens.kind j ∉ Nonterminal.query.extending := by
      rcases he with he | ⟨he, _⟩ <;> rw [he] <;> decide
    obtain ⟨query, hq, rfl⟩ := Rule.query_reads (nested_reads hd) 0 j (Nat.le_refl 0) hs hj
    refine ⟨query, bind_eq_ok.mpr ⟨query, hq, if_pos ?_⟩⟩
    rw [ht, Bool.false_or]
    exact decide_eq_true ((hend query.last).mpr he)

theorem parse_eq_ok_iff : (∃ t, p.parse = .ok t) ↔ 1 < p.tokens.size ∧ ∃ n, p.complete = .ok n := by
  unfold parse
  split
  next h => exact ⟨nofun, fun hn => by omega⟩
  next h =>
    cases p.complete with
    | error f => exact ⟨nofun, nofun⟩
    | ok n => exact ⟨fun _ => ⟨by omega, n, rfl⟩, fun _ => ⟨_, rfl⟩⟩

end Parser

/-- The tokens before the first end of input are a sentence, and maybe a semicolon after it. -/
theorem TokenList.takeWhile_sentence_iff {n : Nonterminal} :
    (∃ w, n.Sentence w ∧ (ts.toList.takeWhile (!·.isEof) = w ∨
      ∃ t : Token, t.kind = .semicolon ∧ ts.toList.takeWhile (!·.isEof) = w ++ [t])) ↔
    ∃ j, ts.Spells (.part n) 0 j ∧
      (ts.kind j = .eof ∨ ts.kind j = .semicolon ∧ ts.kind (j + 1) = .eof) := by
  obtain ⟨m, hm, he, hl⟩ := ts.takeWhile_eq_slice
  rw [hm]
  constructor
  · rintro ⟨w, hw, rfl | ⟨t, ht, hs⟩⟩
    · exact ⟨m, (sentence_slice (Nat.zero_le m)).mp hw, .inl he⟩
    · cases m with
      | zero =>
        rw [slice_of_le (Nat.le_refl 0)] at hs
        exact (List.append_ne_nil_of_right_ne_nil w (List.cons_ne_nil t []) hs.symm).elim
      | succ j =>
        rw [slice_succ (Nat.zero_le j)] at hs
        obtain ⟨rfl, hone⟩ := List.append_inj' hs rfl
        obtain ⟨rfl, -⟩ := List.cons.inj hone
        exact ⟨j, (sentence_slice (Nat.zero_le j)).mp hw, .inr ⟨ht, he⟩⟩
  · rintro ⟨j, hs, hj⟩
    have hw := (sentence_slice (Nat.zero_le j)).mpr hs
    have hjm : j ≤ m := Nat.le_of_not_lt fun h => hs.kind_ne_eof rfl (Nat.zero_le m) h he
    rcases hj with hj | ⟨hsemi, hj⟩
    · have hmj : m ≤ j := Nat.le_of_not_lt fun h => hl j h hj
      rw [Nat.le_antisymm hmj hjm]
      exact ⟨_, hw, .inl rfl⟩
    · have hmj : m ≤ j + 1 := Nat.le_of_not_lt fun h => hl (j + 1) h hj
      have hne : m ≠ j := fun h => by
        rw [h, hsemi] at he
        cases he
      obtain rfl : m = j + 1 := by omega
      rw [slice_succ (Nat.zero_le j)]
      exact ⟨_, hw, .inr ⟨_, hsemi, rfl⟩⟩

theorem TokenList.takeWhile_toList {tokens : List Token} (h : ofTokens tokens = .ok ts) :
    ts.toList.takeWhile (!·.isEof) = tokens.takeWhile (!·.isEof) := by
  rcases toList_of_ofTokens h with h | ⟨t, ht, h⟩
  · rw [h]
  · rw [h, List.takeWhile_append]
    split
    next hl =>
      rw [List.takeWhile_cons_of_neg (by simp [ht]), List.append_nil]
      exact ((List.takeWhile_prefix _).eq_of_length hl).symm
    next => rfl

theorem TokenList.openings_ofTokens {tokens : List Token} (h : ofTokens tokens = .ok ts) :
    ts.openings 0 = tokens.countP (·.kind == .leftParen) := by
  rw [openings, slice_size]
  rcases toList_of_ofTokens h with h | ⟨t, ht, h⟩
  · rw [h]
  · have hk : t.kind = .eof := by simpa [Token.isEof] using ht
    simp [h, hk]

namespace Parser

variable {p : Parser}

/-- A token list has a tree just if the tokens before its first end of input are a query, with or
without a semicolon after it. -/
theorem parse_succeeds_iff {tokens : List Token} {options : Options}
    (hp : ofTokens tokens options = .ok p) (ht : options.allowTrailingInput = false)
    (hd : tokens.countP (·.kind == .leftParen) ≤ options.maxDepth) :
    (∃ t, p.parse = .ok t) ↔ ∃ w, Nonterminal.query.Sentence w ∧
      (tokens.takeWhile (!·.isEof) = w ∨
        ∃ t : Token, t.kind = .semicolon ∧ tokens.takeWhile (!·.isEof) = w ++ [t]) := by
  obtain ⟨ts, hts, h⟩ := bind_eq_ok.mp hp
  cases h
  have hfront := TokenList.takeWhile_toList hts
  have hcount := TokenList.openings_ofTokens hts
  rw [← hfront, TokenList.takeWhile_sentence_iff, parse_eq_ok_iff,
    complete_eq_ok_iff ht (hcount ▸ hd)]
  refine ⟨fun h => h.2, fun h => ⟨?_, h⟩⟩
  obtain ⟨j, hs, _⟩ := h
  have := hs.lt_size rfl rfl
  have := TokenList.Spells.lt hs rfl
  show 1 < ts.size
  omega

theorem parse_succeeds_iff_of_semicolon :
    let tokens : List Token := [⟨.select, "SELECT", ⟨1, 1⟩⟩, ⟨.leftParen, "(", ⟨1, 8⟩⟩,
      ⟨.literal, "a", ⟨1, 9⟩⟩, ⟨.rightParen, ")", ⟨1, 10⟩⟩, ⟨.from, "FROM", ⟨1, 12⟩⟩,
      ⟨.literal, "t", ⟨1, 17⟩⟩, ⟨.semicolon, ";", ⟨1, 18⟩⟩]
    tokens.countP (·.kind == .leftParen) ≤ 1 ∧ ∃ w, Nonterminal.query.Sentence w ∧
      (tokens.takeWhile (!·.isEof) = w ∨
        ∃ t : Token, t.kind = .semicolon ∧ tokens.takeWhile (!·.isEof) = w ++ [t]) := by
  intro tokens
  have hp : ofTokens tokens ⟨1, false⟩ = .ok ⟨⟨tokens.toArray, ⟨.eof, "", ⟨1, 19⟩⟩, rfl, by decide⟩,
    ⟨1, false⟩⟩ := rfl
  exact ⟨by decide, (parse_succeeds_iff hp rfl (by decide)).mp ⟨_, rfl⟩⟩

end Parser

end SqlSelect
