import SqlSelect.Proofs.Acceptance
import SqlSelect.Proofs.CarriedQuery
import SqlSelect.Proofs.IndexSafety
import SqlSelect.Proofs.Reloading

namespace SqlSelect

namespace Node

mutual

theorem move_origin : (n : Node) → n.move 0 0 = n
  | ⟨kind, first, last, children⟩ => by
    rw [move, moveAll_origin children, moved_self (Nat.zero_le _), moved_self (Nat.zero_le _)]

theorem moveAll_origin : (ns : List Node) → moveAll 0 0 ns = ns
  | [] => rfl
  | n :: rest => by rw [moveAll, move_origin n, moveAll_origin rest]

end

variable {ts ts' : TokenList} {n : Node}

/-- The limit depends on the texts of the children only. -/
theorem limit?_eq
    (h : ∀ c ∈ n.children, (ts'.token c.first).text = (ts.token c.first).text) :
    n.limit? ts' = n.limit? ts := by
  unfold limit?
  split
  next => rfl
  next =>
    match hc : n.children with
    | [] => rfl
    | [rows] =>
      have hrows := h rows (by simp [hc])
      simp only [firstValue?, hrows]
    | rows :: offset :: _ =>
      have hrows := h rows (by simp [hc])
      have hoffset := h offset (by simp [hc])
      simp only [firstValue?, hrows, hoffset]

theorem tokens_ne_nil (h : n.first ≤ n.last) : n.tokens ts ≠ [] := by
  have hlen : n.last + 1 - n.first ≠ 0 := by omega
  simpa [tokens, TokenList.span] using hlen

theorem text_eq
    (h : ∀ i, n.first ≤ i → i ≤ n.last → (ts'.token i).text = (ts.token i).text) :
    n.text ts' = n.text ts := by
  unfold text tokens TokenList.span
  rw [List.map_map, List.map_map]
  refine congrArg _ (List.map_congr_left fun i hi => ?_)
  obtain ⟨hfirst, hlast⟩ := List.mem_range'_1.mp hi
  exact h i hfirst (by omega)

end Node

namespace TokenList

variable {ts ts' : TokenList} {e i : Nat}

theorem lexemes_of_covers {n : Node} (hfirst : n.first = 0) (h : ts.Covers n.first n.last) :
    (n.tokens ts).map Token.lexeme = ts.lexemes.take (n.last + 1) := by
  have hlt := h.succ_lt_size
  have hle : n.last + 1 ≤ ts.front.toList.length := by
    rw [Array.length_toList]
    exact Nat.le_of_lt_succ hlt
  rw [Node.tokens_eq_of_covers h, hfirst, List.drop_zero, Nat.sub_zero, toList,
    List.take_append_of_le_length hle, List.map_take, lexemes]

theorem size_le_of_kind_eof (h : ∀ l ∈ ts.lexemes, l.kind.isTerminal = false)
    (hk : ts.kind i = .eof) : ts.size ≤ i + 1 := by
  by_cases hi : i + 1 < ts.size
  · have hn := h _ (List.mem_of_getElem? (getElem?_lexemes hi))
    have hk : (ts.token i).lexeme.kind = .eof := hk
    rw [hk] at hn
    cases hn
  · omega

/-- A list has the tokens of another up to an index, and no more. -/
structure Cut (ts ts' : TokenList) (e : Nat) : Prop where
  lexemes_eq : ts'.lexemes = ts.lexemes.take (e + 1)
  lt_size : e + 1 < ts.size

namespace Cut

variable (h : ts.Cut ts' e)

include h

theorem size_eq : ts'.size = e + 2 := by
  have hlen := ts.length_lexemes
  have hlt := h.lt_size
  rw [← length_lexemes, h.lexemes_eq, List.length_take_of_le (by omega)]

theorem lexeme_eq (hi : i ≤ e) : (ts'.token i).lexeme = (ts.token i).lexeme := by
  have hsize := h.size_eq
  have hlt := h.lt_size
  have hl : ts'.lexemes[i]? = some (ts'.token i).lexeme := getElem?_lexemes (by omega)
  rw [h.lexemes_eq, List.getElem?_take_of_lt (by omega), getElem?_lexemes (by omega)] at hl
  exact (Option.some.inj hl).symm

theorem kind_eq (hi : i ≤ e) : ts'.kind i = ts.kind i := congrArg Lexeme.kind (h.lexeme_eq hi)

theorem text_eq (hi : i ≤ e) : (ts'.token i).text = (ts.token i).text := by
  rw [← String.toList_inj]
  exact congrArg Lexeme.chars (h.lexeme_eq hi)

/-- What is found in the tokens of a cut list is found there too, if the other list ends where it
is cut. -/
theorem carries (h₁ : (ts.kind (e + 1)).asEnd = .eof) (h₂ : ts.kind (e + 2) = .eof) :
    ts.Carries ts' 0 0 e := by
  have hsize := h.size_eq
  refine ⟨fun {i} _ hi => ?_, fun {i} _ hi => ?_, fun {i} _ hi => ?_⟩
  · rw [moved_self (Nat.zero_le i), h.kind_eq hi]
  · rw [moved_self (Nat.zero_le i), h.text_eq hi]
  · rw [moved_self (Nat.zero_le i)]
    by_cases hlast : i ≤ e
    · rw [h.kind_eq hlast]
    · rw [kind_of_size_le (by omega)]
      obtain rfl | rfl : i = e + 1 ∨ i = e + 2 := by omega
      · exact h₁.symm
      · rw [h₂]

end Cut

end TokenList

namespace Parser

variable {ts ts' : TokenList} {options : Options} {n : Node}

/-- After a query that is all of the tokens comes an end of input, or a semicolon and then one. -/
theorem ends_of_complete (hf : ∀ l ∈ ts.lexemes, l.kind.isTerminal = false)
    (ho : options.allowTrailingInput = false) (h : (Parser.mk ts options).complete = .ok n) :
    (ts.kind (n.last + 1)).asEnd = .eof ∧ ts.kind (n.last + 2) = .eof := by
  have hend : ts.kind (queryEnd ts n.last) = .eof := by
    rcases (complete_eq_ok.mp h).2 with ht | hend
    · cases ho.symm.trans ht
    · exact hend
  unfold queryEnd at hend
  split at hend
  next hk => exact ⟨by rw [hk]; rfl, hend⟩
  next =>
    have hsize := TokenList.size_le_of_kind_eof hf hend
    exact ⟨by rw [hend]; rfl, TokenList.kind_of_size_le (by omega)⟩

/-- A query that is all of the tokens is found among its own tokens alone. -/
theorem complete_of_cut (hf : ∀ l ∈ ts.lexemes, l.kind.isTerminal = false)
    (ho : options.allowTrailingInput = false) (h : (Parser.mk ts options).complete = .ok n)
    (hcut : ts.Cut ts' n.last) : (Parser.mk ts' options).complete = .ok n := by
  obtain ⟨h₁, h₂⟩ := ends_of_complete hf ho h
  have hq := Production.run_carried (hcut.carries h₁ h₂) .query (Nat.le_refl 0) (Nat.zero_le _)
    (Nat.le_refl _) (complete_eq_ok.mp h).1
  rw [moved_self (Nat.le_refl 0), Node.move_origin] at hq
  have hk : ts'.kind (n.last + 1) = .eof := TokenList.kind_of_size_le (Nat.le_of_eq hcut.size_eq)
  refine complete_eq_ok.mpr ⟨hq, .inr ?_⟩
  show ts'.kind (queryEnd ts' n.last) = .eof
  rw [queryEnd, if_neg (by rw [hk]; exact nofun), hk]

/-- The text of a query is read as the tokens of the query. -/
theorem lexes_text {text : List Char} (hl : Lexes text ts.lexemes)
    (ho : options.allowTrailingInput = false) (h : (Parser.mk ts options).complete = .ok n)
    (ha : ∀ k ∈ n.tokens ts, k.StandsAlone) :
    Lexes (n.text ts).toList (ts.lexemes.take (n.last + 1)) := by
  have hq := (complete_eq_ok.mp h).1
  have hfirst : n.first = 0 := (Stretch.Fits.role_iff.mp
    (Production.run_makes (by decide) ts options.maxDepth 0 n hq)).2.1
  have hcovers : ts.Covers n.first n.last := (Production.run_inBounds hq).root.covers
  have hspells : ts.Spells (.part .query) 0 (n.last + 1) := Production.run_spells (by decide) hq
  have hprintable : Printable ts.lexemes (n.last + 1) := by
    refine hspells.printable (ends_of_complete hl.not_terminal ho h).1 fun i hi => ha _ ?_
    have hmem : i ∈ List.range' n.first (n.last + 1 - n.first) :=
      List.mem_range'_1.mpr ⟨by omega, by omega⟩
    exact List.mem_map_of_mem hmem
  have hprinted := hl.respaced hprintable
  rw [← TokenList.lexemes_of_covers hfirst hcovers,
    printed_lexemes (Node.tokens_ne_nil hcovers.le)] at hprinted
  rw [← TokenList.lexemes_of_covers hfirst hcovers]
  exact hprinted.of_blank

end Parser

/-- A query that is parsed from a text is parsed from its own text, as the same tree with the same
limits and the same text, unless it has names of functions in it, or bare words spelt like
keywords. -/
theorem parse_text {text : String} {options : Options} {t : Tree}
    (ho : options.allowTrailingInput = false) (h : parse text options = .ok t)
    (ha : ∀ k ∈ t.root.tokens t.source, k.StandsAlone) :
    ∃ t', parse (t.root.text t.source) options = .ok t' ∧ t'.root = t.root ∧
      t'.root.preorder.map (·.limit? t'.source) = t.root.preorder.map (·.limit? t.source) ∧
      t'.root.text t'.source = t.root.text t.source := by
  obtain ⟨ts, n⟩ := t
  obtain ⟨hlexes, hp⟩ := lexes_of_parse h
  have hc := (Parser.parse_eq_ok.mp hp).2.2
  have hbounds := Production.run_inBounds (Parser.complete_eq_ok.mp hc).1
  obtain ⟨ts', hl, hparse⟩ := parse_of_lexes (Parser.lexes_text hlexes ho hc ha)
  have hcut : ts.Cut ts' n.last := ⟨hl, hbounds.root.covers.succ_lt_size⟩
  have hsize := hcut.size_eq
  have hc' := Parser.complete_of_cut hlexes.not_terminal ho hc hcut
  have hbounds' : n.All (Node.InBounds ts') :=
    Production.run_inBounds (Parser.complete_eq_ok.mp hc').1
  refine ⟨⟨ts', n⟩, ?_, rfl, ?_, Node.text_eq fun i _ => hcut.text_eq⟩
  · rw [hparse options]
    exact Parser.parse_eq_ok.mpr ⟨by rw [hsize]; omega, rfl, hc'⟩
  · have hlimit : n.All fun m => m.limit? ts' = m.limit? ts := by
      refine hbounds'.nested.mono fun m hm => Node.limit?_eq fun c hc => hcut.text_eq ?_
      have hcovers := (hm.child hc).root.covers
      have := hcovers.le
      have := hcovers.succ_lt_size
      omega
    exact List.map_congr_left (Node.forall_preorder_iff.mpr hlimit)

theorem parse_text_of_semicolon :
    let text := "SELECT a\n  FROM t ;"
    ∃ t, parse text {} = .ok t ∧ (∀ k ∈ t.root.tokens t.source, k.StandsAlone) ∧
      t.root.text t.source = "SELECT a FROM t" ∧
      ∃ t', parse (t.root.text t.source) {} = .ok t' ∧ t'.root = t.root ∧
        t'.root.preorder.map (·.limit? t'.source) = t.root.preorder.map (·.limit? t.source) ∧
        t'.root.text t'.source = t.root.text t.source := by
  intro text
  let front : List Token := [⟨.select, "SELECT", ⟨1, 1⟩⟩, ⟨.literal, "a", ⟨1, 8⟩⟩,
    ⟨.from, "FROM", ⟨2, 3⟩⟩, ⟨.literal, "t", ⟨2, 8⟩⟩, ⟨.semicolon, ";", ⟨2, 10⟩⟩]
  let ts : TokenList := ⟨front.toArray, ⟨.eof, "", ⟨2, 11⟩⟩, rfl, by decide⟩
  have htokens : tokenize text = front ++ [ts.final] := by
    unfold tokenize
    iterate 5 rw [Lexer.toTokens_of_not_terminal (by decide +kernel)]
    rw [Lexer.toTokens_of_terminal (by decide +kernel)]
    decide +kernel
  have hload : parse text {} = (Parser.mk ts {}).parse := by
    rw [parse, Parser.ofText, htokens]
    rfl
  have hparse : (Parser.mk ts {}).parse = .ok _ := rfl
  have ha : ∀ k ∈ front.take 4, k.StandsAlone := by
    have hkeyword {k : Token} (hf : k.kind.isFunction = false) (hk : k.kind ≠ .literal) :
        k.StandsAlone := ⟨hf, fun h => (hk h).elim⟩
    have hname {k : Token} (hf : k.kind.isFunction = false)
        (hk : k.text.toLower ∉ keywords.map Prod.fst) : k.StandsAlone := ⟨hf, fun _ _ => hk⟩
    simp only [front, List.take_succ_cons, List.take_zero, List.forall_mem_cons]
    exact ⟨hkeyword rfl (by decide), hname rfl (by decide +kernel), hkeyword rfl (by decide),
      hname rfl (by decide +kernel), List.forall_mem_nil _⟩
  have h := hload.trans hparse
  exact ⟨_, h, ha, by decide +kernel, parse_text rfl h ha⟩

end SqlSelect
