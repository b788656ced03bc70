import SqlSelect.Proofs.Fusing
import SqlSelect.Proofs.Loading

namespace SqlSelect

/-- A token wherever it stands. -/
structure Lexeme where
  kind : TokenKind
  chars : List Char

def Token.lexeme (t : Token) : Lexeme := ⟨t.kind, t.text.toList⟩

/-- A text is white space and what is read as tokens in turn, none of them terminal. -/
inductive Lexes : List Char → List Lexeme → Prop
  | done {gap} : (∀ c ∈ gap, isSpace c = true) → Lexes gap []
  | step {gap l rest ls} : (∀ c ∈ gap, isSpace c = true) → l.chars ≠ [] →
      l.kind.isTerminal = false → scan (l.chars ++ rest) = .token l.chars.length l.kind →
      Lexes rest ls → Lexes (gap ++ (l.chars ++ rest)) (l :: ls)

/-- From a place on, a text is white space and what is read as tokens in turn, each at its own
place, up to the end of the text. -/
inductive Reads : Position → List Char → List Token → Prop
  | done {p gap} : (∀ c ∈ gap, isSpace c = true) → Reads p gap [⟨.eof, "", p.after gap⟩]
  | step {p gap w rest k ts} : (∀ c ∈ gap, isSpace c = true) → w ≠ [] → k.isTerminal = false →
      scan (w ++ rest) = .token w.length k → Reads ((p.after gap).after w) rest ts →
      Reads p (gap ++ (w ++ rest)) (⟨k, String.ofList w, p.after gap⟩ :: ts)

section

variable {text : List Char} {ls : List Lexeme} {p : Position} {ts : List Token}

theorem Lexes.not_terminal (h : Lexes text ls) : ∀ l ∈ ls, l.kind.isTerminal = false := by
  induction h with
  | done => exact nofun
  | step _ _ hk _ _ ih => exact List.forall_mem_cons.mpr ⟨hk, ih⟩

theorem Reads.tokens_ne_nil (h : Reads p text ts) : ts ≠ [] := by
  cases h <;> exact List.cons_ne_nil _ _

theorem Reads.lexes (h : Reads p text ts) : Lexes text (ts.dropLast.map Token.lexeme) := by
  induction h with
  | done hg => exact .done hg
  | @step p gap w rest k ts hg hne hk hs h ih =>
    have hlexeme : Token.lexeme ⟨k, String.ofList w, p.after gap⟩ = ⟨k, w⟩ := by
      rw [Token.lexeme, String.toList_ofList]
    rw [List.dropLast_cons_of_ne_nil h.tokens_ne_nil, List.map_cons, hlexeme]
    exact .step (l := ⟨k, w⟩) hg hne hk hs ih

/-- What is read as tokens is so from any place on. -/
theorem Lexes.reads (h : Lexes text ls) (p : Position) : ∃ front final,
    Reads p text (front ++ [final]) ∧ front.map Token.lexeme = ls ∧ final.kind = .eof := by
  induction h generalizing p with
  | done hg => exact ⟨[], _, .done hg, rfl, rfl⟩
  | @step gap l rest ls hg hne hk hs _ ih =>
    obtain ⟨front, final, hr, rfl, hfinal⟩ := ih ((p.after gap).after l.chars)
    refine ⟨_ :: front, final, .step hg hne hk hs hr, ?_, hfinal⟩
    rw [List.map_cons, Token.lexeme, String.toList_ofList]

end

namespace Lexer

variable {lx : Lexer} {n : Nat} {k : TokenKind} {p : Position} {text : List Char} {ts : List Token}

theorem Settled.nextToken_of_scan (h : lx.Settled)
    (hs : scan (lx.rest.dropWhile isSpace) = .token n k) :
    lx.nextToken.1 = ⟨k, String.ofList ((lx.rest.dropWhile isSpace).take n),
        lx.position.after (lx.rest.takeWhile isSpace)⟩ ∧
      lx.nextToken.2.Settled ∧ lx.nextToken.2.rest = (lx.rest.dropWhile isSpace).drop n ∧
      lx.nextToken.2.position =
        (lx.position.after (lx.rest.takeWhile isSpace)).after ((lx.rest.dropWhile isSpace).take n) := by
  unfold nextToken
  rw [h.skipBlanks_eq]
  unfold follow
  dsimp only
  rw [hs]
  refine ⟨?_, ⟨rfl, rfl⟩, rfl, rfl⟩
  simp [Reading.token, emit, advance]

theorem Settled.scan_of_kind (h : lx.Settled) (hk : lx.nextToken.1.kind ≠ .error) :
    ∃ n, scan (lx.rest.dropWhile isSpace) = .token n lx.nextToken.1.kind := by
  revert hk
  unfold nextToken
  rw [h.skipBlanks_eq]
  unfold follow
  dsimp only
  split
  next k hk =>
    intro _
    exact ⟨_, congrArg (Reading.mk _) hk⟩
  next => exact fun hk => (hk rfl).elim

theorem Settled.nextToken_lexeme (h : lx.Settled)
    (hk : ¬lx.nextToken.1.kind.isTerminal = true) :
    lx.rest.dropWhile isSpace = lx.nextToken.1.lexeme.chars ++ lx.nextToken.2.rest ∧
      scan (lx.nextToken.1.lexeme.chars ++ lx.nextToken.2.rest) =
        .token lx.nextToken.1.lexeme.chars.length lx.nextToken.1.kind ∧
      lx.nextToken.1.lexeme.chars ≠ [] ∧ lx.nextToken.2.Settled := by
  obtain ⟨n, hs⟩ := h.scan_of_kind fun hn => hk (by rw [hn]; rfl)
  obtain ⟨htoken, hsettled, hrest, _⟩ := h.nextToken_of_scan hs
  have hchars : lx.nextToken.1.lexeme.chars = (lx.rest.dropWhile isSpace).take n := by
    rw [htoken]
    exact String.toList_ofList
  have hn : n ≤ (lx.rest.dropWhile isSpace).length := by
    have hle := scan_within _ _ (congrArg Reading.verdict hs)
    rwa [hs] at hle
  have hpos : 0 < n := by
    have hpos := scan_advances _ _ (congrArg Reading.verdict hs) (Bool.eq_false_iff.mpr hk)
    rwa [hs] at hpos
  rw [hchars, hrest, List.take_append_drop, List.length_take_of_le hn]
  refine ⟨rfl, hs, ?_, hsettled⟩
  exact List.ne_nil_of_length_pos (by rw [List.length_take_of_le hn]; exact hpos)

/-- A text whose last token is no error is read to its end. -/
theorem Settled.toTokens_reads (h : lx.Settled)
    (he : ∀ t ∈ lx.toTokens.getLast?, t.kind ≠ .error) :
    Reads lx.position lx.rest lx.toTokens := by
  induction lx using toTokens.induct with
  | case1 lx hk =>
    rw [toTokens_of_terminal hk] at he ⊢
    obtain ⟨gap, rest, hr, hg, hp, hends | hmore⟩ := h.nextToken_cases
    · obtain ⟨heof, htext, rfl⟩ := hends.resolve_right fun herror => he _ rfl herror.1
      rw [List.append_nil] at hr
      have hdone : Reads lx.position gap [⟨.eof, "", lx.position.after gap⟩] := .done hg
      rwa [← heof, ← htext, ← hp, ← hr] at hdone
    · cases hmore.1.symm.trans hk
  | case2 lx hk ih =>
    rw [toTokens_of_not_terminal hk] at he ⊢
    obtain ⟨_, hs, hne, hsettled⟩ := h.nextToken_lexeme hk
    obtain ⟨gap, rest, hr, hg, hp, hends | ⟨hn, _, rfl, _, hpos⟩⟩ := h.nextToken_cases
    · exact (hk hends.isTerminal).elim
    · have hrest := ih hsettled fun t ht => he t (by
        rw [List.getLast?_cons, ht]
        rfl)
      rw [hpos, Position.after_append] at hrest
      have hstep := Reads.step hg hne hn hs hrest
      have htext : String.ofList lx.nextToken.1.lexeme.chars = lx.nextToken.1.text :=
        String.ofList_toList
      rw [htext, ← hp] at hstep
      rw [hr]
      exact hstep

theorem Settled.toTokens_of_reads (hr : Reads p text ts) (h : lx.Settled) (hp : lx.position = p)
    (ht : lx.rest = text) : lx.toTokens = ts := by
  induction hr generalizing lx with
  | @done p gap hg =>
    have ht : lx.rest = gap ++ [] := by rw [ht, List.append_nil]
    have hdrop : lx.rest.dropWhile isSpace = [] := by rw [ht, dropWhile_append hg rfl]
    have htake : lx.rest.takeWhile isSpace = gap := by rw [ht, takeWhile_append hg rfl]
    have hs : scan (lx.rest.dropWhile isSpace) = .token 0 .eof := by rw [hdrop, scan_nil]
    obtain ⟨htoken, _⟩ := h.nextToken_of_scan hs
    rw [htake, hp] at htoken
    rw [toTokens_of_terminal (by rw [htoken]; rfl), htoken]
    rfl
  | @step p gap w rest k ts hg hne hk hs hr ih =>
    have hhead := headIs_isSpace_of_scan hne hs
    have hdrop : lx.rest.dropWhile isSpace = w ++ rest := by rw [ht, dropWhile_append hg hhead]
    have htake : lx.rest.takeWhile isSpace = gap := by rw [ht, takeWhile_append hg hhead]
    rw [← hdrop] at hs
    obtain ⟨htoken, hsettled, hrest, hpos⟩ := h.nextToken_of_scan hs
    rw [hdrop, List.take_left, htake, hp] at htoken hpos
    rw [hdrop, List.drop_left] at hrest
    rw [toTokens_of_not_terminal (by rw [htoken, hk]; exact Bool.false_ne_true), htoken,
      ih hsettled hpos hrest]

theorem Settled.toTokens_lexes (h : lx.Settled) {front : List Token} {final : Token}
    (he : lx.toTokens = front ++ [final]) (hfinal : final.kind = .eof) :
    Lexes lx.rest (front.map Token.lexeme) := by
  have hreads := h.toTokens_reads fun t ht => by
    rw [he, List.getLast?_concat] at ht
    rw [← Option.some.inj ht, hfinal]
    exact nofun
  rw [he] at hreads
  have hlexes := hreads.lexes
  rwa [List.dropLast_concat] at hlexes

theorem Settled.toTokens_of_lexes {ls : List Lexeme} (hl : Lexes lx.rest ls) (h : lx.Settled) :
    ∃ front final, lx.toTokens = front ++ [final] ∧ front.map Token.lexeme = ls ∧
      final.kind = .eof := by
  obtain ⟨front, final, hr, hfront, hfinal⟩ := hl.reads lx.position
  exact ⟨front, final, h.toTokens_of_reads hr rfl rfl, hfront, hfinal⟩

end Lexer

theorem reads_tokenize {text : String} (he : ∀ t ∈ tokenize text, t.kind ≠ .error) :
    Reads .origin text.toList (tokenize text) := by
  have hs : (Lexer.ofText text).Settled := ⟨rfl, rfl⟩
  exact hs.toTokens_reads fun t ht => he t (List.mem_of_getLast? ht)

theorem tokenize_of_reads {text : String} {ts : List Token} (h : Reads .origin text.toList ts) :
    tokenize text = ts :=
  Lexer.Settled.toTokens_of_reads h ⟨rfl, rfl⟩ rfl rfl

end SqlSelect
