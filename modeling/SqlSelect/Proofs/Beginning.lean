import SqlSelect.Proofs.Lexing

namespace SqlSelect

/-- The token that a reading of the front of `rest` is, where `rest` begins at `p`. -/
def Reading.tokenAt (r : Reading) (rest : List Char) (p : Position) : Token :=
  match r.verdict with
  | .ok kind => ⟨kind, String.ofList (rest.take r.width), p⟩
  | .error flaw => ⟨.error, flaw.message (String.ofList (rest.take r.width)) p, p⟩

/-- One of some tokens begins where a text still has `rest`: up to there the text is white space
and the tokens before it, and no white space comes first in `rest`. -/
structure BeginsAt (t : Token) (front rest text : List Char) (ts : List Token) : Prop where
  text_eq : text = front ++ rest
  inked : headIs isSpace rest = false
  before : ∃ (pieces : List Piece) (gap : List Char) (after : List Token),
    ts = pieces.map Piece.token ++ t :: after ∧ front = pieces.flatMap Piece.chars ++ gap ∧
      (∀ q ∈ pieces, ∀ c ∈ q.gap, isSpace c = true) ∧ ∀ c ∈ gap, isSpace c = true

theorem BeginsAt.later {t : Token} {front rest text gap : List Char} {ts : List Token}
    (h : BeginsAt t front rest text ts) (u : Token) (hg : ∀ c ∈ gap, isSpace c = true) :
    BeginsAt t (gap ++ (u.text.toList ++ front)) rest (gap ++ (u.text.toList ++ text)) (u :: ts) := by
  obtain ⟨htext, hinked, pieces, gap', after, htokens, hfront, hpieces, hgap⟩ := h
  refine ⟨?_, hinked, ⟨gap, u⟩ :: pieces, gap', after, ?_, ?_,
    List.forall_mem_cons.mpr ⟨hg, hpieces⟩, hgap⟩
  · simp [htext]
  · rw [htokens, List.map_cons, List.cons_append]
  · simp [hfront, Piece.chars]

namespace Lexer

variable {lx : Lexer} {t : Token} {front rest : List Char}

theorem Settled.nextToken_eq (h : lx.Settled) : lx.nextToken.1 =
    (scan (lx.rest.dropWhile isSpace)).tokenAt (lx.rest.dropWhile isSpace)
      (lx.position.after (lx.rest.takeWhile isSpace)) := by
  unfold nextToken
  rw [h.skipBlanks_eq]
  unfold follow Reading.tokenAt
  dsimp only
  cases (scan (lx.rest.dropWhile isSpace)).verdict with
  | ok => simp [emit, advance]
  | error => simp [report, advance]

/-- The first token of several, and where the lexer is after it. -/
theorem Settled.toTokens_cons (h : lx.Settled) {more : List Token} (hne : more ≠ [])
    (he : lx.toTokens = t :: more) {gap text : List Char} (hg : ∀ c ∈ gap, isSpace c = true)
    (htext : lx.rest = gap ++ (t.text.toList ++ text)) :
    lx.nextToken.2.Settled ∧ lx.nextToken.2.toTokens = more ∧ lx.nextToken.2.rest = text ∧
      lx.nextToken.2.position = lx.position.after (gap ++ t.text.toList) := by
  have hk : ¬lx.nextToken.1.kind.isTerminal = true := fun hk => by
    rw [toTokens_of_terminal hk] at he
    exact hne (List.cons.inj he).2.symm
  rw [toTokens_of_not_terminal hk, List.cons.injEq] at he
  obtain ⟨rfl, hmore⟩ := he
  obtain ⟨hdrop, hs, hchars, hsettled⟩ := h.nextToken_lexeme hk
  have hhead : headIs isSpace (lx.nextToken.1.text.toList ++ text) = false := by
    have hhead := headIs_isSpace_of_scan hchars hs
    rw [headIs_append hchars] at hhead
    exact (headIs_append hchars).trans hhead
  have hrest : lx.nextToken.2.rest = text := by
    rw [htext, dropWhile_append hg hhead] at hdrop
    exact (List.append_cancel_left hdrop).symm
  obtain ⟨gap', rest, hr, _, _, he | ⟨_, _, rfl, _, hpos⟩⟩ := h.nextToken_cases
  · exact (hk he.isTerminal).elim
  · rw [hrest, htext] at hr
    rw [List.append_cancel_right hr]
    exact ⟨hsettled, hmore, hrest, hpos⟩

/-- A token is what is read where it begins. -/
theorem Settled.token_eq (h : lx.Settled) (ht : BeginsAt t front rest lx.rest lx.toTokens) :
    t = (scan rest).tokenAt rest (lx.position.after front) := by
  obtain ⟨htext, hinked, pieces, gap, after, htokens, rfl, hpieces, hgap⟩ := ht
  induction pieces generalizing lx with
  | nil =>
    have hfirst : t = lx.nextToken.1 := by
      rw [toTokens] at htokens
      split at htokens
      next => exact (List.cons.inj htokens).1.symm
      next => exact (List.cons.inj htokens).1.symm
    have htext : lx.rest = gap ++ rest := htext
    rw [hfirst, h.nextToken_eq, htext, takeWhile_append hgap hinked, dropWhile_append hgap hinked]
    rfl
  | cons q pieces ih =>
    obtain ⟨hq, hpieces⟩ := List.forall_mem_cons.mp hpieces
    have hsplit : lx.rest =
        q.gap ++ (q.token.text.toList ++ (pieces.flatMap Piece.chars ++ gap ++ rest)) := by
      rw [htext]
      simp [Piece.chars]
    obtain ⟨hsettled, hmore, hrest, hpos⟩ := h.toTokens_cons (by simp) htokens hq hsplit
    rw [ih hsettled hmore hrest hpieces, hpos, ← Position.after_append]
    simp [Piece.chars]

theorem beginsAt_nextToken (lx : Lexer) (after : List Token) :
    BeginsAt lx.nextToken.1 (lx.rest.takeWhile isSpace) (lx.rest.dropWhile isSpace) lx.rest
      (lx.nextToken.1 :: after) :=
  ⟨List.takeWhile_append_dropWhile.symm, headIs_dropWhile isSpace lx.rest, [], _, after, rfl, rfl,
    nofun, List.all_eq_true.mp List.all_takeWhile⟩

/-- Every token begins somewhere. -/
theorem Settled.beginsAt (h : lx.Settled) (ht : t ∈ lx.toTokens) :
    ∃ front rest, BeginsAt t front rest lx.rest lx.toTokens := by
  induction lx using toTokens.induct with
  | case1 lx hk =>
    rw [toTokens_of_terminal hk] at ht ⊢
    obtain rfl := List.mem_singleton.mp ht
    exact ⟨_, _, beginsAt_nextToken lx []⟩
  | case2 lx hk ih =>
    rw [toTokens_of_not_terminal hk] at ht ⊢
    rcases List.mem_cons.mp ht with rfl | ht
    · exact ⟨_, _, beginsAt_nextToken lx _⟩
    · obtain ⟨hdrop, _, _, hsettled⟩ := h.nextToken_lexeme hk
      obtain ⟨front, rest, hbegins⟩ := ih hsettled ht
      have hgap : ∀ c ∈ lx.rest.takeWhile isSpace, isSpace c = true :=
        List.all_eq_true.mp List.all_takeWhile
      have hlater := hbegins.later lx.nextToken.1 hgap
      have htext := List.takeWhile_append_dropWhile (p := isSpace) (l := lx.rest)
      rw [hdrop] at htext
      have htext : lx.rest.takeWhile isSpace ++ (lx.nextToken.1.text.toList ++ lx.nextToken.2.rest) =
          lx.rest := htext
      rw [htext] at hlater
      exact ⟨_, _, hlater⟩

end Lexer

/-- A token of a text is what is read where it begins, at its place. -/
theorem token_eq_of_beginsAt {text : String} {t : Token} {front rest : List Char}
    (ht : BeginsAt t front rest text.toList (tokenize text)) :
    t = (scan rest).tokenAt rest (.ofFront front) := by
  have hs : (Lexer.ofText text).Settled := ⟨rfl, rfl⟩
  rw [← Position.after_origin]
  exact hs.token_eq ht

end SqlSelect
