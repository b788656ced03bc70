import SqlSelect.Lexer
import SqlSelect.Proofs.Scanning

namespace SqlSelect

/-- The place after the front of a text, by its line feeds and what follows the last of them. -/
def Position.ofFront (front : List Char) : Position :=
  ⟨1 + front.count '\n', 1 + (front.reverse.takeWhile (· ≠ '\n')).length⟩

theorem Position.after_origin (front : List Char) : origin.after front = ofFront front := by
  rw [← List.reverse_reverse front]
  induction front.reverse with
  | nil => rfl
  | cons c cs ih =>
    rw [List.reverse_cons, after_append, ih]
    by_cases hc : c = '\n'
    · simp [ofFront, next, hc]
      omega
    · simp [ofFront, next, hc]
      omega

theorem Position.after_cases (p : Position) (text : List Char) :
    p.line < (p.after text).line ∨
      (p.after text).line = p.line ∧ (p.after text).column = p.column + text.length := by
  induction text generalizing p with
  | nil => exact .inr ⟨rfl, rfl⟩
  | cons c text ih =>
    rw [after_cons, List.length_cons]
    have h := ih (p.next c)
    by_cases hc : c = '\n'
    · simp only [next, if_pos hc] at h ⊢
      omega
    · simp only [next, if_neg hc] at h ⊢
      omega

/-- No text leads back to where it starts. -/
theorem Position.after_ne_self (p : Position) {text : List Char} (h : text ≠ []) :
    p.after text ≠ p := by
  intro he
  have hpos := List.length_pos_iff.mpr h
  have hcases := p.after_cases text
  rw [he] at hcases
  omega

/-- The last token: the end of the text, or an error that something of it is about. -/
def Token.Ends (t : Token) (rest : List Char) : Prop :=
  t.kind = .eof ∧ t.text = "" ∧ rest = [] ∨ t.kind = .error ∧ rest ≠ []

theorem Token.Ends.isTerminal {t : Token} {rest : List Char} (h : t.Ends rest) :
    t.kind.isTerminal = true := by
  rcases h with ⟨hk, _⟩ | ⟨hk, _⟩
  · rw [hk]
    rfl
  · rw [hk]
    rfl

/-- From a place on, a text is white space and the texts of tokens in turn, the last of which
ends it. -/
inductive Tiles : Position → List Char → List Token → Prop
  | last {p gap rest t} : (∀ c ∈ gap, isSpace c = true) → t.position = p.after gap →
      t.Ends rest → Tiles p (gap ++ rest) [t]
  | step {p gap rest t ts} : (∀ c ∈ gap, isSpace c = true) → t.position = p.after gap →
      t.kind.isTerminal = false → t.text ≠ "" →
      Tiles (p.after (gap ++ t.text.toList)) rest ts →
      Tiles p (gap ++ t.text.toList ++ rest) (t :: ts)

namespace Lexer

variable {lx : Lexer}

/-- Nothing is pending, so that the next token starts where the last one ended. -/
def Settled (lx : Lexer) : Prop := lx.pending = [] ∧ lx.start = lx.position

theorem Settled.skipBlanks_eq (h : lx.Settled) : lx.skipBlanks =
    ⟨[], lx.rest.dropWhile isSpace, lx.position.after (lx.rest.takeWhile isSpace),
      lx.position.after (lx.rest.takeWhile isSpace), lx.finished⟩ := by
  have ht : lx.rest.take (lx.rest.takeWhile isSpace).length = lx.rest.takeWhile isSpace :=
    (List.prefix_iff_eq_take.mp (List.takeWhile_prefix isSpace)).symm
  have hd : lx.rest.drop (lx.rest.takeWhile isSpace).length = lx.rest.dropWhile isSpace := by
    conv => lhs; arg 2; rw [← List.takeWhile_append_dropWhile (p := isSpace) (l := lx.rest)]
    exact List.drop_left
  unfold skipBlanks frontWidth
  split
  next hz =>
    rw [hz, List.drop_zero] at hd
    rw [List.length_eq_zero_iff.mp hz, ← hd, Position.after_nil]
    calc lx = ⟨lx.pending, lx.rest, lx.start, lx.position, lx.finished⟩ := rfl
      _ = _ := by rw [h.1, h.2]
  next => simp only [restart, advance, ht, hd]

/-- A token is read from the first character that is no white space. -/
theorem Settled.nextToken_cases (h : lx.Settled) : ∃ gap rest, lx.rest = gap ++ rest ∧
    (∀ c ∈ gap, isSpace c = true) ∧ lx.nextToken.1.position = lx.position.after gap ∧
    (lx.nextToken.1.Ends rest ∨
      lx.nextToken.1.kind.isTerminal = false ∧ lx.nextToken.1.text ≠ "" ∧
        rest = lx.nextToken.1.text.toList ++ lx.nextToken.2.rest ∧ lx.nextToken.2.Settled ∧
        lx.nextToken.2.position = lx.position.after (gap ++ lx.nextToken.1.text.toList)) := by
  refine ⟨lx.rest.takeWhile isSpace, lx.rest.dropWhile isSpace,
    List.takeWhile_append_dropWhile.symm, List.all_eq_true.mp List.all_takeWhile, ?_⟩
  unfold nextToken
  rw [h.skipBlanks_eq]
  unfold follow
  dsimp only
  split
  next kind hk =>
    refine ⟨rfl, ?_⟩
    rcases scan_token hk with ⟨hr, rfl, hw⟩ | ⟨hk, hne⟩
    · refine .inl (.inl ⟨rfl, ?_, hr⟩)
      simp [emit, advance, hr]
    · refine .inr ⟨hk, ?_, ?_, ⟨rfl, rfl⟩, ?_⟩
      · simpa [emit, advance] using hne
      · simp [emit, advance, restart]
      · simp [emit, advance, restart, Position.after_append]
  next flaw hf => exact ⟨rfl, .inl (.inr ⟨rfl, scan_flaw hf⟩)⟩

theorem toTokens_of_terminal (h : lx.nextToken.1.kind.isTerminal = true) :
    lx.toTokens = [lx.nextToken.1] := by rw [toTokens, if_pos h]

theorem toTokens_of_not_terminal (h : ¬lx.nextToken.1.kind.isTerminal = true) :
    lx.toTokens = lx.nextToken.1 :: lx.nextToken.2.toTokens := by rw [toTokens, if_neg h]

/-- The first tokens, as many as asked for. -/
def firstTokens : Nat → Lexer → List Token
  | 0, _ => []
  | n + 1, lx =>
    let (t, lx') := lx.nextToken
    if t.kind.isTerminal then [t] else t :: firstTokens n lx'

/-- The first tokens are all if the last of them is terminal. -/
theorem toTokens_of_firstTokens (n : Nat) {tokens : List Token} (h : lx.firstTokens n = tokens)
    (ht : tokens.getLast?.any (·.kind.isTerminal) = true) : lx.toTokens = tokens := by
  induction n generalizing lx tokens with
  | zero =>
    cases h
    cases ht
  | succ n ih =>
    by_cases hk : lx.nextToken.1.kind.isTerminal = true
    · rw [toTokens_of_terminal hk, ← h]
      simp [firstTokens, hk]
    · have h : lx.nextToken.1 :: firstTokens n lx.nextToken.2 = tokens := by
        rw [← h]
        simp [firstTokens, hk]
      rw [toTokens_of_not_terminal hk, ← h, List.cons.injEq]
      refine ⟨rfl, ih rfl ?_⟩
      rw [← h] at ht
      cases hf : firstTokens n lx.nextToken.2 with
      | nil =>
        rw [hf] at ht
        exact (hk (by simpa using ht)).elim
      | cons t ts =>
        rw [hf] at ht
        simpa using ht

theorem toTokens_eq_concat (lx : Lexer) : ∃ front final, lx.toTokens = front ++ [final] ∧
    (∀ t ∈ front, t.kind.isTerminal = false) ∧ final.kind.isTerminal = true := by
  induction lx using toTokens.induct with
  | case1 lx hk => exact ⟨[], _, toTokens_of_terminal hk, nofun, hk⟩
  | case2 lx hk ih =>
    obtain ⟨front, final, he, hf, hfinal⟩ := ih
    refine ⟨lx.nextToken.1 :: front, final, ?_, ?_, hfinal⟩
    · rw [toTokens_of_not_terminal hk, he, List.cons_append]
    · exact List.forall_mem_cons.mpr ⟨Bool.eq_false_iff.mpr hk, hf⟩

theorem Settled.toTokens_tiles (h : lx.Settled) : Tiles lx.position lx.rest lx.toTokens := by
  induction lx using toTokens.induct with
  | case1 lx hk =>
    obtain ⟨gap, rest, hr, hg, hp, he | hn⟩ := h.nextToken_cases
    · rw [toTokens_of_terminal hk, hr]
      exact .last hg hp he
    · cases hn.1.symm.trans hk
  | case2 lx hk ih =>
    obtain ⟨gap, rest, hr, hg, hp, he | ⟨ht, hne, rfl, hs, hpos⟩⟩ := h.nextToken_cases
    · exact (hk he.isTerminal).elim
    · have htiles := ih hs
      rw [hpos] at htiles
      rw [toTokens_of_not_terminal hk, hr, ← List.append_assoc]
      exact .step hg hp ht hne htiles

end Lexer

/-- A token and the text before it that belongs to none, white space for the most part. -/
structure Piece where
  gap : List Char
  token : Token

def Piece.chars (q : Piece) : List Char := q.gap ++ q.token.text.toList

theorem Piece.inked_chars {q : Piece} (h : ∀ c ∈ q.gap, isSpace c = true) :
    q.chars.filter (!isSpace ·) = q.token.text.toList.filter (!isSpace ·) := by
  rw [chars, List.filter_append, List.filter_eq_nil_iff.mpr fun c hc => by simp [h c hc],
    List.nil_append]

namespace Tiles

variable {p : Position} {text : List Char} {ts : List Token}

theorem length_le (h : Tiles p text ts) : ts.length ≤ text.length + 1 := by
  induction h with
  | last => simp
  | @step p gap rest t ts _ _ _ hne _ ih =>
    have hpos : 0 < t.text.toList.length := by
      refine List.length_pos_iff.mpr fun he => hne ?_
      simpa using he
    simp only [List.length_cons, List.length_append]
    omega

theorem position_eq (h : Tiles p text ts) {t : Token} (ht : t ∈ ts) :
    ∃ front, t.position = p.after front := by
  induction h with
  | last _ hp => exact ⟨_, List.mem_singleton.mp ht ▸ hp⟩
  | step _ hp _ _ _ ih =>
    rcases List.mem_cons.mp ht with rfl | ht
    · exact ⟨_, hp⟩
    · obtain ⟨front, hf⟩ := ih ht
      exact ⟨_, hf.trans (Position.after_append ..).symm⟩

/-- No two tokens have the same place. -/
theorem pairwise_position (h : Tiles p text ts) :
    ts.Pairwise fun t t' => t.position ≠ t'.position := by
  induction h with
  | last => exact List.pairwise_singleton ..
  | @step p gap rest t ts _ hp _ hne h ih =>
    refine List.pairwise_cons.mpr ⟨fun t' ht' he => ?_, ih⟩
    obtain ⟨front, hf⟩ := h.position_eq ht'
    rw [Position.after_append, ← Position.after_append, ← hp, ← he] at hf
    have hne : t.text.toList ++ front ≠ [] := by simp [hne]
    exact t.position.after_ne_self hne hf.symm

/-- A token is told from the others by its place. -/
theorem index_eq (h : Tiles p text ts) {k l : Nat} {t t' : Token} (hk : ts[k]? = some t)
    (hl : ts[l]? = some t') (he : t'.position = t.position) : l = k := by
  obtain ⟨hik, rfl⟩ := List.getElem?_eq_some_iff.mp hk
  obtain ⟨hil, rfl⟩ := List.getElem?_eq_some_iff.mp hl
  have hne := List.pairwise_iff_getElem.mp h.pairwise_position
  rcases Nat.lt_trichotomy l k with hlt | heq | hlt
  · exact (hne l k hil hik hlt he).elim
  · exact heq
  · exact (hne k l hik hil hlt he.symm).elim

theorem text_of_eof (h : Tiles p text ts) {t : Token} (ht : t ∈ ts) (hk : t.kind = .eof) :
    t.text = "" := by
  induction h with
  | last _ _ he =>
    obtain rfl := List.mem_singleton.mp ht
    exact (he.resolve_right fun herror => by cases hk.symm.trans herror.1).2.1
  | step _ _ hterminal _ _ ih =>
    rcases List.mem_cons.mp ht with rfl | ht
    · rw [hk] at hterminal
      cases hterminal
    · exact ih ht

theorem pieces (h : Tiles p text ts) : ∃ (pieces : List Piece) (gap rest : List Char) (final : Token),
    ts = pieces.map Piece.token ++ [final] ∧
    text = pieces.flatMap Piece.chars ++ (gap ++ rest) ∧
    (∀ q ∈ pieces, (∀ c ∈ q.gap, isSpace c = true) ∧ q.token.kind.isTerminal = false ∧
      q.token.text ≠ "") ∧
    (∀ c ∈ gap, isSpace c = true) ∧ final.Ends rest ∧
    (∀ before q after, pieces = before ++ q :: after →
      q.token.position = p.after (before.flatMap Piece.chars ++ q.gap)) ∧
    final.position = p.after (pieces.flatMap Piece.chars ++ gap) := by
  induction h with
  | @last p gap rest t hg hp he =>
    refine ⟨[], gap, rest, t, rfl, rfl, nofun, hg, he, ?_, hp⟩
    intro before q after hq
    simp at hq
  | @step p gap rest t ts hg hp hk hne _ ih =>
    obtain ⟨pieces, gap', rest', final, rfl, rfl, hpieces, hgap, he, hpos, hfinal⟩ := ih
    refine ⟨⟨gap, t⟩ :: pieces, gap', rest', final, rfl, ?_, ?_, hgap, he, ?_, ?_⟩
    · simp [Piece.chars]
    · exact List.forall_mem_cons.mpr ⟨⟨hg, hk, hne⟩, hpieces⟩
    · intro before q after hq
      cases before with
      | nil =>
        obtain ⟨rfl, _⟩ := List.cons.inj hq
        exact hp
      | cons q' before =>
        obtain ⟨rfl, hrest⟩ := List.cons.inj hq
        rw [hpos before q after hrest, ← Position.after_append]
        simp [Piece.chars]
    · rw [hfinal, ← Position.after_append]
      simp [Piece.chars]

end Tiles

theorem tiles_tokenize (text : String) : Tiles .origin text.toList (tokenize text) :=
  have hs : (Lexer.ofText text).Settled := ⟨rfl, rfl⟩
  hs.toTokens_tiles

/-- The tokens of a text, with white space between them, are the text, each at its own place. The
last one and no other is terminal: the end of the text, or an error about what is left of it. -/
theorem tokenize_tiles (text : String) :
    ∃ (pieces : List Piece) (gap rest : List Char) (final : Token),
      tokenize text = pieces.map Piece.token ++ [final] ∧
      text.toList = pieces.flatMap Piece.chars ++ (gap ++ rest) ∧
      (∀ q ∈ pieces, (∀ c ∈ q.gap, isSpace c = true) ∧ q.token.kind.isTerminal = false ∧
        q.token.text ≠ "") ∧
      (∀ c ∈ gap, isSpace c = true) ∧
      (final.kind = .eof ∧ final.text = "" ∧ rest = [] ∨ final.kind = .error ∧ rest ≠ []) ∧
      (∀ before q after, pieces = before ++ q :: after →
        q.token.position = .ofFront (before.flatMap Piece.chars ++ q.gap)) ∧
      final.position = .ofFront (pieces.flatMap Piece.chars ++ gap) ∧
      (tokenize text).length ≤ text.length + 1 ∧
      text.toList.filter (!isSpace ·) =
        pieces.flatMap (·.token.text.toList.filter (!isSpace ·)) ++ rest.filter (!isSpace ·) := by
  have hs : (Lexer.ofText text).Settled := ⟨rfl, rfl⟩
  have h : Tiles .origin text.toList (tokenize text) := hs.toTokens_tiles
  obtain ⟨pieces, gap, rest, final, hts, htext, hpieces, hgap, he, hpos, hfinal⟩ := h.pieces
  simp only [Position.after_origin] at hpos hfinal
  refine ⟨pieces, gap, rest, final, hts, htext, hpieces, hgap, he, hpos, hfinal, h.length_le, ?_⟩
  have hgap' : gap.filter (!isSpace ·) = [] :=
    List.filter_eq_nil_iff.mpr fun c hc => by simp [hgap c hc]
  rw [htext, List.filter_append, List.filter_append, hgap', List.nil_append, List.filter_flatMap]
  rw [List.flatMap_def, List.flatMap_def,
    List.map_congr_left fun q hq => Piece.inked_chars (hpieces q hq).1]

end SqlSelect
