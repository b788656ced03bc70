import SqlSelect.Proofs.IndexSafety
import SqlSelect.Proofs.Loading
import SqlSelect.Proofs.Sentence

namespace SqlSelect

/-- What of a text is no white space. -/
def ink (text : List Char) : List Char := text.filter (!isSpace ·)

/-- How many characters come before a place in a text that begins at `here`. -/
def Position.charsBefore (p : Position) : (here : Position) → List Char → Nat
  | _, [] => 0
  | here, c :: text => if here = p then 0 else charsBefore p (here.next c) text + 1

/-- The part of a text from the first character of one token to the last character of another. -/
def sourceBetween (text : List Char) (first last : Token) : List Char :=
  (text.take (last.position.charsBefore .origin text + last.text.length)).drop
    (first.position.charsBefore .origin text)

theorem ink_append (s t : List Char) : ink (s ++ t) = ink s ++ ink t := List.filter_append ..

theorem ink_flatMap {α : Type} (l : List α) (f : α → List Char) :
    ink (l.flatMap f) = l.flatMap fun a => ink (f a) := List.filter_flatMap

theorem ink_intercalate (texts : List String) :
    ink (String.intercalate " " texts).toList = texts.flatMap fun s => ink s.toList := by
  rw [String.toList_intercalate]
  induction texts with
  | nil => rfl
  | cons s texts ih =>
    cases texts with
    | nil => simp
    | cons s' texts =>
      rw [List.map_cons] at ih
      have hblank : ink " ".toList = [] := rfl
      rw [List.map_cons, List.map_cons, List.intercalate_cons_cons, ink_append, ink_append, ih,
        hblank, List.append_nil]
      rfl

/-- A place that a text leads to is found where the text ends. -/
theorem Position.charsBefore_append (here : Position) (front rest : List Char) :
    (here.after front).charsBefore here (front ++ rest) = front.length := by
  induction front generalizing here with
  | nil => cases rest <;> simp [charsBefore]
  | cons c front ih =>
    have hne : here ≠ here.after (c :: front) := (here.after_ne_self (List.cons_ne_nil c front)).symm
    rw [List.cons_append, charsBefore, if_neg hne, after_cons, ih, List.length_cons]

/-- A text begins with these pieces, each of them white space and a token at its own place. -/
structure PiecedBy (text : List Char) (pieces : List Piece) : Prop where
  text_eq : ∃ rest, text = pieces.flatMap Piece.chars ++ rest
  blank : ∀ q ∈ pieces, ∀ c ∈ q.gap, isSpace c = true
  position (before : List Piece) (q : Piece) (after : List Piece) : pieces = before ++ q :: after →
    q.token.position = Position.origin.after (before.flatMap Piece.chars ++ q.gap)

namespace PiecedBy

variable {text : List Char} {pieces before more front after : List Piece} {q q' : Piece}

theorem charsBefore_eq (h : PiecedBy text pieces) (hs : pieces = before ++ q :: after) :
    q.token.position.charsBefore .origin text = (before.flatMap Piece.chars ++ q.gap).length := by
  obtain ⟨rest, htext⟩ := h.text_eq
  have hsplit : text = (before.flatMap Piece.chars ++ q.gap) ++
      (q.token.text.toList ++ (after.flatMap Piece.chars ++ rest)) := by
    rw [htext, hs]
    simp [Piece.chars]
  rw [h.position before q after hs, hsplit]
  exact Position.charsBefore_append ..

/-- From one piece to another, a text is the token of the first and the pieces after it. -/
theorem sourceBetween_eq (h : PiecedBy text pieces) (hs : pieces = before ++ (q :: more ++ after))
    (hl : q :: more = front ++ [q']) :
    sourceBetween text q.token q'.token = q.token.text.toList ++ more.flatMap Piece.chars := by
  obtain ⟨rest, htext⟩ := h.text_eq
  have hfirst := h.charsBefore_eq (show pieces = before ++ q :: (more ++ after) from hs)
  have hlast := h.charsBefore_eq (show pieces = (before ++ front) ++ q' :: after by simp [hs, hl])
  have hend : q'.token.position.charsBefore .origin text + q'.token.text.length =
      ((before ++ (q :: more)).flatMap Piece.chars).length := by
    rw [hlast, hl, ← String.length_toList]
    simp [Piece.chars, Nat.add_assoc]
  have hsplit : text = (before ++ (q :: more)).flatMap Piece.chars ++
      (after.flatMap Piece.chars ++ rest) := by
    rw [htext, hs]
    simp
  have hinside : (before ++ (q :: more)).flatMap Piece.chars =
      (before.flatMap Piece.chars ++ q.gap) ++
        (q.token.text.toList ++ more.flatMap Piece.chars) := by
    simp [Piece.chars]
  rw [sourceBetween, hend, hfirst]
  conv => lhs; rw [hsplit, List.take_left, hinside]
  exact List.drop_left

theorem ink_sourceBetween (h : PiecedBy text pieces) (hs : pieces = before ++ (q :: more ++ after))
    (hl : q :: more = front ++ [q']) : ink (sourceBetween text q.token q'.token) =
      (q :: more).flatMap fun q => ink q.token.text.toList := by
  have hmore : (more.map fun q => ink q.chars) = more.map fun q => ink q.token.text.toList :=
    List.map_congr_left fun q hq => Piece.inked_chars (h.blank q (by simp [hs, hq]))
  rw [h.sourceBetween_eq hs hl, ink_append, ink_flatMap, List.flatMap_cons, List.flatMap_def, hmore]
  rfl

end PiecedBy

theorem tokenize_pieced (text : String) : ∃ pieces final,
    tokenize text = pieces.map Piece.token ++ [final] ∧ PiecedBy text.toList pieces := by
  obtain ⟨pieces, _, _, final, htokens, htext, hpieces, _, _, hpos, _⟩ := (tiles_tokenize text).pieces
  exact ⟨pieces, final, htokens, ⟨_, htext⟩, fun q hq => (hpieces q hq).1, hpos⟩

/-- The texts of some tokens of a text are what the text has there, but for white space. -/
theorem TokenList.ink_sourceBetween {ts : TokenList} {text : String} {first last : Nat}
    (ht : ts.toList = tokenize text) (h : ts.Covers first last) :
    ink (sourceBetween text.toList (ts.token first) (ts.token last)) =
      (ts.span first last).flatMap fun t => ink t.text.toList := by
  obtain ⟨pieces, final, htokens, hp⟩ := tokenize_pieced text
  have hle := h.le
  have hlast : last < pieces.length := by
    have hlen := congrArg List.length (ht.trans htokens)
    have := h.succ_lt_size
    simp at hlen
    omega
  have hspan : ts.span first last =
      ((pieces.drop first).take (last + 1 - first)).map Piece.token := by
    rw [span_eq_of_covers h, ht, htokens, List.drop_append_of_le_length (by simp; omega),
      List.take_append_of_le_length (by simp; omega), List.map_take, List.map_drop]
  have hcons : ts.span first last = ts.token first :: ts.slice (first + 1) (last + 1) :=
    slice_cons (Nat.lt_succ_of_le hle)
  have hconcat : ts.span first last = ts.slice first last ++ [ts.token last] := slice_succ hle
  obtain ⟨q, more, hmiddle, hq, _⟩ := List.map_eq_cons_iff.mp (hspan.symm.trans hcons)
  obtain ⟨front, _, hend, _, hlast'⟩ := List.map_eq_append_iff.mp (hspan.symm.trans hconcat)
  obtain ⟨q', rfl, hq'⟩ := List.map_eq_singleton_iff.mp hlast'
  have hpieces : pieces = pieces.take first ++
      (q :: more ++ (pieces.drop first).drop (last + 1 - first)) := by
    rw [← hmiddle, List.take_append_drop, List.take_append_drop]
  rw [← hq, ← hq', hp.ink_sourceBetween hpieces (hmiddle.symm.trans hend), hspan, hmiddle,
    List.flatMap_map]

/-- The text of a node is what the text it was found in has from the node's first token to its last,
but for white space. -/
theorem Parser.ink_text {text : String} {options : Options} {p : Parser} {part : Production}
    {start : Nat} {t : Tree} (hp : ofText text options = .ok p) (h : p.run part start = .ok t) :
    ∀ n ∈ t.root.preorder, ink (n.text t.source).toList =
      ink (sourceBetween text.toList (t.source.token n.first) (t.source.token n.last)) := by
  obtain ⟨hsource, hrun⟩ := run_eq_ok.mp h
  have hbounds := Node.forall_preorder_iff.mpr (Production.run_inBounds hrun)
  rw [hsource]
  intro n hn
  rw [TokenList.ink_sourceBetween (toList_of_ofText hp) (hbounds n hn).covers]
  rw [Node.text, ink_intercalate, List.flatMap_map]
  rfl

theorem Parser.ink_text_of_two_lines :
    let text := "SELECT 'x  y'\n  FROM t"
    ∃ p t, ofText text {} = .ok p ∧ p.run .selectQuery 0 = .ok t ∧
      t.root.text t.source = "SELECT 'x  y' FROM t" ∧
      ∀ n ∈ t.root.preorder, ink (n.text t.source).toList =
        ink (sourceBetween text.toList (t.source.token n.first) (t.source.token n.last)) := by
  intro text
  let front : List Token := [⟨.select, "SELECT", ⟨1, 1⟩⟩, ⟨.string, "'x  y'", ⟨1, 8⟩⟩,
    ⟨.from, "FROM", ⟨2, 3⟩⟩, ⟨.literal, "t", ⟨2, 8⟩⟩]
  let ts : TokenList := ⟨front.toArray, ⟨.eof, "", ⟨2, 9⟩⟩, rfl, by decide⟩
  have htokens : tokenize text = front ++ [ts.final] :=
    Lexer.toTokens_of_firstTokens 5 (by decide +kernel) (by decide)
  have hload : ofText text {} = .ok ⟨ts, {}⟩ := by
    rw [ofText, htokens]
    rfl
  have hrun : run ⟨ts, {}⟩ .selectQuery 0 = .ok ⟨ts, ⟨.selectQuery, 0, 3,
      [⟨.select, 0, 1, [⟨.field, 1, 1, [⟨.expression, 1, 1, [⟨.operand, 1, 1, []⟩]⟩]⟩]⟩,
       ⟨.from, 2, 3, [⟨.source, 3, 3, []⟩]⟩]⟩⟩ := rfl
  exact ⟨_, _, hload, hrun, by decide +kernel, ink_text hload hrun⟩

end SqlSelect
