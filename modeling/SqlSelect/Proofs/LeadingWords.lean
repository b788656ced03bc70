import SqlSelect.Proofs.AsciiBytes
import SqlSelect.Proofs.Leading
import SqlSelect.Proofs.Matched

namespace SqlSelect

theorem atBoundary_eq (text : List Char) : atBoundary text = Cursor.isBoundary text.head? := by
  cases text with
  | nil => rfl
  | cons => rfl

theorem findSome?_matchWord (follows : List Char → Bool) (words : List (String × TokenKind))
    (rest : List Char) : words.findSome? (matchWord follows rest) =
      (words.find? fun v => beginsWith v.1.toList rest && follows (rest.drop v.1.length)).map
        fun v => ⟨v.1.length, v.2⟩ := by
  induction words with
  | nil => rfl
  | cons v words ih =>
    rw [List.findSome?_cons, List.find?_cons, matchWord]
    cases beginsWith v.1.toList rest && follows (rest.drop v.1.length) with
    | true => rfl
    | false => exact ih

theorem keyword?_eq_find? (rest : List Char) : keyword? rest = (keywords.find? fun v =>
    beginsWith v.1.toList rest && Cursor.isBoundary (rest.drop v.1.length).head?).map
      fun v => ⟨v.1.length, v.2⟩ := by
  rw [keyword?, findSome?_matchWord]
  simp only [atBoundary_eq]

theorem function?_eq_find? (rest : List Char) : function? rest = (functions.find? fun v =>
    beginsWith v.1.toList rest && (rest.drop v.1.length).head? == some '(').map
      fun v => ⟨v.1.length, v.2⟩ := by
  have hcall (text : List Char) : opensCall text = (text.head? == some '(') := by
    rw [opensCall_eq]
    cases text with
    | nil => rfl
    | cons => rfl
  rw [function?, findSome?_matchWord]
  simp only [hcall]

theorem symbol?_eq_find? (rest : List Char) : symbol? rest =
    (symbols.find? fun v => beginsWith v.1.toList rest).map fun v => ⟨v.1.length, v.2⟩ := by
  rw [symbol?, findSome?_matchWord]
  simp only [Bool.and_true]

/-- Takes what a table has a match for, if it has one. -/
def Lexer.take? (lx : Lexer) : Option Match → Option Token × Lexer
  | none => (none, lx)
  | some m => ((lx.follow (.fixed lx.rest m)).1, (lx.follow (.fixed lx.rest m)).2)

namespace Cursor

variable {α β : Type} {text : String} {lx : Lexer}

namespace Tells

theorem findM? {p : α → Move Bool} {q : α → Bool} {l : List α}
    (h : ∀ a ∈ l, Tells text (p a) lx (q a)) : Tells text (l.findM? p) lx (l.find? q) := by
  induction l with
  | nil => exact pure none
  | cons a l ih =>
    obtain ⟨ha, hl⟩ := List.forall_mem_cons.mp h
    refine ha.bind ?_
    cases hq : q a with
    | true =>
      rw [List.find?_cons_of_pos hq]
      exact pure (some a)
    | false =>
      rw [List.find?_cons_of_neg (Bool.eq_false_iff.mp hq)]
      exact ih hl

theorem findSomeM? {p : α → Move (Option β)} {q : α → Option β} {l : List α}
    (h : ∀ a ∈ l, Tells text (p a) lx (q a)) :
    Tells text (l.findSomeM? p) lx (l.findSome? q) := by
  induction l with
  | nil => exact pure none
  | cons a l ih =>
    obtain ⟨ha, hl⟩ := List.forall_mem_cons.mp h
    refine ha.bind ?_
    cases hq : q a with
    | some b =>
      rw [List.findSome?_cons_of_isSome (by rw [hq]; rfl), hq]
      exact pure (some b)
    | none =>
      rw [List.findSome?_cons_of_isNone (by rw [hq]; rfl)]
      exact ih hl

/-- A word in ASCII is found by its bytes just where it is found by its characters. -/
theorem matchPrefix {word : String} (hw : Small word) :
    Tells text (matchPrefix word) lx (beginsWith word.toList lx.rest) := by
  intro cu done h
  have hslice (s : String) : slice? cu.input cu.pos (cu.pos + word.utf8ByteSize) = some s ↔
      ∃ back, lx.rest = s.toList ++ back ∧ word.utf8ByteSize = s.utf8ByteSize := by
    rw [h.input_eq, h.pos_eq]
    refine slice?_ahead_iff ?_
    rw [h.stands.text_eq, List.append_assoc]
  have hmatch : (slice? cu.input cu.pos (cu.pos + word.utf8ByteSize)).any (sameBytes · word) =
      beginsWith word.toList lx.rest := by
    rw [Bool.eq_iff_iff, Option.any_eq_true, beginsWith_iff]
    constructor
    · rintro ⟨s, hs, hsame⟩
      obtain ⟨back, hrest, _⟩ := (hslice s).mp hs
      exact ⟨s.toList, back, hrest, (sameBytes_iff hw.ascii).mp hsame⟩
    · rintro ⟨front, back, hrest, hlower⟩
      have hsame : sameBytes (String.ofList front) word = true :=
        (sameBytes_iff hw.ascii).mpr (by rw [String.toList_ofList, hlower])
      refine ⟨String.ofList front, (hslice _).mpr ⟨back, ?_, ?_⟩, hsame⟩
      · rw [String.toList_ofList, hrest]
      · rw [← byteWidth_toList, ← byteWidth_of_lower hw.ascii hlower]
        rfl
  simp [Cursor.matchPrefix, hmatch]

theorem probeWord {follows : Option Char → Bool} {word : String} (hw : Small word) :
    Tells text (probeWord follows word) lx
      (beginsWith word.toList lx.rest && follows (lx.rest.drop word.length).head?) := by
  refine (matchPrefix hw).bind ?_
  cases beginsWith word.toList lx.rest with
  | false => exact pure false
  | true =>
    rw [List.head?_drop, ← hw.utf8ByteSize_eq]
    exact (peekAhead text lx _).bind (pure _)

theorem findWord {words : List (String × TokenKind)} (follows : Option Char → Bool)
    (hw : ∀ v ∈ words, Small v.1) :
    Tells text (findWord follows words) lx (words.find? fun v =>
      beginsWith v.1.toList lx.rest && follows (lx.rest.drop v.1.length).head?) :=
  findM? fun v hv => probeWord (hw v hv)

theorem gapEndWithin {size : Nat} (hs : lx.rest.length ≤ size) (width : Nat) :
    Tells text (gapEndWithin size width) lx
      (width + frontWidth isSpace (lx.rest.drop width)) := by
  generalize hr : lx.rest.drop width = rest
  induction rest generalizing width with
  | nil =>
    rw [Cursor.gapEndWithin]
    refine (peekAhead text lx width).bind ?_
    rw [← List.head?_drop, hr]
    exact pure width
  | cons c rest ih =>
    rw [Cursor.gapEndWithin]
    refine (peekAhead text lx width).bind ?_
    rw [← List.head?_drop, hr]
    by_cases hc : isSpace c = true
    · have hlt : width < lx.rest.length := by
        refine Nat.lt_of_not_le fun hle => ?_
        rw [List.drop_eq_nil_iff.mpr hle] at hr
        cases hr
      have htail : lx.rest.drop (width + 1) = rest := by
        rw [← List.drop_drop, hr]
        rfl
      have hmore := ih (width + 1) htail
      have hwidth : width + frontWidth isSpace (c :: rest) =
          width + 1 + frontWidth isSpace rest := by
        rw [frontWidth, List.takeWhile_cons_of_pos hc, List.length_cons, frontWidth]
        omega
      have hany : (c :: rest).head?.any isSpace = true := hc
      rw [if_pos hany, if_pos (by omega), hwidth]
      exact hmore
    · have hany : ¬(c :: rest).head?.any isSpace = true := hc
      rw [if_neg hany, frontWidth, List.takeWhile_cons_of_neg hc, List.length_nil, Nat.add_zero]
      exact pure width

theorem gapEnd (text : String) (lx : Lexer) (width : Nat) :
    Tells text (gapEnd width) lx (width + frontWidth isSpace (lx.rest.drop width)) := by
  intro cu done h
  have hle : lx.rest.length ≤ cu.input.utf8ByteSize := by
    rw [h.input_eq, ← byteWidth_toList, h.stands.text_eq]
    have hlength := length_le_byteWidth lx.rest
    simp only [byteWidth_append]
    omega
  exact gapEndWithin hle width cu done h

theorem matchAhead (text : String) (lx : Lexer) (word : List Char) (width : Nat) :
    Tells text (matchAhead word width) lx (beginsWith word (lx.rest.drop width)) := by
  induction word generalizing width with
  | nil => exact pure true
  | cons c word ih =>
    refine (peekAhead text lx width).bind ?_
    rw [← List.head?_drop]
    cases hr : lx.rest.drop width with
    | nil => exact pure false
    | cons d rest =>
      have htail : lx.rest.drop (width + 1) = rest := by
        rw [← List.drop_drop, hr]
        rfl
      have hmore := ih (width + 1)
      rw [htail] at hmore
      rw [beginsWith]
      cases hc : sameLetter c d with
      | true =>
        have hany : (d :: rest).head?.any (sameLetter c) = true := hc
        rw [if_pos hany, Bool.true_and]
        exact hmore
      | false =>
        have hany : ¬(d :: rest).head?.any (sameLetter c) = true := Bool.eq_false_iff.mp hc
        rw [if_neg hany, Bool.false_and]
        exact pure false

theorem compoundWidth {v : Compound} (hfirst : Small v.first) (hsecond : Small v.second) :
    Tells text (compoundWidth v.first v.second) lx
      ((matchCompound lx.rest v).map Match.width) := by
  refine (matchPrefix hfirst).bind ?_
  rw [matchCompound]
  cases beginsWith v.first.toList lx.rest with
  | false => exact pure none
  | true =>
    rw [hfirst.utf8ByteSize_eq, hsecond.utf8ByteSize_eq]
    refine (gapEnd text lx v.first.length).bind ?_
    have hgap : v.first.length + frontWidth isSpace (lx.rest.drop v.first.length) =
      v.gapEnd lx.rest := rfl
    rw [hgap]
    by_cases hlt : v.first.length < v.gapEnd lx.rest
    · rw [if_neg (by omega), decide_eq_true hlt]
      refine (matchAhead text lx v.second.toList (v.gapEnd lx.rest)).bind ?_
      cases beginsWith v.second.toList (lx.rest.drop (v.gapEnd lx.rest)) with
      | false => exact pure none
      | true =>
        refine (peekAhead text lx (v.width lx.rest)).bind ?_
        rw [← List.head?_drop, ← atBoundary_eq]
        change Tells text (Pure.pure (if atBoundary (lx.rest.drop (v.width lx.rest)) = true then
          some (v.width lx.rest) else none)) lx _
        cases atBoundary (lx.rest.drop (v.width lx.rest)) with
        | true => exact pure _
        | false => exact pure _
    · have heq : v.gapEnd lx.rest = v.first.length := by
        rw [← hgap] at hlt ⊢
        omega
      rw [if_pos heq, decide_eq_false hlt]
      exact pure none

theorem findCompound (text : String) (lx : Lexer) :
    Tells text findCompound lx (compound? lx.rest) := by
  refine findSomeM? fun v hv => ?_
  obtain ⟨hfirst, hsecond⟩ := compounds_small v hv
  refine (compoundWidth hfirst hsecond).bind ?_
  have hkind : ((matchCompound lx.rest v).map Match.width).map (fun width => ⟨width, v.kind⟩) =
      matchCompound lx.rest v := by
    cases hm : matchCompound lx.rest v with
    | none => rfl
    | some m =>
      rw [← matchCompound_kind hm]
      rfl
  rw [hkind]
  exact pure _

theorem findSymbol (text : String) (lx : Lexer) :
    Tells text findSymbol lx (symbols.find? fun v => beginsWith v.1.toList lx.rest) :=
  findM? fun v hv => matchPrefix (symbols_small v hv)

end Tells

namespace Leads

theorem lexFixed (text : String) (lx : Lexer) (n : Nat) (k : TokenKind) :
    Leads text (lexFixed n k) lx (lx.follow (.fixed lx.rest ⟨n, k⟩)) := by
  by_cases hn : n ≤ lx.rest.length
  · rw [Reading.fixed_of_room hn]
    exact (fastForward_true hn).bind (emit text (lx.advance n) k)
  · have hcut : Reading.fixed lx.rest ⟨n, k⟩ = .flaw 0 (.cutShort k) := by
      refine if_neg ?_
      rw [List.length_take]
      dsimp only
      omega
    rw [hcut, Lexer.follow_flaw_zero]
    exact (fastForward_false (Nat.lt_of_not_le hn)).bind (report fun _ => rfl)

/-- To take a word of a table is to take what the table has a match for. -/
theorem lexWord {words : List (String × TokenKind)} {follows : Option Char → Bool}
    (hw : ∀ v ∈ words, Small v.1) : Leads text (lexWord follows words) lx
      (lx.take? ((words.find? fun v =>
        beginsWith v.1.toList lx.rest && follows (lx.rest.drop v.1.length).head?).map
          fun v => ⟨v.1.length, v.2⟩)) := by
  refine (Tells.findWord follows hw).leads.bind ?_
  cases hfind : words.find? fun v =>
      beginsWith v.1.toList lx.rest && follows (lx.rest.drop v.1.length).head? with
  | none => exact pure none
  | some v =>
    have hlength := (hw v (List.mem_of_find?_eq_some hfind)).utf8ByteSize_eq
    dsimp only
    rw [hlength]
    exact (lexFixed text lx _ _).bind (pure _)

theorem lexCompound (text : String) (lx : Lexer) :
    Leads text lexCompound lx (lx.take? (compound? lx.rest)) := by
  refine (Tells.findCompound text lx).leads.bind ?_
  cases compound? lx.rest with
  | none => exact pure none
  | some m => exact (lexFixed text lx _ _).bind (pure _)

theorem lexSymbol (text : String) (lx : Lexer) :
    Leads text lexSymbol lx (lx.take? (symbol? lx.rest)) := by
  refine (Tells.findSymbol text lx).leads.bind ?_
  rw [symbol?_eq_find?]
  cases symbols.find? fun v => beginsWith v.1.toList lx.rest with
  | none => exact pure none
  | some v => exact (lexFixed text lx _ _).bind (pure _)

theorem lexKeyword (text : String) (lx : Lexer) :
    Leads text (Cursor.lexWord isBoundary keywords) lx (lx.take? (keyword? lx.rest)) := by
  rw [keyword?_eq_find?]
  exact lexWord keywords_small

theorem lexFunction (text : String) (lx : Lexer) :
    Leads text (Cursor.lexWord (· == some '(') functions) lx (lx.take? (function? lx.rest)) := by
  rw [function?_eq_find?]
  exact lexWord functions_small

end Leads

end Cursor

end SqlSelect
