import SqlSelect.Proofs.LeadingTokens
import SqlSelect.Proofs.Spacing

namespace SqlSelect

/-- Some text is a word in ASCII, byte by byte, in whatever case. -/
structure IsWord (word taken : String) : Prop where
  same : sameBytes taken word = true
  size_eq : taken.utf8ByteSize = word.utf8ByteSize
  ascii : ∀ c ∈ taken.toList, IsAscii c

section

variable {text : List Char} {m : Match}

theorem KeywordAt.of_keyword? (h : keyword? text = some m) : KeywordAt text m.kind :=
  ((exists_matchWord_iff keywords_plain endsWord_boundary).mp
    (List.exists_of_findSome?_eq_some h)).1

theorem CompoundAt.of_compound? (h : compound? text = some m) : CompoundAt text m.kind :=
  (exists_matchCompound_iff.mp (List.exists_of_findSome?_eq_some h)).1

theorem FunctionAt.of_function? (h : function? text = some m) : FunctionAt text m.kind :=
  ((exists_matchWord_iff functions_plain endsWord_call).mp
    (List.exists_of_findSome?_eq_some h)).1

theorem keyword?_of_compound? (h : compound? text = some m) : keyword? text = none := by
  cases hk : keyword? text with
  | none => rfl
  | some m' => exact ((KeywordAt.of_keyword? hk).not_compoundAt (.of_compound? h)).elim

theorem keyword?_of_function? (h : function? text = some m) : keyword? text = none := by
  cases hk : keyword? text with
  | none => rfl
  | some m' => exact ((KeywordAt.of_keyword? hk).not_functionAt (.of_function? h)).elim

theorem compound?_of_function? (h : function? text = some m) : compound? text = none := by
  cases hk : compound? text with
  | none => rfl
  | some m' => exact ((CompoundAt.of_compound? hk).not_functionAt (.of_function? h)).elim

end

namespace Cursor

/-- There are as many characters ahead as asked for. To skip so many goes forward over just what is
taken, and this is the token. -/
structure Takes (here : Cursor) (n : Nat) (kind : TokenKind) (taken : String) : Prop where
  length_eq : taken.length = n
  skips : ∃ rest here', slice? here.input here.pos here.input.utf8ByteSize = some rest ∧
    n ≤ rest.length ∧ fastForward n here = some (true, here') ∧
    slice? here.input here.pos here'.pos = some taken ∧ lexFixed n kind here = emit kind here'

/-- To look for a word leaves the cursor as it is. If there is one, the token that comes next is so
many characters as the word is wide, which are the word. -/
def TakesWord (cu here : Cursor) (find : Move (Option (String × TokenKind)))
    (width : String → Nat) : Prop :=
  ∃ found, find here = some (found, here) ∧ ∀ word kind, found = some (word, kind) →
    nextToken cu = lexFixed (width word) kind here ∧
      ∃ taken, here.Takes (width word) kind taken ∧ IsWord word taken

/-- The same of two words and the white space between them. -/
def TakesPair (cu here : Cursor) : Prop :=
  ∃ found, findCompound here = some (found, here) ∧ ∀ m, found = some m →
    nextToken cu = lexFixed m.width m.kind here ∧
      ∃ taken, here.Takes m.width m.kind taken ∧ IsPair m.kind taken.toList

section

variable {x : Move (Option Token)} {y z : Move Token} {here : Cursor}

theorem orElse_of_some (h : x here = (some <$> z) here) : (do
    if let some t ← x then return t
    y : Move Token) here = z here := by
  rw [bind_apply, h, map_apply]
  cases z here with
  | none => rfl
  | some r => rfl

theorem orElse_of_none (h : x here = some (none, here)) : (do
    if let some t ← x then return t
    y : Move Token) here = y here := by
  rw [bind_apply, h]
  rfl

theorem lexWord_of_some {follows : Option Char → Bool} {words : List (String × TokenKind)}
    {word : String} {kind : TokenKind}
    (h : findWord follows words here = some (some (word, kind), here)) :
    lexWord follows words here = (some <$> lexFixed word.utf8ByteSize kind) here := by
  rw [lexWord, bind_apply, h]
  rfl

theorem lexCompound_of_some {m : Match} (h : findCompound here = some (some m, here)) :
    lexCompound here = (some <$> lexFixed m.width m.kind) here := by
  rw [lexCompound, bind_apply, h]
  rfl

theorem lexFrom_of_startsSymbol {c : Char} (hc : startsSymbol c = true) (second : Option Char) :
    lexFrom (some c) second = lexFrom.lexRest (some c) := by
  have hword := isWordChar_of_startsSymbol hc
  have hstart : (isAlphabetic c || c == '_') = false := isWordStart_of_not_isWordChar hword
  have hne {d : Char} (hd : startsSymbol d = false) : c ≠ d := by
    rintro rfl
    cases hd.symm.trans hc
  have hcolon : c ≠ ':' := hne (by decide)
  have hquote : c ≠ '\'' := hne (by decide)
  have hquotes : c ≠ '"' := hne (by decide)
  have hbacktick : c ≠ '\x60' := hne (by decide)
  simp only [lexFrom, hcolon, isDecimal_of_not_isWordChar hword, hquote, hquotes, hbacktick, hstart]
  rfl

theorem lexSymbol_of_some {word : String} {kind : TokenKind}
    (h : findSymbol here = some (some (word, kind), here)) :
    lexSymbol here = (some <$> lexFixed word.length kind) here := by
  rw [lexSymbol, bind_apply, h]
  rfl

end

namespace Tells

variable {lx : Lexer}

theorem lexWord_of_none (text : String) {follows : Option Char → Bool}
    {words : List (String × TokenKind)} (hw : ∀ v ∈ words, Small v.1)
    (hn : (words.find? fun v =>
      beginsWith v.1.toList lx.rest && follows (lx.rest.drop v.1.length).head?) = none) :
    Tells text (lexWord follows words) lx none := by
  refine (findWord follows hw).bind ?_
  rw [hn]
  exact pure none

theorem lexKeyword_of_none (text : String) (hn : keyword? lx.rest = none) :
    Tells text (lexWord isBoundary keywords) lx none :=
  lexWord_of_none text keywords_small
    (Option.map_eq_none_iff.mp ((keyword?_eq_find? lx.rest).symm.trans hn))

theorem lexFunction_of_none (text : String) (hn : function? lx.rest = none) :
    Tells text (lexWord (· == some '(') functions) lx none :=
  lexWord_of_none text functions_small
    (Option.map_eq_none_iff.mp ((function?_eq_find? lx.rest).symm.trans hn))

theorem lexCompound_of_none (text : String) (hn : compound? lx.rest = none) :
    Tells text lexCompound lx none := by
  refine (findCompound text lx).bind ?_
  rw [hn]
  exact pure none

end Tells

section

variable {text : String} {cu here : Cursor} {lx : Lexer} {done taken after : List Char}

theorem Tracks.takes (h : here.Tracks lx text done) (hr : lx.rest = taken ++ after)
    (kind : TokenKind) : here.Takes taken.length kind (String.ofList taken) := by
  have hle : taken.length ≤ lx.rest.length := by
    rw [hr, List.length_append]
    exact Nat.le_add_right _ _
  obtain ⟨here', done', he, h'⟩ := Leads.fastForward_true hle here done h
  obtain rfl := h'.stands.done_eq (h.stands.advance _)
  have htext : text.toList = (done' ++ lx.pending) ++ (taken ++ after) := by
    rw [h.stands.text_eq, hr, List.append_assoc]
  have hpos : here'.pos = byteWidth ((done' ++ lx.pending) ++ taken) := by
    rw [h'.pos_eq]
    simp [Lexer.advance, hr]
  refine ⟨String.length_ofList, _, here', h.slice?_ahead, ?_, he, ?_, by simp [lexFixed, he]⟩
  · rwa [String.length_ofList]
  · rw [h.input_eq, h.pos_eq, hpos]
    exact slice?_of_toList htext

theorem Tracks.takes_word (h : here.Tracks lx text done) {word : String} (hw : Small word)
    (hb : beginsWith word.toList lx.rest = true) (kind : TokenKind) :
    ∃ taken, here.Takes word.length kind taken ∧ IsWord word taken := by
  obtain ⟨taken, after, hr, hlength, hword, hascii⟩ := exists_of_beginsWith hw hb
  have hlower : taken.map Char.toLower = word.toList.map Char.toLower :=
    hword.trans hw.lower_eq.symm
  refine ⟨String.ofList taken, hlength ▸ h.takes hr kind, ?_, ?_, by rwa [String.toList_ofList]⟩
  · rw [sameBytes_iff hw.ascii, String.toList_ofList, hlower]
  · rw [← byteWidth_toList word, ← byteWidth_of_lower hw.ascii hlower]
    rfl

theorem Tracks.takes_found (h : here.Tracks lx text done) {words : List (String × TokenKind)}
    {p : String × TokenKind → Bool} {word : String} {kind : TokenKind}
    (hw : ∀ v ∈ words, Small v.1)
    (hf : words.find? (fun v => beginsWith v.1.toList lx.rest && p v) = some (word, kind)) :
    ∃ taken, here.Takes word.utf8ByteSize kind taken ∧ IsWord word taken := by
  have hsmall : Small word := hw _ (List.mem_of_find?_eq_some hf)
  have hb := List.find?_some hf
  rw [Bool.and_eq_true] at hb
  rw [hsmall.utf8ByteSize_eq]
  exact h.takes_word hsmall hb.1 kind

theorem nextToken_of_skipBlanks (hs : skipBlanks cu = some ((), here)) :
    nextToken cu = lexToken here := by
  rw [nextToken, bind_apply, hs]
  rfl

theorem Tracks.takes_keyword (h : here.Tracks lx text done)
    (hs : skipBlanks cu = some ((), here)) :
    cu.TakesWord here (findWord isBoundary keywords) String.utf8ByteSize := by
  have hfind := Tells.findWord isBoundary keywords_small here done h
  refine ⟨_, hfind, fun word kind hfound => ?_⟩
  rw [hfound] at hfind
  rw [nextToken_of_skipBlanks hs]
  exact ⟨orElse_of_some (lexWord_of_some hfind), h.takes_found keywords_small hfound⟩

theorem Tracks.takes_pair (h : here.Tracks lx text done) (hs : skipBlanks cu = some ((), here)) :
    cu.TakesPair here := by
  have hfind := Tells.findCompound text lx here done h
  refine ⟨_, hfind, fun m hm => ?_⟩
  obtain ⟨taken, after, hr, hlength, hpair⟩ := exists_of_compound? hm
  have hkeyword := Tells.lexKeyword_of_none text (keyword?_of_compound? hm) here done h
  rw [hm] at hfind
  rw [nextToken_of_skipBlanks hs]
  refine ⟨?_, String.ofList taken, hlength ▸ h.takes hr m.kind, by rwa [String.toList_ofList]⟩
  exact (orElse_of_none hkeyword).trans (orElse_of_some (lexCompound_of_some hfind))

theorem Tracks.takes_function (h : here.Tracks lx text done)
    (hs : skipBlanks cu = some ((), here)) :
    cu.TakesWord here (findWord (· == some '(') functions) String.utf8ByteSize := by
  have hfind := Tells.findWord (· == some '(') functions_small here done h
  refine ⟨_, hfind, fun word kind hfound => ?_⟩
  have hm : function? lx.rest = some ⟨word.length, kind⟩ := by
    rw [function?_eq_find?, hfound]
    rfl
  have hkeyword := Tells.lexKeyword_of_none text (keyword?_of_function? hm) here done h
  have hcompound := Tells.lexCompound_of_none text (compound?_of_function? hm) here done h
  rw [hfound] at hfind
  rw [nextToken_of_skipBlanks hs]
  refine ⟨?_, h.takes_found functions_small hfound⟩
  exact (orElse_of_none hkeyword).trans
    ((orElse_of_none hcompound).trans (orElse_of_some (lexWord_of_some hfind)))

/-- What a symbol begins with begins no other token. -/
theorem lexToken_of_symbol (h : here.Tracks lx text done) {m : Match}
    (hm : symbol? lx.rest = some m) {z : Move Token}
    (hz : lexSymbol here = (some <$> z) here) : lexToken here = z here := by
  cases hr : lx.rest with
  | nil =>
    have hnone : symbol? [] = none := by decide
    rw [hr, hnone] at hm
    cases hm
  | cons c rest =>
    have hc : startsSymbol c = true := by
      refine Bool.of_not_eq_false fun hc => ?_
      rw [hr, symbol?_of_not_startsSymbol hc] at hm
      cases hm
    have hword := isWordStart_of_not_isWordChar (isWordChar_of_startsSymbol hc)
    obtain ⟨hkeyword, hcompound, hfunction⟩ := word?_eq_none.mp (hr ▸ word?_of_not_wordStart hword)
    calc lexToken here = (do lexFrom (← peekAhead 1) (← peekAhead 2)) here :=
          (orElse_of_none (Tells.lexKeyword_of_none text hkeyword here done h)).trans
            ((orElse_of_none (Tells.lexCompound_of_none text hcompound here done h)).trans
              (orElse_of_none (Tells.lexFunction_of_none text hfunction here done h)))
      _ = lexFrom (some c) lx.rest[1]? here := by
          rw [bind_apply, Tells.peekAhead text lx 0 here done h, Option.bind_some, bind_apply,
            Tells.peekAhead text lx 1 here done h, hr]
          rfl
      _ = lexFrom.lexRest (some c) here := by rw [lexFrom_of_startsSymbol hc]
      _ = z here := by
          rw [lexFrom.lexRest, bind_apply, hz, map_apply]
          cases z here with
          | none => rfl
          | some r => rfl

theorem Tracks.takes_symbol (h : here.Tracks lx text done)
    (hs : skipBlanks cu = some ((), here)) : cu.TakesWord here findSymbol String.length := by
  have hfind := Tells.findSymbol text lx here done h
  refine ⟨_, hfind, fun word kind hfound => ?_⟩
  have hw : Small word := symbols_small _ (List.mem_of_find?_eq_some hfound)
  have hb := List.find?_some hfound
  have hm : symbol? lx.rest = some ⟨word.length, kind⟩ := by
    rw [symbol?_eq_find?, hfound]
    rfl
  rw [hfound] at hfind
  rw [nextToken_of_skipBlanks hs]
  exact ⟨lexToken_of_symbol h hm (lexSymbol_of_some hfind), h.takes_word hw hb kind⟩

/-- Whatever calls were made, to look for a word, for two words or for a symbol leaves the cursor as
it is, and what is found comes next: to skip as many characters takes just these. So no answer ever
reports that the text ends too soon. -/
theorem answers_take_matches (text : String) (calls : List Lexer.Call) :
    ∃ given cu here, answers calls (ofText text) = some (given, cu) ∧
      skipBlanks cu = some ((), here) ∧
      cu.TakesWord here (findWord isBoundary keywords) String.utf8ByteSize ∧
      cu.TakesPair here ∧
      cu.TakesWord here (findWord (· == some '(') functions) String.utf8ByteSize ∧
      cu.TakesWord here findSymbol String.length ∧
      ∀ t, some t ∈ given → t.isError = true → ¬cutShortPhrase.toList <+: t.text.toList := by
  obtain ⟨cu, done, he, h⟩ := answers_ofText text calls
  obtain ⟨here, front, hs, hhere⟩ := Leads.skipBlanks text _ cu done h
  exact ⟨_, cu, here, he, hs, hhere.takes_keyword hs, hhere.takes_pair hs, hhere.takes_function hs,
    hhere.takes_symbol hs, fun t => Lexer.answers_uncut⟩

/-- The lexer goes on after an error, and the white space between the words is of three bytes. -/
theorem answers_take_matches_after_error :
    let text := "1a LEFT\u2003join b"
    let error : Token := ⟨.error, "malformed number literal '1a' at line 1, column 1", ⟨1, 1⟩⟩
    let here : Cursor := ⟨text, 3, 3, 0, 1, 4, 4, 1, 4, false⟩
    ∃ cu, answers [.nextToken] (ofText text) = some ([some error], cu) ∧
      skipBlanks cu = some ((), here) ∧ ¬cutShortPhrase.toList <+: error.text.toList ∧
      findCompound here = some (some ⟨9, .leftJoin⟩, here) ∧
      nextToken cu = lexFixed 9 .leftJoin here ∧
      ∃ taken, here.Takes 9 .leftJoin taken ∧ IsPair .leftJoin taken.toList := by
  intro text error here
  obtain ⟨given, cu, here', hrun, hs, _, ⟨found, hfind, hpair⟩, _, _, huncut⟩ :=
    answers_take_matches text [.nextToken]
  have hgiven : answers [.nextToken] (ofText text) =
      some ([some error], ⟨text, 0, 2, 1, 1, 3, 2, 1, 1, false⟩) := by decide +kernel
  obtain ⟨rfl, rfl⟩ := Prod.mk.inj (Option.some.inj (hgiven.symm.trans hrun))
  have hblanks : skipBlanks ⟨text, 0, 2, 1, 1, 3, 2, 1, 1, false⟩ = some ((), here) := by
    decide +kernel
  obtain ⟨_, rfl⟩ := Prod.mk.inj (Option.some.inj (hblanks.symm.trans hs))
  have hcompound : findCompound here = some (some ⟨9, .leftJoin⟩, here) := by decide +kernel
  obtain ⟨rfl, _⟩ := Prod.mk.inj (Option.some.inj (hcompound.symm.trans hfind))
  exact ⟨_, hrun, hs, huncut error List.mem_cons_self rfl, hcompound, hpair _ rfl⟩

end

end Cursor

end SqlSelect
