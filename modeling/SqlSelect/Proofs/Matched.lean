import SqlSelect.Proofs.AsciiBytes
import SqlSelect.Proofs.CallSequence
import SqlSelect.Proofs.NumberGrammar
import SqlSelect.Proofs.WholeWord

namespace SqlSelect

/-- Some characters are the two words of a keyword, with white space between them. -/
def IsPair (kind : TokenKind) (taken : List Char) : Prop :=
  ∃ v ∈ compounds, v.kind = kind ∧ ∃ first gap second, taken = first ++ (gap ++ second) ∧
    lowered first = v.first ∧ lowered second = v.second ∧ gap ≠ [] ∧ ∀ c ∈ gap, isSpace c = true

section

variable {text taken : List Char} {m : Match} {follows : List Char → Bool}

/-- A word that a text begins with is as many characters of it, each of one byte. -/
theorem exists_of_beginsWith {w : String} (hw : Small w) (h : beginsWith w.toList text = true) :
    ∃ taken after, text = taken ++ after ∧ taken.length = w.length ∧
      taken.map Char.toLower = w.toList ∧ ∀ c ∈ taken, IsAscii c := by
  obtain ⟨taken, after, rfl, htaken⟩ := beginsWith_iff.mp h
  rw [hw.lower_eq] at htaken
  refine ⟨taken, after, rfl, ?_, htaken, fun c hc => ?_⟩
  · rw [← String.length_toList, ← htaken, List.length_map]
  · have hl : c.toLower ∈ w.toList := htaken ▸ List.mem_map_of_mem hc
    exact isAscii_of_toLower (hw _ hl).2

/-- A match of one word is as many characters as the word has, all of them there. -/
theorem exists_of_findWord {words : List (String × TokenKind)} (hw : ∀ v ∈ words, Small v.1)
    (h : words.findSome? (matchWord follows text) = some m) : ∃ taken after,
      text = taken ++ after ∧ taken.length = m.width ∧ (lowered taken, m.kind) ∈ words := by
  obtain ⟨v, hv, h⟩ := List.exists_of_findSome?_eq_some h
  unfold matchWord at h
  split at h
  next hb =>
    cases Option.some.inj h
    obtain ⟨taken, after, ht, hlength, hword, _⟩ :=
      exists_of_beginsWith (hw v hv) ((Bool.and_eq_true _ _).mp hb).1
    refine ⟨taken, after, ht, hlength, ?_⟩
    rw [lowered, hword, String.ofList_toList]
    exact hv
  next => cases h

/-- A match of two words is both of them and all that is between them. -/
theorem exists_of_compound? (h : compound? text = some m) :
    ∃ taken after, text = taken ++ after ∧ taken.length = m.width ∧ IsPair m.kind taken := by
  obtain ⟨⟨v, hv, hkind, hfirst, hspace, hsecond, _⟩, hwidth⟩ :=
    exists_matchCompound_iff.mp (List.exists_of_findSome?_eq_some h)
  obtain ⟨after, hafter⟩ := twoWords_begins text
  refine ⟨twoWords text, after, hafter.symm, hwidth.symm, v, hv, hkind, _, _, _, rfl, hfirst,
    hsecond, ?_, List.all_eq_true.mp List.all_takeWhile⟩
  exact List.length_pos_iff.mp (frontWidth_pos_iff.mpr hspace)

end

/-- A reading that is not cut short by the end of the text. -/
def Reading.Uncut (r : Reading) : Prop := ∀ kind, r.verdict ≠ .error (.cutShort kind)

namespace Reading

theorem uncut_token {width : Nat} {kind : TokenKind} : (token width kind).Uncut :=
  fun _ h => nomatch h

theorem uncut_flaw {width : Nat} {f : Flaw} (hf : ∀ kind, f ≠ .cutShort kind) :
    (flaw width f).Uncut := fun kind h => hf kind (Except.error.inj h)

/-- A match that there is room for is a token. -/
theorem fixed_of_room {text : List Char} {m : Match} (h : m.width ≤ text.length) :
    fixed text m = token m.width m.kind := fixed_eq_token.mpr ⟨rfl, h⟩

theorem uncut_fixed {text taken after : List Char} {m : Match} (ht : text = taken ++ after)
    (hm : taken.length = m.width) : (fixed text m).Uncut := by
  rw [fixed_of_room (by rw [ht, List.length_append]; omega)]
  exact uncut_token

end Reading

section

variable {text rest : List Char} {c : Char}

theorem word?_cases {m : Match} (h : word? text = some m) :
    keyword? text = some m ∨ compound? text = some m ∨ function? text = some m := by
  simp only [word?, Option.orElse_eq_orElse, Option.orElse_eq_or, Option.or_eq_some_iff] at h
  rcases h with h | ⟨_, h | ⟨_, h⟩⟩
  · exact .inl h
  · exact .inr (.inl h)
  · exact .inr (.inr h)

theorem word?_room {m : Match} (h : word? text = some m) :
    ∃ taken after, text = taken ++ after ∧ taken.length = m.width := by
  rcases word?_cases h with h | h | h
  · obtain ⟨taken, after, ht, hm, _⟩ := exists_of_findWord keywords_small h
    exact ⟨taken, after, ht, hm⟩
  · obtain ⟨taken, after, ht, hm, _⟩ := exists_of_compound? h
    exact ⟨taken, after, ht, hm⟩
  · obtain ⟨taken, after, ht, hm, _⟩ := exists_of_findWord functions_small h
    exact ⟨taken, after, ht, hm⟩

theorem readNumber_uncut (text : List Char) : (readNumber text).Uncut := by
  rcases readNumber_eq text with he | ⟨_, n, he⟩
  · rw [he]
    unfold endNumber
    split
    next => exact Reading.uncut_flaw nofun
    next => exact Reading.uncut_token
  · rw [he]
    exact Reading.uncut_flaw nofun

theorem readString_uncut : (readString c rest).Uncut := by
  unfold readString
  split
  next => exact Reading.uncut_token
  next => exact Reading.uncut_flaw nofun

theorem readBacktick_uncut : (readBacktick rest).Uncut := by
  unfold readBacktick
  split
  next => exact Reading.uncut_token
  next => exact Reading.uncut_flaw nofun

theorem readSymbol_uncut : (readSymbol c rest).Uncut := by
  unfold readSymbol
  split
  next m h =>
    obtain ⟨taken, after, ht, hm, _⟩ := exists_of_findWord symbols_small h
    exact Reading.uncut_fixed ht hm
  next => exact Reading.uncut_flaw nofun

theorem readFrom_uncut : (readFrom c rest).Uncut := by
  unfold readFrom
  split
  next => exact Reading.uncut_token
  split
  next => exact readNumber_uncut _
  split
  next => exact readString_uncut
  split
  next => exact readBacktick_uncut
  split
  next => exact Reading.uncut_token
  next => exact readSymbol_uncut

/-- No text ends within a word of the tables that was found in it. -/
theorem scan_uncut (text : List Char) : (scan text).Uncut := by
  unfold scan
  split
  next m h =>
    obtain ⟨taken, after, ht, hm⟩ := word?_room h
    exact Reading.uncut_fixed ht hm
  next =>
    split
    next => exact Reading.uncut_token
    next => exact readFrom_uncut

end

/-- How a message begins that tells of a token the text ends in. -/
def cutShortPhrase : String := "unexpected end of input while reading"

/-- Three characters tell it from the other messages. -/
theorem not_begins_append {s : String} (hs : s.toList.take 3 ≠ cutShortPhrase.toList.take 3)
    (hlen : 3 ≤ s.toList.length) (t : String) : ¬cutShortPhrase.toList <+: (s ++ t).toList := by
  rintro ⟨rest, hrest⟩
  have htake := congrArg (List.take 3) hrest
  rw [String.toList_append, List.take_append_of_le_length hlen,
    List.take_append_of_le_length (by decide)] at htake
  exact hs htake.symm

theorem Flaw.message_begins_iff {f : Flaw} {read : String} {p : Position} :
    cutShortPhrase.toList <+: (f.message read p).toList ↔ ∃ kind, f = .cutShort kind := by
  have hquoting {s : String} (hs : s.toList.take 3 ≠ cutShortPhrase.toList.take 3)
      (hlen : 3 ≤ s.toList.length) (t u v : String) :
      ¬cutShortPhrase.toList <+: (s ++ t ++ u ++ v).toList := by
    rw [String.append_assoc, String.append_assoc]
    exact not_begins_append hs hlen _
  have hbegins (t u v : String) :
      cutShortPhrase.toList <+: (cutShortPhrase ++ " " ++ t ++ u ++ v).toList := by
    simp only [String.toList_append, List.append_assoc]
    exact List.prefix_append _ _
  cases f with
  | cutShort kind => exact ⟨fun _ => ⟨kind, rfl⟩, fun _ => hbegins kind.spelling " at " p.phrase⟩
  | number =>
    refine ⟨fun h => ?_, nofun⟩
    exact (hquoting (s := "malformed number literal '") (by decide) (by decide) _ _ _ h).elim
  | string =>
    refine ⟨fun h => ?_, nofun⟩
    exact (not_begins_append (s := "unterminated quoted string starting at ") (by decide)
      (by decide) _ h).elim
  | backtick =>
    refine ⟨fun h => ?_, nofun⟩
    exact (not_begins_append (s := "unterminated backtick literal starting at ") (by decide)
      (by decide) _ h).elim
  | character c =>
    refine ⟨fun h => ?_, nofun⟩
    exact (hquoting (s := "unrecognized character ") (by decide) (by decide) _ _ _ h).elim

namespace Lexer

variable {lx : Lexer}

theorem nextToken_uncut (h : lx.nextToken.1.isError = true) :
    ¬cutShortPhrase.toList <+: lx.nextToken.1.text.toList := by
  have huncut := scan_uncut lx.skipBlanks.rest
  unfold nextToken follow at h ⊢
  split
  next kind hk =>
    rw [hk] at h
    rcases scan_token hk with ⟨_, rfl, _⟩ | ⟨hterminal, _⟩
    · cases h
    · cases (Token.isError_of_not_terminal hterminal).symm.trans h
  next f hf =>
    intro hbegins
    obtain ⟨kind, rfl⟩ := Flaw.message_begins_iff.mp hbegins
    exact huncut kind hf

/-- No answer reports that the text ends within a word. -/
theorem answers_uncut {calls : List Call} {t : Token} (ha : some t ∈ lx.answers calls)
    (ht : t.isError = true) : ¬cutShortPhrase.toList <+: t.text.toList := by
  induction calls generalizing lx with
  | nil => cases ha
  | cons c calls ih =>
    rcases List.mem_cons.mp ha with ha | ha
    · rcases lx.call_cases c with ⟨-, -, he⟩ | ⟨b, he⟩
      · rw [he] at ha
        cases ha
      · rw [he] at ha
        cases Option.some.inj ha
        exact nextToken_uncut ht
    · exact ih ha

end Lexer

end SqlSelect
