import SqlSelect.Numeral.Unsigned
import SqlSelect.ParseError

namespace SqlSelect

/-- The tokens of one text. The last is an end of input, though others may stand before it. -/
structure TokenList where
  front : Array Token
  final : Token
  final_isEof : final.isEof = true
  front_noError : ∀ t ∈ front, t.isError = false
deriving DecidableEq

/-- The end of input that belongs after a token: on its line whatever its text, and in a column
of 64 bits. The sum starts again at zero as in a build that does not check for overflow; one that
does stops there instead. -/
def Token.endAfter (t : Token) : Token :=
  ⟨.eof, "", ⟨t.position.line, (t.position.column + t.text.length) % wordBound⟩⟩

namespace TokenList

def ofTokens (tokens : List Token) : Except ParseError TokenList :=
  match he : tokens.find? Token.isError with
  | some t => .error (.ofErrorToken t)
  | none =>
    have hn : ∀ t ∈ tokens, t.isError = false := by simpa using he
    match hl : tokens.getLast? with
    | none => .error .emptyInput
    | some last =>
      if h : last.isEof = true then
        .ok ⟨tokens.dropLast.toArray, last, h,
          fun t ht => hn t (List.dropLast_subset tokens (by simpa using ht))⟩
      else .ok ⟨tokens.toArray, last.endAfter, rfl, fun t ht => hn t (by simpa using ht)⟩

def toList (ts : TokenList) : List Token := ts.front.toList ++ [ts.final]

def size (ts : TokenList) : Nat := ts.front.size + 1

/-- Every index past the last token is an end of input too. -/
def token (ts : TokenList) (i : Nat) : Token := ts.front[i]?.getD ts.final

def kind (ts : TokenList) (i : Nat) : TokenKind := (ts.token i).kind

/-- The tokens from one index to another, both included. -/
def span (ts : TokenList) (first last : Nat) : List Token :=
  (List.range' first (last + 1 - first)).map ts.token

@[simp] theorem length_toList (ts : TokenList) : ts.toList.length = ts.size := by
  simp [toList, size]

theorem token_of_size_le {ts : TokenList} {i : Nat} (h : ts.size ≤ i + 1) :
    ts.token i = ts.final := by
  unfold token
  rw [Array.getElem?_eq_none (by unfold size at h; omega)]
  rfl

theorem kind_of_size_le {ts : TokenList} {i : Nat} (h : ts.size ≤ i + 1) : ts.kind i = .eof := by
  rw [kind, token_of_size_le h]
  simpa [Token.isEof] using ts.final_isEof

/-- A token that is no end of input has another after it. -/
theorem lt_size_of_kind {ts : TokenList} {i : Nat} (h : ts.kind i ≠ .eof) : i + 1 < ts.size :=
  Nat.lt_of_not_le fun hs => h (kind_of_size_le hs)

theorem getElem?_toList {ts : TokenList} {i : Nat} (h : i < ts.size) :
    ts.toList[i]? = some (ts.token i) := by
  unfold toList token
  by_cases hi : i < ts.front.size
  · rw [List.getElem?_append_left (by simpa using hi)]
    simp [hi]
  · obtain rfl : i = ts.front.size := by unfold size at h; omega
    simp

theorem token_mem_toList (ts : TokenList) (i : Nat) : ts.token i ∈ ts.toList := by
  by_cases hi : i < ts.size
  · exact List.mem_of_getElem? (getElem?_toList hi)
  · rw [token_of_size_le (by omega), toList]
    exact List.mem_append_right _ List.mem_cons_self

theorem isError_eq_false (ts : TokenList) {t : Token} (ht : t ∈ ts.toList) :
    t.isError = false := by
  rcases List.mem_append.mp ht with ht | ht
  · exact ts.front_noError t (Array.mem_toList_iff.mp ht)
  · have hf : ts.final.kind = .eof := by simpa [Token.isEof] using ts.final_isEof
    rw [List.mem_singleton.mp ht]
    simp [Token.isError, hf]

end TokenList

end SqlSelect
