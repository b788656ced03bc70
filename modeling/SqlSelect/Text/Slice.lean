namespace SqlSelect

/-- The text from one byte to another, where both places are boundaries of characters. -/
def slice? (text : String) (first last : Nat) : Option String :=
  if h : String.Pos.Raw.IsValid text ⟨first⟩ ∧ String.Pos.Raw.IsValid text ⟨last⟩ ∧
      first ≤ last then
    some (text.extract ⟨⟨first⟩, h.1⟩ ⟨⟨last⟩, h.2.1⟩)
  else none

def bytes (text : String) : List UInt8 := text.toByteArray.data.toList

/-- Whether two texts are the same, byte by byte, but for the case of ASCII letters. -/
def sameBytes (s t : String) : Bool :=
  (bytes s).map UInt8.toAsciiLower == (bytes t).map UInt8.toAsciiLower

/-- How many bytes some characters take. -/
def byteWidth (w : List Char) : Nat := (String.ofList w).utf8ByteSize

@[simp] theorem byteWidth_nil : byteWidth [] = 0 := rfl

@[simp] theorem byteWidth_cons (c : Char) (w : List Char) :
    byteWidth (c :: w) = c.utf8Size + byteWidth w := by
  rw [byteWidth, String.ofList_cons, String.utf8ByteSize_append, String.utf8ByteSize_singleton,
    byteWidth]

@[simp] theorem byteWidth_append (s t : List Char) :
    byteWidth (s ++ t) = byteWidth s + byteWidth t := by
  rw [byteWidth, String.ofList_append, String.utf8ByteSize_append, byteWidth, byteWidth]

@[simp] theorem byteWidth_toList (s : String) : byteWidth s.toList = s.utf8ByteSize := by
  rw [byteWidth, String.ofList_toList]

theorem byteWidth_take_add_drop (w : List Char) (n : Nat) :
    byteWidth (w.take n) + byteWidth (w.drop n) = byteWidth w := by
  rw [← byteWidth_append, List.take_append_drop]

theorem length_le_byteWidth (w : List Char) : w.length ≤ byteWidth w := by
  induction w with
  | nil => exact Nat.le_refl _
  | cons c w ih =>
    have hpos := c.utf8Size_pos
    rw [List.length_cons, byteWidth_cons]
    omega

theorem byteWidth_drop_lt {w : List Char} {n : Nat} (h : (w.drop n).length < w.length) :
    byteWidth (w.drop n) < byteWidth w := by
  have hwidth := byteWidth_take_add_drop w n
  have hle := length_le_byteWidth (w.take n)
  rw [List.length_drop] at h
  rw [List.length_take] at hle
  omega

section

variable {text s : String} {first last : Nat}

/-- What is sliced out of a text stands between its front and its back. -/
theorem exists_of_slice? (h : slice? text first last = some s) : ∃ front back,
    text = front ++ s ++ back ∧ first = front.utf8ByteSize ∧ last = first + s.utf8ByteSize := by
  unfold slice? at h
  split at h
  next hv =>
    obtain ⟨hfirst, hlast, hle⟩ := hv
    have hs : s.toByteArray = text.toByteArray.extract first last := by
      rw [← Option.some.inj h, String.toByteArray_extract]
    obtain ⟨front, rest, htext, hfront⟩ := String.Pos.Raw.isValid_iff_exists_append.mp hfirst
    obtain ⟨upto, back, htext', hupto⟩ := String.Pos.Raw.isValid_iff_exists_append.mp hlast
    have hfront : first = front.utf8ByteSize := congrArg String.Pos.Raw.byteIdx hfront
    have hupto : last = upto.utf8ByteSize := congrArg String.Pos.Raw.byteIdx hupto
    have hfirst : text.toByteArray.extract 0 first = front.toByteArray := by
      rw [htext, String.toByteArray_append, ByteArray.extract_append_eq_left hfront]
    have hlast : text.toByteArray.extract 0 last = upto.toByteArray := by
      rw [htext', String.toByteArray_append, ByteArray.extract_append_eq_left hupto]
    have hjoin : upto = front ++ s := by
      rw [← String.toByteArray_inj, String.toByteArray_append, hs, ← hfirst, ← hlast]
      exact ByteArray.extract_eq_extract_append_extract first (Nat.zero_le first) hle
    refine ⟨front, back, ?_, hfront, ?_⟩
    · rw [htext', hjoin]
    · rw [hupto, hjoin, String.utf8ByteSize_append, hfront]
  next => cases h

theorem le_of_slice? (h : slice? text first last = some s) : first ≤ last := by
  obtain ⟨_, _, _, _, hlast⟩ := exists_of_slice? h
  rw [hlast]
  exact Nat.le_add_right _ _

/-- What stands between the front and the back of a text can be sliced out of it. -/
theorem slice?_append (front s back : String) : slice? (front ++ s ++ back) front.utf8ByteSize
    (front.utf8ByteSize + s.utf8ByteSize) = some s := by
  have hfirst : String.Pos.Raw.IsValid (front ++ s ++ back) ⟨front.utf8ByteSize⟩ :=
    String.Pos.Raw.isValid_iff_exists_append.mpr ⟨front, s ++ back, String.append_assoc, rfl⟩
  have hlast : String.Pos.Raw.IsValid (front ++ s ++ back)
      ⟨front.utf8ByteSize + s.utf8ByteSize⟩ :=
    String.Pos.Raw.isValid_iff_exists_append.mpr
      ⟨front ++ s, back, rfl, by rw [String.rawEndPos, String.utf8ByteSize_append]⟩
  have hbytes : (front ++ s ++ back).toByteArray =
      front.toByteArray ++ (s.toByteArray ++ back.toByteArray) := by
    rw [String.append_assoc, String.toByteArray_append, String.toByteArray_append]
  unfold slice?
  rw [dif_pos ⟨hfirst, hlast, Nat.le_add_right _ _⟩, Option.some_inj, ← String.toByteArray_inj,
    String.toByteArray_extract]
  calc _ = (front.toByteArray ++ (s.toByteArray ++ back.toByteArray)).extract
        (front.toByteArray.size + 0) (front.toByteArray.size + s.toByteArray.size) := by
          rw [← hbytes]
          rfl
    _ = (s.toByteArray ++ back.toByteArray).extract 0 s.toByteArray.size :=
        ByteArray.extract_append_size_add
    _ = s.toByteArray := ByteArray.extract_append_eq_left rfl

theorem slice?_eq_some_iff : slice? text first last = some s ↔ ∃ front back,
    text = front ++ s ++ back ∧ first = front.utf8ByteSize ∧ last = first + s.utf8ByteSize := by
  refine ⟨exists_of_slice?, ?_⟩
  rintro ⟨front, back, rfl, rfl, rfl⟩
  exact slice?_append front s back

theorem append_inj_of_byteWidth {a b c d : List Char} (h : a ++ b = c ++ d)
    (hw : byteWidth a = byteWidth c) : a = c ∧ b = d := by
  induction a generalizing c with
  | nil =>
    cases c with
    | nil => exact ⟨rfl, h⟩
    | cons x c =>
      have hpos := x.utf8Size_pos
      rw [byteWidth_nil, byteWidth_cons] at hw
      omega
  | cons x a ih =>
    cases c with
    | nil =>
      have hpos := x.utf8Size_pos
      rw [byteWidth_nil, byteWidth_cons] at hw
      omega
    | cons y c =>
      obtain ⟨rfl, htail⟩ := List.cons.inj h
      rw [byteWidth_cons, byteWidth_cons] at hw
      obtain ⟨rfl, hb⟩ := ih htail (Nat.add_left_cancel hw)
      exact ⟨rfl, hb⟩

/-- What is sliced off the text that comes after its front. -/
theorem slice?_ahead_iff {front rest : List Char} {n : Nat} (h : text.toList = front ++ rest) :
    slice? text (byteWidth front) (byteWidth front + n) = some s ↔
      ∃ back, rest = s.toList ++ back ∧ n = s.utf8ByteSize := by
  rw [slice?_eq_some_iff]
  constructor
  · rintro ⟨a, b, rfl, ha, hn⟩
    have htext : front ++ rest = a.toList ++ (s.toList ++ b.toList) := by
      rw [← h]
      simp
    obtain ⟨rfl, hrest⟩ := append_inj_of_byteWidth htext (by rw [ha, byteWidth_toList])
    exact ⟨b.toList, hrest, Nat.add_left_cancel hn⟩
  · rintro ⟨back, rfl, rfl⟩
    refine ⟨String.ofList front, String.ofList back, ?_, rfl, rfl⟩
    rw [← String.toList_inj, h]
    simp

theorem slice?_of_toList {front w back : List Char} (h : text.toList = front ++ (w ++ back)) :
    slice? text (byteWidth front) (byteWidth (front ++ w)) = some (String.ofList w) := by
  rw [byteWidth_append]
  exact (slice?_ahead_iff h).mpr ⟨back, by rw [String.toList_ofList], rfl⟩

end

end SqlSelect
