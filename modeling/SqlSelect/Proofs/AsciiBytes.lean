import SqlSelect.Proofs.LetterCase
import SqlSelect.Text.Slice

namespace SqlSelect

/-- The characters of one byte. -/
def IsAscii (c : Char) : Prop := c.val ≤ 127

instance (c : Char) : Decidable (IsAscii c) := inferInstanceAs (Decidable (c.val ≤ 127))

/-- What is in a table has no capitals and is ASCII. -/
def Small (w : String) : Prop := ∀ c ∈ w.toList, c.toLower = c ∧ IsAscii c

instance (w : String) : Decidable (Small w) :=
  List.decidableBAll (fun c : Char => c.toLower = c ∧ IsAscii c) w.toList

theorem keywords_small : ∀ v ∈ keywords, Small v.1 := by decide

theorem compounds_small : ∀ v ∈ compounds, Small v.first ∧ Small v.second := by decide

theorem functions_small : ∀ v ∈ functions, Small v.1 := by decide

theorem symbols_small : ∀ v ∈ symbols, Small v.1 := by decide

theorem Small.ascii {w : String} (h : Small w) : ∀ c ∈ w.toList, IsAscii c := fun c hc => (h c hc).2

theorem Small.lower_eq {w : String} (h : Small w) : w.toList.map Char.toLower = w.toList :=
  (List.map_congr_left fun c hc => (h c hc).1).trans (List.map_id _)

section

variable {c d : Char} {w s : List Char}

/-- A character is ASCII if its small letter is. -/
theorem isAscii_of_toLower (h : IsAscii c.toLower) : IsAscii c := by
  rcases toLower_eq_or_mem_capitals c with he | hc
  · rwa [he] at h
  · have hcapitals : (capitals.all fun c => decide (IsAscii c)) = true := by decide
    exact of_decide_eq_true (List.all_eq_true.mp hcapitals c hc)

theorem isAscii_toLower (h : IsAscii c) : IsAscii c.toLower := by
  rcases toLower_eq_or_mem_capitals c with he | hc
  · rwa [he]
  · have hcapitals : (capitals.all fun c => decide (IsAscii c.toLower)) = true := by decide
    exact of_decide_eq_true (List.all_eq_true.mp hcapitals c hc)

theorem byteWidth_of_ascii (h : ∀ c ∈ w, IsAscii c) : byteWidth w = w.length := by
  induction w with
  | nil => rfl
  | cons c w ih =>
    obtain ⟨hc, hw⟩ := List.forall_mem_cons.mp h
    rw [byteWidth_cons, ih hw, Char.utf8Size_eq_one_iff.mpr hc, List.length_cons, Nat.add_comm]

/-- What is a word in ASCII but for the case of letters has as many bytes. -/
theorem byteWidth_of_lower (hw : ∀ c ∈ w, IsAscii c)
    (h : s.map Char.toLower = w.map Char.toLower) : byteWidth s = byteWidth w := by
  have hs : ∀ c ∈ s, IsAscii c := by
    intro c hc
    have hlower : c.toLower ∈ w.map Char.toLower := h ▸ List.mem_map_of_mem hc
    obtain ⟨d, hd, he⟩ := List.mem_map.mp hlower
    exact isAscii_of_toLower (he ▸ isAscii_toLower (hw d hd))
  rw [byteWidth_of_ascii hs, byteWidth_of_ascii hw]
  simpa using congrArg List.length h

theorem bytes_ofList (w : List Char) :
    bytes (String.ofList w) = w.flatMap String.utf8EncodeChar := by
  rw [bytes, String.toByteArray_ofList, List.utf8Encode, List.data_toByteArray]

theorem encode_of_ascii (h : IsAscii c) : String.utf8EncodeChar c = [c.val.toUInt8] :=
  String.utf8EncodeChar_eq_singleton (Char.utf8Size_eq_one_iff.mpr h)

/-- The first byte of a character that is not ASCII is none of ASCII. -/
theorem exists_encode_of_not_ascii (h : ¬IsAscii c) :
    ∃ b more, String.utf8EncodeChar c = b :: more ∧ 128 ≤ b.toNat := by
  have hv : ¬c.val.toNat ≤ 127 := fun hle => h (UInt32.le_iff_toNat_le.mpr hle)
  have hmod (n k m : Nat) (hm : 0 < m) (hk : 128 ≤ k) (hb : m + k ≤ 256) :
      128 ≤ (UInt8.ofNat (n % m + k)).toNat := by
    have hlt := Nat.mod_lt n hm
    have hsize : UInt8.size = 256 := rfl
    rw [UInt8.toNat_ofNat_of_lt' (by omega)]
    omega
  unfold String.utf8EncodeChar
  dsimp only
  rw [if_neg hv]
  split
  next => exact ⟨_, _, rfl, hmod _ _ _ (by omega) (by omega) (by omega)⟩
  split
  next => exact ⟨_, _, rfl, hmod _ _ _ (by omega) (by omega) (by omega)⟩
  next => exact ⟨_, _, rfl, hmod _ _ _ (by omega) (by omega) (by omega)⟩

theorem toAsciiLower_toUInt8 (h : IsAscii c) :
    c.val.toUInt8.toAsciiLower = c.toLower.val.toUInt8 := by
  have hall : ∀ n < 128, (Char.ofNat n).val.toUInt8.toAsciiLower =
    (Char.ofNat n).toLower.val.toUInt8 := by decide +kernel
  have hn : c.toNat < 128 := Nat.lt_succ_of_le (UInt32.le_iff_toNat_le.mp h)
  have hc := hall c.toNat hn
  rwa [Char.ofNat_toNat] at hc

theorem toAsciiLower_of_le {b : UInt8} (h : 128 ≤ b.toNat) : 128 ≤ b.toAsciiLower.toNat := by
  have hall : ∀ n < 256, 128 ≤ n → 128 ≤ (UInt8.ofNat n).toAsciiLower.toNat := by
    decide +kernel
  have hb := hall b.toNat b.toNat_lt h
  rwa [UInt8.ofNat_toNat] at hb

theorem toUInt8_lt (h : IsAscii c) : c.val.toUInt8.toNat < 128 := by
  have hle : c.val.toNat ≤ 127 := UInt32.le_iff_toNat_le.mp h
  rw [UInt32.toNat_toUInt8]
  omega

theorem toUInt8_inj (hc : IsAscii c) (hd : IsAscii d) (h : c.val.toUInt8 = d.val.toUInt8) :
    c = d := by
  have hlec : c.val.toNat ≤ 127 := UInt32.le_iff_toNat_le.mp hc
  have hled : d.val.toNat ≤ 127 := UInt32.le_iff_toNat_le.mp hd
  have h := congrArg UInt8.toNat h
  rw [UInt32.toNat_toUInt8, UInt32.toNat_toUInt8] at h
  exact Char.ext (UInt32.toNat_inj.mp (by omega))

/-- Next to a word in ASCII it is the same whether bytes or characters are compared. -/
theorem map_encode_iff (hw : ∀ c ∈ w, IsAscii c) :
    (s.flatMap String.utf8EncodeChar).map UInt8.toAsciiLower =
        (w.flatMap String.utf8EncodeChar).map UInt8.toAsciiLower ↔
      s.map Char.toLower = w.map Char.toLower := by
  induction w generalizing s with
  | nil =>
    cases s with
    | nil => exact ⟨fun _ => rfl, fun _ => rfl⟩
    | cons c s =>
      have hne : String.utf8EncodeChar c ≠ [] := List.ne_nil_of_length_pos
        (by rw [String.length_utf8EncodeChar]; exact c.utf8Size_pos)
      simp [hne]
  | cons d w ih =>
    obtain ⟨hd, hw⟩ := List.forall_mem_cons.mp hw
    rw [List.flatMap_cons, encode_of_ascii hd, List.singleton_append, List.map_cons, List.map_cons]
    cases s with
    | nil => exact ⟨nofun, nofun⟩
    | cons c s =>
      rw [List.flatMap_cons, List.map_cons, List.cons.injEq, toAsciiLower_toUInt8 hd]
      by_cases hc : IsAscii c
      · rw [encode_of_ascii hc, List.singleton_append, List.map_cons, List.cons.injEq, ih hw,
          toAsciiLower_toUInt8 hc]
        refine and_congr_left fun _ => ⟨?_, fun h => by rw [h]⟩
        exact toUInt8_inj (isAscii_toLower hc) (isAscii_toLower hd)
      · obtain ⟨b, more, hb, hle⟩ := exists_encode_of_not_ascii hc
        rw [hb, List.cons_append, List.map_cons, List.cons.injEq]
        constructor
        · rintro ⟨h, -⟩
          have hlow := toUInt8_lt (isAscii_toLower hd)
          rw [← h] at hlow
          exact absurd (toAsciiLower_of_le hle) (Nat.not_le_of_gt hlow)
        · rintro ⟨h, -⟩
          exact (hc (isAscii_of_toLower (h ▸ isAscii_toLower hd))).elim

end

theorem Small.utf8ByteSize_eq {w : String} (h : Small w) : w.utf8ByteSize = w.length := by
  rw [← byteWidth_toList, byteWidth_of_ascii h.ascii, String.length_toList]

theorem sameBytes_iff {s word : String} (hw : ∀ c ∈ word.toList, IsAscii c) :
    sameBytes s word = true ↔ s.toList.map Char.toLower = word.toList.map Char.toLower := by
  rw [sameBytes, beq_iff_eq, ← String.ofList_toList (s := s), ← String.ofList_toList (s := word),
    bytes_ofList, bytes_ofList, map_encode_iff hw, String.toList_ofList, String.toList_ofList]

end SqlSelect
