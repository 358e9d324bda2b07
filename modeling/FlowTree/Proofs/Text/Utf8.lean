import FlowTree.Text.Glyph
import Mathlib.Tactic.SplitIfs

/-!
Reading the bytes of a string. A string holds no stray byte: each of its characters is well formed in
UTF-8, so the glyphs read from its bytes are its characters (`read_toUTF8`).
-/

namespace ByteArray

theorem toList_loop {bs : ByteArray} {left : List UInt8} {i : Nat} (seen : List UInt8)
    (h : bs.data.toList.drop i = left) : toList.loop bs i seen = seen.reverse ++ left := by
  induction left generalizing i seen with
  | nil =>
    have hi : ¬i < bs.size := by simpa using h
    rw [toList.loop, if_neg hi, List.append_nil]
  | cons b left ih =>
    have hi : i < bs.size := Nat.lt_of_not_le fun hle => by
      simp [List.drop_eq_nil_of_le (show bs.data.toList.length ≤ i from hle)] at h
    rw [List.drop_eq_getElem_cons hi, List.cons.injEq] at h
    have hb : bs.get! i = b := by rw [← h.1]; simp [get!, hi]
    rw [toList.loop, if_pos hi, hb, ih _ h.2, List.reverse_cons, List.append_assoc, List.singleton_append]

theorem toList_eq_data (bs : ByteArray) : bs.toList = bs.data.toList :=
  toList_loop [] List.drop_zero

end ByteArray

namespace FlowTree

theorem toUTF8_toList (s : String) : s.toUTF8.toList = s.toList.flatMap String.utf8EncodeChar := by
  rw [ByteArray.toList_eq_data, String.toUTF8_eq_toByteArray, ← String.utf8Encode_toList, List.utf8Encode,
    List.toList_data_toByteArray]

theorem toNat_byte {n : Nat} (h : n < 256) : (UInt8.ofNat n).toNat = n := UInt8.toNat_ofNat_of_lt h

namespace Glyph

theorem isContinuation_iff {b : UInt8} : isContinuation b = true ↔ 0x80 ≤ b.toNat ∧ b.toNat ≤ 0xBF := by
  simp [isContinuation, UInt8.le_iff_toNat_le]

theorem leading?_one {a : UInt8} (ha : a.toNat < 0x80) (rest : List UInt8) :
    leading? (a :: rest) = some (Char.ofNat a.toNat, 0) := by
  simp [leading?, UInt8.lt_iff_toNat_lt, ha]

theorem leading?_two {a b : UInt8} (ha : 0xC2 ≤ a.toNat ∧ a.toNat ≤ 0xDF) (hb : isContinuation b = true)
    (rest : List UInt8) :
    leading? (a :: b :: rest) = some (Char.ofNat (extend (a.toNat - 0xC0) b), 1) := by
  have h1 : ¬a < 0x80 := by simp [UInt8.lt_iff_toNat_lt]; omega
  have h2 : (0xC2 ≤ a && a ≤ 0xDF) = true := by simp [UInt8.le_iff_toNat_le]; omega
  simp [leading?, h1, h2, hb]

theorem leading?_three {a b c : UInt8} (ha : 0xE0 ≤ a.toNat ∧ a.toNat ≤ 0xEF)
    (hb : isContinuation b = true) (hc : isContinuation c = true)
    (least : a.toNat = 0xE0 → 0xA0 ≤ b.toNat) (greatest : a.toNat = 0xED → b.toNat ≤ 0x9F)
    (rest : List UInt8) :
    leading? (a :: b :: c :: rest) = some (Char.ofNat (extend (extend (a.toNat - 0xE0) b) c), 2) := by
  have h1 : ¬a < 0x80 := by simp [UInt8.lt_iff_toNat_lt]; omega
  have h2 : (0xC2 ≤ a && a ≤ 0xDF) = false := by simp [UInt8.le_iff_toNat_le]; omega
  have h3 : (0xE0 ≤ a && a ≤ 0xEF) = true := by simp [UInt8.le_iff_toNat_le]; omega
  have h4 : ((if a = 0xE0 then 0xA0 else 0x80) ≤ b && b ≤ if a = 0xED then (0x9F : UInt8) else 0xBF) = true := by
    rw [isContinuation_iff] at hb
    simp only [UInt8.le_iff_toNat_le, ← UInt8.toNat_inj, Bool.and_eq_true, decide_eq_true_eq]
    split_ifs <;> simp_all
  simp only [leading?, h1, h2, h3, h4, hc]
  simp

theorem leading?_four {a b c d : UInt8} (ha : 0xF0 ≤ a.toNat ∧ a.toNat ≤ 0xF4)
    (hb : isContinuation b = true) (hc : isContinuation c = true) (hd : isContinuation d = true)
    (least : a.toNat = 0xF0 → 0x90 ≤ b.toNat) (greatest : a.toNat = 0xF4 → b.toNat ≤ 0x8F)
    (rest : List UInt8) :
    leading? (a :: b :: c :: d :: rest) =
      some (Char.ofNat (extend (extend (extend (a.toNat - 0xF0) b) c) d), 3) := by
  have h1 : ¬a < 0x80 := by simp [UInt8.lt_iff_toNat_lt]; omega
  have h2 : (0xC2 ≤ a && a ≤ 0xDF) = false := by simp [UInt8.le_iff_toNat_le]; omega
  have h3 : (0xE0 ≤ a && a ≤ 0xEF) = false := by simp [UInt8.le_iff_toNat_le]; omega
  have h4 : (0xF0 ≤ a && a ≤ 0xF4) = true := by simp [UInt8.le_iff_toNat_le]; omega
  have h5 : ((if a = 0xF0 then 0x90 else 0x80) ≤ b && b ≤ if a = 0xF4 then (0x8F : UInt8) else 0xBF) = true := by
    rw [isContinuation_iff] at hb
    simp only [UInt8.le_iff_toNat_le, ← UInt8.toNat_inj, Bool.and_eq_true, decide_eq_true_eq]
    split_ifs <;> simp_all
  simp only [leading?, h1, h2, h3, h4, h5, hc, hd]
  simp

theorem leading?_utf8EncodeChar (c : Char) (rest : List UInt8) :
    leading? (String.utf8EncodeChar c ++ rest) = some (c, (String.utf8EncodeChar c).length - 1) := by
  have valid : c.val.toNat < 0xD800 ∨ 0xDFFF < c.val.toNat ∧ c.val.toNat < 0x110000 := c.valid
  have whole : Char.ofNat c.val.toNat = c := Char.ofNat_toNat c
  have byte {n : Nat} (h : n < 256) : ∃ b : UInt8, UInt8.ofNat n = b ∧ b.toNat = n := ⟨_, rfl, toNat_byte h⟩
  -- One case for each length of an encoding. The bytes are named so that `omega` sees numbers only.
  unfold String.utf8EncodeChar
  generalize c.val.toNat = v at valid whole
  dsimp only
  split
  · obtain ⟨a, ha, hv⟩ := byte (n := v) (by omega)
    rw [ha, List.singleton_append, leading?_one (by omega), hv, whole]
    rfl
  split
  · obtain ⟨a, ha, hv⟩ := byte (n := v / 64 % 32 + 192) (by omega)
    obtain ⟨b, hb, hw⟩ := byte (n := v % 64 + 128) (by omega)
    simp only [ha, hb, List.cons_append, List.nil_append]
    rw [leading?_two (by omega) (isContinuation_iff.2 (by omega))]
    have hn : extend (a.toNat - 0xC0) b = v := by unfold extend; omega
    rw [hn, whole]
    rfl
  split
  · obtain ⟨a, ha, hv⟩ := byte (n := v / 4096 % 16 + 224) (by omega)
    obtain ⟨b, hb, hw⟩ := byte (n := v / 64 % 64 + 128) (by omega)
    obtain ⟨d, hd, hx⟩ := byte (n := v % 64 + 128) (by omega)
    simp only [ha, hb, hd, List.cons_append, List.nil_append]
    rw [leading?_three (by omega) (isContinuation_iff.2 (by omega)) (isContinuation_iff.2 (by omega))
      (by omega) (by omega)]
    have hn : extend (extend (a.toNat - 0xE0) b) d = v := by unfold extend; omega
    rw [hn, whole]
    rfl
  · obtain ⟨a, ha, hv⟩ := byte (n := v / 262144 % 8 + 240) (by omega)
    obtain ⟨b, hb, hw⟩ := byte (n := v / 4096 % 64 + 128) (by omega)
    obtain ⟨d, hd, hx⟩ := byte (n := v / 64 % 64 + 128) (by omega)
    obtain ⟨e, he, hy⟩ := byte (n := v % 64 + 128) (by omega)
    simp only [ha, hb, hd, he, List.cons_append, List.nil_append]
    rw [leading?_four (by omega) (isContinuation_iff.2 (by omega)) (isContinuation_iff.2 (by omega))
      (isContinuation_iff.2 (by omega)) (by omega) (by omega)]
    have hn : extend (extend (extend (a.toNat - 0xF0) b) d) e = v := by unfold extend; omega
    rw [hn, whole]
    rfl

theorem read_of_leading? {bytes : List UInt8} {c : Char} {more : Nat} (h : leading? bytes = some (c, more)) :
    read bytes = .char c :: read (bytes.drop (more + 1)) := by
  cases bytes with
  | nil => simp [leading?] at h
  | cons a rest => rw [read, h]; simp

theorem read_encoded (chars : List Char) : read (chars.flatMap String.utf8EncodeChar) = chars.map .char := by
  induction chars with
  | nil => simp [read]
  | cons c cs ih =>
    have hpos : 0 < (String.utf8EncodeChar c).length := by
      rw [String.length_utf8EncodeChar]; exact c.utf8Size_pos
    rw [List.flatMap_cons, read_of_leading? (leading?_utf8EncodeChar c _), Nat.sub_add_cancel hpos,
      List.drop_left, ih, List.map_cons]

/-- The glyphs read from the bytes of a string are its characters. -/
theorem read_toUTF8 (s : String) : read s.toUTF8.toList = Text.ofString s := by
  rw [toUTF8_toList, read_encoded, Text.ofString]

end Glyph

theorem Text.shown_ofString (s : String) : Text.shown (Text.ofString s) = s := by
  simp [Text.shown, Text.ofString, Glyph.toChar, Function.comp_def]

end FlowTree
