import FlowTree.Data.MessagePack
import FlowTree.Proofs.Text.Utf8
import Mathlib.Tactic.Ring

/-!
Packing and reading back. The header of a number, text, list or record says how many bytes or values
follow it, so what is read from the front of packed data is that data, whatever bytes stand behind it
(`reads_pack`). The headers have room for 64-bit numbers and for fewer than `2 ^ 32` bytes, items and
fields; `fits` says that data keeps to that.
-/

namespace FlowTree

theorem bigEndian_succ (count n : Nat) :
    bigEndian (count + 1) n = UInt8.ofNat (n / 256 ^ count) :: bigEndian count n := by
  simp [bigEndian, List.range_succ]

@[simp] theorem length_bigEndian (count n : Nat) : (bigEndian count n).length = count := by
  simp [bigEndian]

theorem foldl_bigEndian (count n high : Nat) :
    (bigEndian count n).foldl (fun n b => n * 256 + b.toNat) high = high * 256 ^ count + n % 256 ^ count := by
  induction count generalizing high with
  | zero => simp [bigEndian, Nat.mod_one]
  | succ count ih =>
    have hb : (UInt8.ofNat (n / 256 ^ count)).toNat = n / 256 ^ count % 256 := UInt8.toNat_ofNat'
    rw [bigEndian_succ, List.foldl_cons, ih, hb, Nat.mod_pow_succ]
    ring

theorem ofBigEndian_bigEndian {count n : Nat} (h : n < 256 ^ count) : ofBigEndian (bigEndian count n) = n := by
  rw [ofBigEndian, foldl_bigEndian, Nat.zero_mul, Nat.zero_add, Nat.mod_eq_of_lt h]

namespace Packed

/-- The reader takes exactly these bytes, whatever follows them, and makes this value of them. -/
def Reads {α : Type} (reader : Reader α) (bytes : List UInt8) (value : α) : Prop :=
  ∀ rest, reader (bytes ++ rest) = some (value, rest)

theorem reads_takeBytes (bytes : List UInt8) : Reads (takeBytes bytes.length) bytes bytes := by
  intro rest
  simp [takeBytes]

theorem reads_takeNat (count n : Nat) (h : n < 256 ^ count) :
    Reads (takeNat count) (bigEndian count n) n := by
  intro rest
  have hb := reads_takeBytes (bigEndian count n) rest
  rw [length_bigEndian] at hb
  simp [takeNat, hb, ofBigEndian_bigEndian h]

theorem reads_takeInt (count n : Nat) (h : n < 256 ^ count / 2) :
    Reads (takeInt count) (bigEndian count n) n := by
  intro rest
  have hn : n < 256 ^ count := Nat.lt_of_lt_of_le h (Nat.div_le_self _ _)
  simp [takeInt, reads_takeNat count _ hn rest, h]

theorem reads_takeInt_neg (count : Nat) (n : Int) (low : -(256 ^ count / 2 : Nat) ≤ n) (high : n < 0) :
    Reads (takeInt count) (bigEndian count (n + (256 ^ count : Nat)).toNat) n := by
  intro rest
  have hn : (n + (256 ^ count : Nat)).toNat < 256 ^ count := by omega
  have upper : ¬(n + (256 ^ count : Nat)).toNat < 256 ^ count / 2 := by omega
  have hval : ((n + (256 ^ count : Nat)).toNat : Int) - (256 ^ count : Nat) = n := by omega
  simp only [takeInt, reads_takeNat count _ hn rest, Option.bind_eq_bind, Option.bind_some, Nat.pow_eq,
    if_neg upper, hval]

section Sequence

variable {α β : Type} {reader : Reader α} {bytes more : List UInt8} {a : α}

theorem Reads.map (h : Reads reader bytes a) (f : α → β) :
    Reads (fun input => do let (a, rest) ← reader input; some (f a, rest)) bytes (f a) := by
  intro rest
  simp [h rest]

theorem Reads.bind {next : α → Reader β} {b : β} (h : Reads reader bytes a) (hnext : Reads (next a) more b) :
    Reads (fun input => do let (a, rest) ← reader input; next a rest) (bytes ++ more) b := by
  intro rest
  simp [h (more ++ rest), hnext rest]

theorem reads_takeMany_nil : Reads (takeMany reader 0) [] [] := fun _ => rfl

theorem reads_takeMany_cons {count : Nat} {as : List α} (h : Reads reader bytes a)
    (hmore : Reads (takeMany reader count) more as) :
    Reads (takeMany reader (count + 1)) (bytes ++ more) (a :: as) := by
  intro rest
  simp [takeMany, h (more ++ rest), hmore rest]

theorem reads_takeEntry {reader : Reader Packed} {key value : Packed} (hkey : Reads reader bytes key)
    (hvalue : Reads reader more value) : Reads (takeEntry reader) (bytes ++ more) (key, value) := by
  intro rest
  simp [takeEntry, hkey (more ++ rest), hvalue rest]

theorem reads_takeCounted (width : Nat) (bytes : List UInt8) (h : bytes.length < 256 ^ width) :
    Reads (takeCounted width 0) (bigEndian width bytes.length ++ bytes) bytes :=
  (reads_takeNat width _ h).bind (reads_takeBytes bytes)

end Sequence

/-! ### Headers

The longer headers have a byte of their own, which opens a number. The shortest one holds the number in
that byte, counted from the first byte of its range. -/

section Headers

variable {depth n : Nat} {bytes : List UInt8} {value : Packed}

theorem reads_take {code : UInt8} (h : Reads (takeAfter (take depth) code) bytes value) :
    Reads (take (depth + 1)) (code :: bytes) value := h

theorem reads_record (h : n < 2 ^ 32) (hbody : Reads (takeMap (take depth) n) bytes value) :
    Reads (take (depth + 1)) (Data.packRecordHeader n ++ bytes) value := by
  unfold Data.packRecordHeader
  split
  · refine reads_take fun rest => ?_
    simp only [takeAfter, toNat_byte (n := 0x80 + n) (by omega)]
    rw [if_neg (by omega), if_pos (by omega), Nat.add_sub_cancel_left]
    exact hbody rest
  split
  · exact reads_take ((reads_takeNat 2 n (by omega)).bind hbody)
  · exact reads_take ((reads_takeNat 4 n (by omega)).bind hbody)

theorem reads_list (h : n < 2 ^ 32) (hbody : Reads (takeList (take depth) n) bytes value) :
    Reads (take (depth + 1)) (Data.packListHeader n ++ bytes) value := by
  unfold Data.packListHeader
  split
  · refine reads_take fun rest => ?_
    simp only [takeAfter, toNat_byte (n := 0x90 + n) (by omega)]
    rw [if_neg (by omega), if_neg (by omega), if_pos (by omega), Nat.add_sub_cancel_left]
    exact hbody rest
  split
  · exact reads_take ((reads_takeNat 2 n (by omega)).bind hbody)
  · exact reads_take ((reads_takeNat 4 n (by omega)).bind hbody)

theorem reads_raw (h : bytes.length < 2 ^ 32) :
    Reads (take (depth + 1)) (Data.packTextHeader bytes.length ++ bytes) (.raw bytes) := by
  unfold Data.packTextHeader
  split
  · refine reads_take fun rest => ?_
    simp only [takeAfter, toNat_byte (n := 0xA0 + bytes.length) (by omega)]
    rw [if_neg (by omega), if_neg (by omega), if_neg (by omega), if_pos (by omega), Nat.add_sub_cancel_left]
    exact (reads_takeBytes bytes).map Packed.raw rest
  split
  · exact reads_take ((reads_takeCounted 1 bytes (by omega)).map Packed.raw)
  split
  · exact reads_take ((reads_takeCounted 2 bytes (by omega)).map Packed.raw)
  · exact reads_take ((reads_takeCounted 4 bytes (by omega)).map Packed.raw)

theorem reads_packInt {n : Int} (low : -2 ^ 63 ≤ n) (high : n < 2 ^ 63) :
    Reads (take (depth + 1)) (Data.packInt n) (.int n) := by
  unfold Data.packInt
  split
  case isTrue hn =>
    obtain ⟨n, rfl⟩ := Int.eq_ofNat_of_zero_le hn
    dsimp only [Int.toNat_natCast]
    split
    · refine reads_take fun rest => ?_
      simp only [takeAfter, toNat_byte (n := n) (by omega)]
      rw [if_pos (by omega), List.nil_append]
    split
    · exact reads_take ((reads_takeNat 1 n (by omega)).map fun n => Packed.int n)
    split
    · exact reads_take ((reads_takeNat 2 n (by omega)).map fun n => Packed.int n)
    split
    · exact reads_take ((reads_takeNat 4 n (by omega)).map fun n => Packed.int n)
    · exact reads_take ((reads_takeInt 8 n (by omega)).map Packed.int)
  case isFalse hn =>
    split
    · refine reads_take fun rest => ?_
      simp only [takeAfter, toNat_byte (n := (n + 0x100).toNat) (by omega)]
      rw [if_neg (by omega), if_neg (by omega), if_neg (by omega), if_neg (by omega), if_pos (by omega),
        List.nil_append]
      have hval : ((n + 0x100).toNat : Int) - 256 = n := by omega
      rw [hval]
    split
    · exact reads_take ((reads_takeInt_neg 1 n (by omega) (by omega)).map Packed.int)
    split
    · exact reads_take ((reads_takeInt_neg 2 n (by omega) (by omega)).map Packed.int)
    split
    · exact reads_take ((reads_takeInt_neg 4 n (by omega) (by omega)).map Packed.int)
    · exact reads_take ((reads_takeInt_neg 8 n (by omega) (by omega)).map Packed.int)

end Headers

end Packed

namespace Data

mutual

/-- Every number has at most 64 bits, every text fewer than `2 ^ 32` bytes, and every list and record
fewer than `2 ^ 32` items. -/
def fits : Data → Bool
  | .null | .noList | .bool _ => true
  | .int n => -2 ^ 63 ≤ n && n < 2 ^ 63
  | .str s => s.utf8ByteSize < 2 ^ 32
  | .list items => items.length < 2 ^ 32 && itemsFit items
  | .record fields => fields.length < 2 ^ 32 && fieldsFit fields

def itemsFit : List Data → Bool
  | [] => true
  | d :: ds => fits d && itemsFit ds

def fieldsFit : List (String × Data) → Bool
  | [] => true
  | (name, d) :: fs => name.utf8ByteSize < 2 ^ 32 && fits d && fieldsFit fs

end

mutual

/-- The value that is read from packed data. -/
def packed : Data → Packed
  | .null | .noList => .null
  | .bool b => .bool b
  | .int n => .int n
  | .str s => .raw s.toUTF8.toList
  | .list items => .list (packedItems items)
  | .record fields => .map (packedFields fields)

def packedItems : List Data → List Packed
  | [] => []
  | d :: ds => packed d :: packedItems ds

def packedFields : List (String × Data) → List (Packed × Packed)
  | [] => []
  | (name, d) :: fs => (.raw name.toUTF8.toList, packed d) :: packedFields fs

end

theorem packedItems_eq_map (items : List Data) : packedItems items = items.map packed := by
  induction items with
  | nil => rfl
  | cons d ds ih => rw [packedItems, ih, List.map_cons]

theorem packedFields_eq_map (fields : List (String × Data)) :
    packedFields fields = fields.map fun f => (.raw f.1.toUTF8.toList, packed f.2) := by
  induction fields with
  | nil => rfl
  | cons f fs ih => rw [packedFields, ih, List.map_cons]

/-! ### Every value takes at least a byte -/

theorem length_packTextHeader_pos (n : Nat) : 0 < (packTextHeader n).length := by
  unfold packTextHeader
  split_ifs <;> simp

theorem length_packListHeader_pos (n : Nat) : 0 < (packListHeader n).length := by
  unfold packListHeader
  split_ifs <;> simp

theorem length_packRecordHeader_pos (n : Nat) : 0 < (packRecordHeader n).length := by
  unfold packRecordHeader
  split_ifs <;> simp

theorem length_packText_pos (s : String) : 0 < (packText s).length := by
  rw [packText, List.length_append]
  exact Nat.add_pos_left (length_packTextHeader_pos _) _

theorem length_pack_pos (d : Data) : 0 < (pack d).length := by
  cases d with
  | null | noList | bool => simp [pack]
  | int n =>
    simp only [pack, packInt]
    split_ifs <;> simp
  | str s => exact length_packText_pos s
  | list items =>
    rw [pack, List.length_append]
    exact Nat.add_pos_left (length_packListHeader_pos _) _
  | record fields =>
    rw [pack, List.length_append]
    exact Nat.add_pos_left (length_packRecordHeader_pos _) _

theorem length_pack_le_packItems {d : Data} {items : List Data} (h : d ∈ items) :
    (pack d).length ≤ (packItems items).length := by
  induction h with
  | head => simp [packItems]
  | tail _ _ ih => rw [packItems, List.length_append]; omega

theorem length_pack_le_packFields {name : String} {d : Data} {fields : List (String × Data)}
    (h : (name, d) ∈ fields) : (pack d).length ≤ (packFields fields).length := by
  induction h with
  | head => simp only [packFields, List.length_append]; omega
  | tail _ _ ih => simp only [packFields, List.length_append]; omega

theorem length_pack_item_lt {d : Data} {items : List Data} (h : d ∈ items) :
    (pack d).length < (pack (.list items)).length := by
  rw [pack, List.length_append]
  exact lt_add_of_pos_of_le (length_packListHeader_pos _) (length_pack_le_packItems h)

theorem length_pack_field_lt {name : String} {d : Data} {fields : List (String × Data)}
    (h : (name, d) ∈ fields) : (pack d).length < (pack (.record fields)).length := by
  rw [pack, List.length_append]
  exact lt_add_of_pos_of_le (length_packRecordHeader_pos _) (length_pack_le_packFields h)

/-! ### Reading packed data -/

open Packed

theorem length_toUTF8 (s : String) : s.toUTF8.toList.length = s.utf8ByteSize := by
  rw [ByteArray.toList_eq_data]
  rfl

theorem reads_packText {depth : Nat} {s : String} (hfits : s.utf8ByteSize < 2 ^ 32) (hdepth : 0 < depth) :
    Reads (take depth) (packText s) (.raw s.toUTF8.toList) := by
  obtain ⟨depth, rfl⟩ := Nat.exists_eq_succ_of_ne_zero hdepth.ne'
  exact reads_raw (by rwa [length_toUTF8])

mutual

/-- What is read from packed data is that data, and the bytes behind it are left. -/
theorem reads_pack (d : Data) {depth : Nat} (hfits : d.fits = true) (hdepth : (pack d).length ≤ depth) :
    Reads (take depth) (pack d) (packed d) := by
  -- Each value has a header of at least a byte, so the depth outlasts the nesting.
  obtain ⟨depth, rfl⟩ := Nat.exists_eq_succ_of_ne_zero (Nat.lt_of_lt_of_le (length_pack_pos d) hdepth).ne'
  match d with
  | .null | .noList => exact fun _ => rfl
  | .bool b => cases b <;> exact fun _ => rfl
  | .int n =>
    simp only [fits, Bool.and_eq_true, decide_eq_true_eq] at hfits
    exact reads_packInt hfits.1 hfits.2
  | .str s => exact reads_packText (by simpa [fits] using hfits) depth.succ_pos
  | .list items =>
    simp only [fits, Bool.and_eq_true, decide_eq_true_eq] at hfits
    have hpos := length_packListHeader_pos items.length
    simp only [pack, List.length_append] at hdepth
    exact reads_list hfits.1 ((reads_packItems items hfits.2 (by omega)).map Packed.list)
  | .record fields =>
    simp only [fits, Bool.and_eq_true, decide_eq_true_eq] at hfits
    have hpos := length_packRecordHeader_pos fields.length
    simp only [pack, List.length_append] at hdepth
    exact reads_record hfits.1 ((reads_packFields fields hfits.2 (by omega)).map Packed.map)

theorem reads_packItems (items : List Data) {depth : Nat} (hfits : itemsFit items = true)
    (hdepth : (packItems items).length ≤ depth) :
    Reads (takeMany (take depth) items.length) (packItems items) (packedItems items) := by
  match items with
  | [] => exact reads_takeMany_nil
  | d :: ds =>
    simp only [itemsFit, Bool.and_eq_true] at hfits
    simp only [packItems, List.length_append] at hdepth
    exact reads_takeMany_cons (reads_pack d hfits.1 (by omega)) (reads_packItems ds hfits.2 (by omega))

theorem reads_packFields (fields : List (String × Data)) {depth : Nat} (hfits : fieldsFit fields = true)
    (hdepth : (packFields fields).length ≤ depth) :
    Reads (takeMany (takeEntry (take depth)) fields.length) (packFields fields) (packedFields fields) := by
  match fields with
  | [] => exact reads_takeMany_nil
  | (name, d) :: fs =>
    simp only [fieldsFit, Bool.and_eq_true, decide_eq_true_eq] at hfits
    simp only [packFields, List.length_append] at hdepth
    have hpos := length_packText_pos name
    exact reads_takeMany_cons
      (reads_takeEntry (reads_packText hfits.1.1 (by omega)) (reads_pack d hfits.1.2 (by omega)))
      (reads_packFields fs hfits.2 (by omega))

end

theorem read?_pack {d : Data} (hfits : d.fits = true) (rest : List UInt8) :
    Packed.read? (d.pack ++ rest) = some d.packed := by
  rw [Packed.read?, reads_pack d hfits (by simp) rest, Option.map_some]

end Data

end FlowTree
