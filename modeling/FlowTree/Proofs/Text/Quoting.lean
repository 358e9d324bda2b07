import Mathlib.Data.String.Basic
import Mathlib.Tactic.Ring
import FlowTree.Text.Quoted
import FlowTree.Assembly.Lexeme

/-!
Quoted text read back. Between the quotes every character is written in a way that unquoting reads as that character, and
no quote stands there without a backslash before it, so the string ends at its closing quote.
-/

namespace FlowTree.Text

theorem digitValue?_digitChar : ∀ d < 16, digitValue? (Nat.digitChar d) = some d := by
  decide

theorem length_hexDigits (count n : Nat) : (hexDigits count n).length = count := by
  simp [hexDigits]

theorem hexDigits_succ (count n : Nat) :
    hexDigits (count + 1) n = Nat.digitChar (n / 16 ^ count % 16) :: hexDigits count n := by
  simp [hexDigits, List.range_succ]

/-- The digits go on with the number that was read before them. -/
theorem foldlM_hexDigits (count n start : Nat) :
    (hexDigits count n).foldlM (fun n c => (digitValue? c).bind fun d => if d < 16 then some (n * 16 + d) else none) start =
      some (start * 16 ^ count + n % 16 ^ count) := by
  induction count generalizing start with
  | zero => simp [hexDigits, Nat.mod_one]
  | succ count ih =>
    have hdigit : n / 16 ^ count % 16 < 16 := Nat.mod_lt _ (by decide)
    simp only [hexDigits_succ, List.foldlM_cons, digitValue?_digitChar _ hdigit, Option.bind_some, if_pos hdigit,
      Option.bind_eq_bind, ih, Nat.mod_pow_succ, Option.some.injEq]
    ring

theorem ofDigits?_hexDigits (count n : Nat) : ofDigits? 16 (hexDigits count n) = some (n % 16 ^ count) := by
  have h := foldlM_hexDigits count n 0
  rwa [Nat.zero_mul, Nat.zero_add] at h

theorem mem_hexDigits {count n : Nat} {c : Char} (h : c ∈ hexDigits count n) : ∃ d < 16, c = Nat.digitChar d := by
  obtain ⟨place, -, rfl⟩ := List.mem_map.mp h
  exact ⟨_, Nat.mod_lt _ (by decide), rfl⟩

/-- The characters as text. -/
def ofChars (cs : List Char) : Text := cs.map .char

theorem leadingNumber?_hexDigits (count n : Nat) (rest : Text) :
    leadingNumber? 16 count (ofChars (hexDigits count n) ++ rest) = some (n % 16 ^ count) := by
  have hlength := length_hexDigits count n
  unfold leadingNumber?
  rw [if_pos (by simp [ofChars, hlength]), List.take_left' (by simp [ofChars, hlength]), ofChars, List.map_map]
  simpa [Function.comp_def, Glyph.toChar] using ofDigits?_hexDigits count n

theorem charOf?_toNat (c : Char) : charOf? c.toNat = some c := by
  have hvalid : c.toNat.isValidChar := c.valid
  rw [charOf?, if_pos hvalid, Char.ofNat_toNat]

theorem toNat_lt (c : Char) : c.toNat < 0x110000 := by
  have hvalid : c.toNat.isValidChar := c.valid
  rcases hvalid with h | h <;> omega

theorem digitChar_plain : ∀ d < 16, Nat.digitChar d ≠ '"' ∧ Nat.digitChar d ≠ '\\' := by
  decide

/-- What an escape is: a backslash, a character that may follow one, and characters that need no escape themselves. Reading
it gives the character that it was written for. -/
def EscapeOf (c : Char) (written : List Char) : Prop :=
  ∃ d e, written = '\\' :: d :: e ∧ d ≠ '\n' ∧ (∀ x ∈ e, x ≠ '"' ∧ x ≠ '\\') ∧
    ∀ rest, escape? (ofChars (d :: e) ++ rest) = some (c, e.length + 1)

theorem escapeOf_single {c d : Char} (hd : d ≠ '\n') (h : ∀ rest, escape? (.char d :: rest) = some (c, 1)) :
    EscapeOf c ['\\', d] :=
  ⟨d, [], rfl, hd, by simp, h⟩

/-- An escape by number: its first character tells how many digits follow. -/
theorem escapeOf_number {c d : Char} {count : Nat} (hd : d ≠ '\n') (hc : c.toNat < 16 ^ count)
    (h : ∀ rest, escape? (.char d :: rest) = do some (← charOf? (← leadingNumber? 16 count rest), count + 1)) :
    EscapeOf c ('\\' :: d :: hexDigits count c.toNat) := by
  refine ⟨d, _, rfl, hd, fun x hx => ?_, fun rest => ?_⟩
  · obtain ⟨n, hn, rfl⟩ := mem_hexDigits hx
    exact digitChar_plain n hn
  · rw [ofChars, List.map_cons, List.cons_append, h, ← ofChars, leadingNumber?_hexDigits, Nat.mod_eq_of_lt hc,
      length_hexDigits]
    simp [charOf?_toNat]

theorem quoteChar_cases (c : Char) :
    (quoteChar '"' c = [c] ∧ c ≠ '"' ∧ c ≠ '\\') ∨ EscapeOf c (quoteChar '"' c) := by
  have heq : ∀ n, c.toNat = n → c = Char.ofNat n := fun n hn => by rw [← hn, Char.ofNat_toNat]
  unfold quoteChar
  split
  · rename_i hspecial
    simp only [Bool.or_eq_true, decide_eq_true_eq] at hspecial
    refine Or.inr (escapeOf_single ?_ fun rest => ?_)
    · rcases hspecial with rfl | rfl <;> decide
    · rcases hspecial with rfl | rfl <;> rfl
  · rename_i hspecial
    split
    · exact Or.inl ⟨rfl, by simpa using hspecial⟩
    · right
      split
      iterate 7
        · rw [heq _ ‹_›]
          exact escapeOf_single (by decide) fun rest => rfl
      · split
        · rename_i hsmall
          simp only [Bool.or_eq_true, decide_eq_true_eq] at hsmall
          exact escapeOf_number (by decide) (by omega) fun rest => rfl
        · split
          · exact escapeOf_number (by decide) (by omega) fun rest => rfl
          · exact escapeOf_number (by decide) (by have := toNat_lt c; omega) fun rest => rfl

/-! ### Quoted strings -/

theorem unquote?_quoteChar (c : Char) (rest : Text) :
    unquote? (ofChars (quoteChar '"' c) ++ rest) = (unquote? rest).map (c :: ·) := by
  rcases quoteChar_cases c with ⟨heq, hquote, hslash⟩ | ⟨d, e, heq, -, -, hescape⟩
  · rw [heq, ofChars, List.map_singleton, List.singleton_append, unquote?]
    split
    · exact absurd ‹_› hquote
    · exact absurd ‹_› hslash
    · rfl
  · rw [heq, ofChars, List.map_cons, List.cons_append, ← ofChars, unquote?]
    simp only [Glyph.toChar, hescape]
    rw [List.drop_left' (by simp [ofChars])]

theorem unquote?_quoted (cs : List Char) : unquote? (ofChars (cs.flatMap (quoteChar '"'))) = some cs := by
  induction cs with
  | nil => simp [ofChars, unquote?]
  | cons c cs ih =>
    rw [List.flatMap_cons, ofChars, List.map_append, ← ofChars, ← ofChars, unquote?_quoteChar, ih]
    rfl

open Assembly in
theorem stringRest?_plain {e : List Char} (h : ∀ x ∈ e, x ≠ '"' ∧ x ≠ '\\') (rest : Text) :
    stringRest? (ofChars e ++ rest) = (stringRest? rest).map (· + e.length) := by
  induction e with
  | nil => simp [ofChars]
  | cons x e ih =>
    obtain ⟨hx, he⟩ := List.forall_mem_cons.mp h
    rw [ofChars, List.map_cons, List.cons_append, ← ofChars, stringRest?.eq_def]
    simp only
    split
    · exact absurd ‹_› hx.1
    · exact absurd ‹_› hx.2
    · rw [ih he, Option.map_map]
      rfl

open Assembly in
theorem stringRest?_quoteChar (c : Char) (rest : Text) :
    stringRest? (ofChars (quoteChar '"' c) ++ rest) = (stringRest? rest).map (· + (quoteChar '"' c).length) := by
  rcases quoteChar_cases c with ⟨heq, hplain⟩ | ⟨d, e, heq, hd, he, -⟩
  · rw [heq]
    exact stringRest?_plain (by simpa using hplain) rest
  · rw [heq, ofChars, List.map_cons, List.map_cons, List.cons_append, List.cons_append, ← ofChars, stringRest?]
    simp only [Glyph.toChar, if_neg hd, stringRest?_plain he, Option.map_map]
    rfl

/-- A quoted string ends at its last quote. -/
theorem stringRest?_quoted (cs : List Char) (rest : Text) :
    Assembly.stringRest? (ofChars (cs.flatMap (quoteChar '"')) ++ .char '"' :: rest) =
      some ((cs.flatMap (quoteChar '"')).length + 1) := by
  induction cs with
  | nil => rfl
  | cons c cs ih =>
    rw [List.flatMap_cons, ofChars, List.map_append, ← ofChars, ← ofChars, List.append_assoc, stringRest?_quoteChar, ih,
      List.length_append, Option.map_some]
    congr 1
    omega

/-! ### Sizes in bytes -/

open String (utf8Len)

theorem utf8Len_eq_length {cs : List Char} (h : ∀ c ∈ cs, c.toNat < 128) : utf8Len cs = cs.length := by
  induction cs with
  | nil => rfl
  | cons c cs ih =>
    obtain ⟨hc, hcs⟩ := List.forall_mem_cons.mp h
    have hsize : c.utf8Size = 1 := Char.utf8Size_eq_one_iff.mpr (UInt32.le_iff_toNat_le.mpr (Nat.le_of_lt_succ hc))
    rw [String.utf8Len_cons, ih hcs, hsize, List.length_cons]

theorem utf8ByteSize_quoteString (cs : List Char) :
    (quoteString (String.ofList cs)).utf8ByteSize = utf8Len (cs.flatMap (quoteChar '"')) + 2 := by
  have hglyphs : (ofString (String.ofList cs)).flatMap quoteGlyph = cs.flatMap (quoteChar '"') := by
    simp [ofString, List.flatMap_map, quoteGlyph]
  have hquote : '"'.utf8Size = 1 := rfl
  rw [quoteString, quote, hglyphs, String.utf8ByteSize_ofList]
  simp [hquote]

theorem quoteChar_of_isPrintable {c : Char} (h : isPrintable c = true) (hquote : c ≠ '"') (hslash : c ≠ '\\') :
    quoteChar '"' c = [c] := by
  simp [quoteChar, hquote, hslash, h]

/-- A character that is printed as itself, or of ASCII, takes at most four bytes between quotes. -/
theorem utf8Len_quoteChar_le {c : Char} (h : c.toNat < 128 ∨ isPrintable c = true) : utf8Len (quoteChar '"' c) ≤ 4 := by
  have hascii : ∀ n < 128, utf8Len (quoteChar '"' (Char.ofNat n)) ≤ 4 := by decide +kernel
  by_cases hc : c.toNat < 128
  · rw [← Char.ofNat_toNat c]
    exact hascii _ hc
  · have hne : ∀ d : Char, d.toNat < 128 → c ≠ d := by
      rintro d hd rfl
      exact hc hd
    rw [quoteChar_of_isPrintable (h.resolve_left hc) (hne _ (by decide)) (hne _ (by decide)), String.utf8Len_cons,
      String.utf8Len_nil, Nat.zero_add]
    exact c.utf8Size_le_four

/-- A printable character of ASCII takes one byte if it needs no backslash. -/
theorem utf8Len_quoteChar_plain {c : Char} (hle : 0x20 ≤ c.toNat) (hlt : c.toNat < 0x7F) (hquote : c ≠ '"')
    (hslash : c ≠ '\\') : utf8Len (quoteChar '"' c) = 1 := by
  have hprintable : isPrintable c = true := by
    rw [isPrintable, if_pos (by omega)]
    simpa using ⟨hle, hlt⟩
  rw [quoteChar_of_isPrintable hprintable hquote hslash]
  exact utf8Len_eq_length (by simpa using by omega)

theorem length_of_leadingNumber? {base count n : Nat} {t : Text} (h : leadingNumber? base count t = some n) :
    count ≤ t.length := by
  unfold leadingNumber? at h
  split at h
  · assumption
  · cases h

/-- An escape of one character beside the backslash is how its character is quoted; others have three or more. -/
theorem escape?_cases {t : Text} {c : Char} {used : Nat} (h : escape? t = some (c, used)) :
    used ≤ t.length ∧ (used = 1 ∧ utf8Len (quoteChar '"' c) = 2 ∨ 3 ≤ used) := by
  have hnumber : ∀ {base count : Nat} {rest : Text} {f : Nat → Option Char},
      (do some (← f (← leadingNumber? base count rest), count + 1)) = some (c, used) →
      used = count + 1 ∧ count ≤ rest.length := by
    intro base count rest f hsome
    simp only [Option.bind_eq_bind, Option.bind_eq_some_iff, Option.some.injEq, Prod.mk.injEq] at hsome
    obtain ⟨n, hn, d, -, -, hused⟩ := hsome
    exact ⟨hused.symm, length_of_leadingNumber? hn⟩
  cases t with
  | nil => cases h
  | cons g rest =>
    unfold escape? at h
    simp only at h
    split at h
    -- Nine escapes of one character, three of a fixed number of digits, and one of octal digits.
    iterate 9
      · cases h
        exact ⟨by simp, Or.inl ⟨rfl, by decide⟩⟩
    iterate 3
      · obtain ⟨hused, hle⟩ := hnumber h
        rw [List.length_cons]
        omega
    · simp only [Option.bind_eq_bind, Option.bind_eq_some_iff] at h
      obtain ⟨n, hn, h⟩ := h
      have hle := length_of_leadingNumber? hn
      split at h
      · cases h
        omega
      · cases h

/-- Text of printable ASCII does not get longer when it is read and quoted again, if what it stands for is printable or
of ASCII. -/
theorem utf8Len_quoted_le {t : Text} {cs : List Char} (h : unquote? t = some cs)
    (hwritten : ∀ g ∈ t, 0x20 ≤ g.toChar.toNat ∧ g.toChar.toNat < 0x7F)
    (hmeant : ∀ c ∈ cs, c.toNat < 128 ∨ isPrintable c = true) : utf8Len (cs.flatMap (quoteChar '"')) ≤ t.length := by
  fun_induction unquote? t generalizing cs with
  | case1 =>
    cases h
    simp
  | case2 => cases h
  | case3 g rest hslash c used hescape ih =>
    obtain ⟨others, hothers, rfl⟩ := Option.map_eq_some_iff.mp h
    obtain ⟨hc, hmeant⟩ := List.forall_mem_cons.mp hmeant
    have hrest := ih hothers (fun g hg => hwritten g (List.mem_cons_of_mem _ (List.mem_of_mem_drop hg))) hmeant
    obtain ⟨hused, hcases⟩ := escape?_cases hescape
    have hsize := utf8Len_quoteChar_le hc
    rw [List.length_drop] at hrest
    rw [List.flatMap_cons, String.utf8Len_append, List.length_cons]
    omega
  | case4 => cases h
  | case5 g rest hquote hslash ih =>
    obtain ⟨others, hothers, rfl⟩ := Option.map_eq_some_iff.mp h
    obtain ⟨hg, hwritten⟩ := List.forall_mem_cons.mp hwritten
    have hrest := ih hothers hwritten (List.forall_mem_cons.mp hmeant).2
    rw [List.flatMap_cons, String.utf8Len_append, utf8Len_quoteChar_plain hg.1 hg.2 hquote hslash, List.length_cons]
    omega

end FlowTree.Text
