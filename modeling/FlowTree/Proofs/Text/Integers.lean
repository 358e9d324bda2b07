import FlowTree.Text.Integer
import FlowTree.Proofs.Text.Quoting

/-!
Integers printed and read back. What a literal stands for always fits into 64 bits, and the decimal numeral of a number
that fits stands for that number. Plain numerals are told by their digits (`numeral?_eq_some_iff`).
-/

namespace FlowTree.Text

theorem digitChar_ne_separator : ∀ d < 10, Nat.digitChar d ≠ '_' := by
  decide

/-- A digit is read after the number before it. -/
theorem readMagnitude_digitChar {n d : Nat} (hd : d < 10) (hlimit : n * 10 + d ≤ magnitudeLimit) (rest : List Char) :
    readMagnitude 10 n (Nat.digitChar d :: rest) = readMagnitude 10 (n * 10 + d) rest := by
  rw [readMagnitude, if_neg (digitChar_ne_separator d hd), digitValue?_digitChar d (by omega)]
  simp only
  rw [if_neg (by omega), if_neg (by omega)]

theorem readMagnitude_toDigits (n : Nat) (hlimit : n ≤ magnitudeLimit) (rest : List Char) :
    readMagnitude 10 0 (Nat.toDigits 10 n ++ rest) = readMagnitude 10 n rest := by
  induction n using Nat.strongRecOn generalizing rest with
  | _ n ih =>
    rw [Nat.toDigits_eq_if (by decide)]
    split
    · rw [List.singleton_append, readMagnitude_digitChar ‹_› (by omega), Nat.zero_mul, Nat.zero_add]
    · rw [List.append_assoc, ih (n / 10) (by omega) (by omega), List.singleton_append,
        readMagnitude_digitChar (by omega) (by omega)]
      congr 1
      omega

/-- The first digit of a number that is not zero is not zero. -/
theorem exists_toDigits_eq_cons {n : Nat} (hn : n ≠ 0) : ∃ c cs, Nat.toDigits 10 n = c :: cs ∧ c ≠ '0' := by
  induction n using Nat.strongRecOn with
  | _ n ih =>
    rw [Nat.toDigits_eq_if (by decide)]
    split
    · have hdigit : ∀ d < 10, d ≠ 0 → Nat.digitChar d ≠ '0' := by decide
      exact ⟨_, [], rfl, hdigit n ‹_› hn⟩
    · obtain ⟨c, cs, hcs, hc⟩ := ih (n / 10) (by omega) (by omega)
      exact ⟨c, cs ++ [Nat.digitChar (n % 10)], by rw [hcs]; rfl, hc⟩

theorem readNatural_toDigits {n : Nat} (hlimit : n ≤ magnitudeLimit) : readNatural (Nat.toDigits 10 n) = .ok n := by
  have hseparator : (Nat.toDigits 10 n).contains '_' = false := by
    rw [← Bool.not_eq_true, List.contains_iff_mem]
    intro hmem
    cases Nat.isDigit_of_mem_toDigits (by decide) (by decide) hmem
  have hne : (Nat.toDigits 10 n).isEmpty = false := by simp
  unfold readNatural
  rw [hne, hseparator]
  by_cases hn : n = 0
  · subst hn
    rfl
  · obtain ⟨c, cs, hcs, hc⟩ := exists_toDigits_eq_cons hn
    have hbase : splitBase (Nat.toDigits 10 n) = (10, Nat.toDigits 10 n) := by
      rw [hcs]
      unfold splitBase
      split
      · exact absurd (List.cons.inj ‹_›).1 hc
      · exact absurd (List.cons.inj ‹_›).1 hc
      · rfl
    have hread := readMagnitude_toDigits n hlimit []
    rw [List.append_nil, readMagnitude] at hread
    simp [hbase, hread]

theorem splitSign_toDigits (n : Nat) : splitSign (Nat.toDigits 10 n) = (false, Nat.toDigits 10 n) := by
  have hdigits : ∀ c ∈ Nat.toDigits 10 n, c.isDigit = true := fun c =>
    Nat.isDigit_of_mem_toDigits (by decide) (by decide)
  unfold splitSign
  split
  · rename_i heq
    cases hdigits '-' (by simp [heq])
  · rename_i heq
    cases hdigits '+' (by simp [heq])
  · rfl

/-- The decimal numeral of a number of 64 bits reads as that number. -/
theorem readInteger_toString {n : Int} (hmin : -(signedLimit : Int) ≤ n) (hmax : n < signedLimit) :
    readInteger (toString n) = ⟨n, none⟩ := by
  have hlimit : signedLimit ≤ magnitudeLimit := by decide
  rw [Int.toString_eq_repr]
  unfold readInteger
  cases n with
  | ofNat m =>
    have hm : m < signedLimit := Int.ofNat_lt.mp hmax
    simp only [Int.repr, Nat.repr_eq_ofList_toDigits, String.toList_ofList, splitSign_toDigits]
    rw [readNatural_toDigits (by omega), clampSigned]
    simp only [Bool.false_eq_true, if_false]
    rw [if_neg (by omega)]
    rfl
  | negSucc m =>
    have hm : m + 1 ≤ signedLimit := by omega
    have hsign : ∀ cs, splitSign ('-' :: cs) = (true, cs) := fun cs => rfl
    simp only [Int.repr, Nat.repr_eq_ofList_toDigits, String.toList_append, String.toList_ofList]
    rw [show "-".toList = ['-'] from rfl, List.singleton_append, hsign]
    simp only
    rw [readNatural_toDigits (by omega), clampSigned]
    simp only [if_true]
    rw [if_neg (by omega)]
    congr 1

/-- What a literal stands for fits into 64 bits. -/
theorem readInteger_bounds (s : String) :
    -(signedLimit : Int) ≤ (readInteger s).value ∧ (readInteger s).value < signedLimit := by
  have hpos : 0 < signedLimit := by decide
  unfold readInteger
  simp only
  generalize splitSign s.toList = split
  obtain ⟨negative, digits⟩ := split
  simp only
  unfold clampSigned
  split
  · simp only
    omega
  · cases negative <;> simp <;> omega
  · cases negative <;> simp <;> split <;> simp <;> omega

/-! ### Numerals -/

/-- The text is a decimal numeral of the number, perhaps with zeros in front. -/
structure IsNumeral (s : String) (n : Nat) : Prop where
  nonempty : s ≠ ""
  digits : ∀ c ∈ s.toList, c.isDigit = true
  value : s.toList.foldl (fun n c => n * 10 + (c.toNat - '0'.toNat)) 0 = n

theorem digitValue?_lt_ten {c : Char} {d : Nat} :
    digitValue? c = some d ∧ d < 10 ↔ c.isDigit = true ∧ d = c.toNat - '0'.toNat := by
  have hdigit : c.isDigit = ('0' ≤ c && c ≤ '9') := rfl
  unfold digitValue?
  rw [hdigit]
  split
  · rename_i h
    obtain ⟨-, hle⟩ : '0' ≤ c ∧ c ≤ '9' := by simpa using h
    have hle : c.toNat ≤ '9'.toNat := hle
    have hnine : '9'.toNat - '0'.toNat = 9 := rfl
    simp only [Option.some.injEq, true_and, h]
    omega
  · rename_i h
    constructor
    · rintro ⟨hvalue, hlt⟩
      split at hvalue
      · cases hvalue
        omega
      · split at hvalue
        · cases hvalue
          omega
        · cases hvalue
    · rintro ⟨h', -⟩
      exact absurd h' h

theorem foldlM_digits {cs : List Char} {n m : Nat} :
    cs.foldlM (fun n c => (digitValue? c).bind fun d => if d < 10 then some (n * 10 + d) else none) n = some m ↔
      (∀ c ∈ cs, c.isDigit = true) ∧ cs.foldl (fun n c => n * 10 + (c.toNat - '0'.toNat)) n = m := by
  induction cs generalizing n with
  | nil => simp
  | cons c cs ih =>
    rw [List.foldlM_cons, List.forall_mem_cons, List.foldl_cons, Option.bind_eq_bind, Option.bind_eq_some_iff]
    simp only [Option.bind_eq_some_iff, Option.ite_none_right_eq_some, Option.some.injEq, ih]
    constructor
    · rintro ⟨_, ⟨d, hd, hlt, rfl⟩, hrest, hvalue⟩
      obtain ⟨hdigit, rfl⟩ := digitValue?_lt_ten.mp ⟨hd, hlt⟩
      exact ⟨⟨hdigit, hrest⟩, hvalue⟩
    · rintro ⟨⟨hdigit, hrest⟩, hvalue⟩
      obtain ⟨hd, hlt⟩ := digitValue?_lt_ten.mpr ⟨hdigit, rfl⟩
      exact ⟨_, ⟨_, hd, hlt, rfl⟩, hrest, hvalue⟩

theorem numeral?_eq_some_iff {bound n : Nat} {s : String} : numeral? bound s = some n ↔ IsNumeral s n ∧ n < bound := by
  have hfold : ∀ m, ofDigits? 10 s.toList = some m ↔
      (∀ c ∈ s.toList, c.isDigit = true) ∧ s.toList.foldl (fun n c => n * 10 + (c.toNat - '0'.toNat)) 0 = m :=
    fun m => foldlM_digits
  unfold numeral?
  split
  · rename_i hempty
    refine ⟨nofun, fun h => absurd ?_ h.1.nonempty⟩
    simpa using hempty
  · rename_i hnonempty
    simp only [Option.bind_eq_bind, Option.bind_eq_some_iff, Option.ite_none_right_eq_some, Option.some.injEq, hfold]
    constructor
    · rintro ⟨_, ⟨hdigits, hvalue⟩, hlt, rfl⟩
      exact ⟨⟨by simpa using hnonempty, hdigits, hvalue⟩, hlt⟩
    · rintro ⟨h, hlt⟩
      exact ⟨n, ⟨h.digits, h.value⟩, hlt, rfl⟩

end FlowTree.Text
