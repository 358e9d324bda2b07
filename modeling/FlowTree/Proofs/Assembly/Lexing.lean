import FlowTree.Assembly.Lexeme
import FlowTree.Proofs.Assembly.Pattern

/-!
The rules of the assembly text. Every kind of lexeme has a pattern, and the kinds are tried in a fixed order: the first
one with a match at the front of the text takes what its pattern prefers. The main statement is `lex_eq_iff`: the lexemes
of a text are those that the rules give, one after the other.
-/

namespace FlowTree.Assembly

open Pattern

/-- The characters that a text reads as. -/
def chars (t : Text) : List Char := t.map Glyph.toChar

/-- An escaped character, or one that needs no escape. -/
def stringItem : Pattern := either (seq (char '\\') (one (· ≠ '\n'))) (one fun c => c ≠ '"' && c ≠ '\\')

/-- What follows the quote that opens a string. -/
def stringTail : Pattern := seq (many stringItem) (char '"')

def digits : Pattern := several (one Char.isDigit)

def exponent : Pattern := seq (one fun c => c = 'e' || c = 'E') (seq (optional (one isSign)) digits)

def fraction : Pattern := seq digits (seq (char '.') (seq digits (optional exponent)))

def natural : Pattern := either (seq (char '0') (seq (char 'x') (several (one isHexDigit)))) digits

/-- A word without bars. -/
def plainWord : Pattern := seq (one isWordStart) (many (one isWordChar))

namespace LexemeKind

/-- What the lexemes of a kind look like. -/
def pattern : LexemeKind → Pattern
  | .comment => seq (char ';') (many (one (· ≠ '\n')))
  | .string => seq (char '"') stringTail
  | .id => seq (char '%') (several (one isIdChar))
  | .float => seq (optional (one isSign)) fraction
  | .integer => seq (optional (one isSign)) natural
  | .word => seq plainWord (many (seq (char '|') plainWord))
  | .equals => char '='
  | .newline => char '\n'
  | .blank => several (one isBlank)

/-- The kinds in the order in which they are tried. -/
def inOrder : List LexemeKind := [.comment, .string, .id, .float, .integer, .word, .equals, .newline, .blank]

end LexemeKind

/-- The kind of the lexeme at the front of a text, and what it leaves: the first kind with a match counts. -/
def first? (cs : List Char) : Option (LexemeKind × List Char) :=
  LexemeKind.inOrder.findSome? fun kind => (kind.pattern.left? cs).map (kind, ·)

/-- The text is the lexemes, each of them taken by the rules from what the ones before it left. -/
inductive Lexes : Text → List Lexeme → Prop
  | nil : Lexes [] []
  | cons {kind : LexemeKind} {w rest : Text} {ls : List Lexeme}
      (first : first? (chars (w ++ rest)) = some (kind, chars rest))
    (others : Lexes rest ls) : Lexes (w ++ rest) (⟨kind, w⟩ :: ls)

variable {t : Text} {p : Char → Bool}

@[simp] theorem chars_nil : chars [] = [] := rfl

@[simp] theorem chars_cons {g : Glyph} : chars (g :: t) = g.toChar :: chars t := rfl

@[simp] theorem chars_append {u : Text} : chars (t ++ u) = chars t ++ chars u := List.map_append

@[simp] theorem length_chars : (chars t).length = t.length := List.length_map _

@[simp] theorem starts_cons {g : Glyph} : starts p (g :: t) = p g.toChar := rfl

theorem starts_eq : starts p t = (chars t).head?.any p := by
  cases t <;> rfl

theorem chars_drop_run : chars (t.drop (run p t)) = (chars t).dropWhile p := by
  induction t with
  | nil => rfl
  | cons g t ih =>
    by_cases hg : p g.toChar = true
    · simpa [run, hg] using ih
    · simp [run, hg]

theorem run_pos_iff : 0 < run p t ↔ (chars t).head?.any p = true := by
  cases t with
  | nil => simp [run]
  | cons g t => by_cases hg : p g.toChar = true <;> simp [run, hg]

/-! ### Strings, words and numbers -/

theorem ways_stringItem_cons {c : Char} {cs : List Char} : stringItem.ways (c :: cs) =
    if c = '"' then [] else if c = '\\' then (one (· ≠ '\n')).ways cs else [cs] := by
  by_cases hquote : c = '"'
  · subst hquote
    rfl
  · by_cases hslash : c = '\\'
    · subst hslash
      simp [stringItem, char, ways_either, ways_seq]
    · simp [stringItem, char, ways_either, ways_seq, hquote, hslash]

theorem ways_stringTail_cons {c : Char} {cs : List Char} : stringTail.ways (c :: cs) =
    if c = '"' then [cs]
    else if c = '\\' then ((one (· ≠ '\n')).ways cs).flatMap stringTail.ways
    else stringTail.ways cs := by
  rw [stringTail, ways_seq_many, ways_stringItem_cons, char, ways_one_cons]
  by_cases hquote : c = '"'
  · simp [hquote]
  · by_cases hslash : c = '\\'
    · -- What follows an escaped character is shorter, so the repetition goes on.
      have hshorter : ((one (· ≠ '\n')).ways cs).filter (fun rest => rest.length < (c :: cs).length) =
          (one (· ≠ '\n')).ways cs :=
        List.filter_eq_self.mpr fun rest hrest => decide_eq_true (Nat.lt_succ_of_lt (length_lt_of_mem_ways_one hrest))
      rw [if_neg hquote, if_pos hslash, hshorter, if_neg (by simpa using hquote), List.append_nil, if_neg hquote,
        if_pos hslash]
    · simp [hquote, hslash]

theorem ways_stringTail : stringTail.ways (chars t) = ((stringRest? t).map fun n => chars (t.drop n)).toList := by
  fun_induction stringRest? t with
  | case1 => rfl
  | case2 g rest hg => simp [ways_stringTail_cons, hg]
  | case3 g hg => simp [ways_stringTail_cons, hg]
  | case4 g hg e rest he => simp [ways_stringTail_cons, hg, he]
  | case5 g hg e rest he ih =>
    simp only [chars_cons, ways_stringTail_cons, hg, Option.map_map, Function.comp_def]
    simpa [he] using ih
  | case6 g rest hquote hslash ih =>
    simp only [chars_cons, ways_stringTail_cons, if_neg hquote, if_neg hslash, Option.map_map, Function.comp_def]
    simpa using ih

theorem left?_string {g : Glyph} : LexemeKind.string.pattern.left? (chars (g :: t)) =
    if g.toChar = '"' then (stringRest? t).map fun n => chars (t.drop n) else none := by
  rw [LexemeKind.pattern, chars_cons, char, left?_seq_one_cons, left?, ways_stringTail]
  simp

theorem left?_plainWord_cons {c : Char} {cs : List Char} :
    plainWord.left? (c :: cs) = if isWordStart c then some (cs.dropWhile isWordChar) else none := by
  rw [plainWord, left?_seq_one_cons, left?_many_one]

theorem isWordChar_of_isWordStart {c : Char} (h : isWordStart c = true) : isWordChar c = true := by
  simp only [isWordStart, isWordChar, Bool.or_eq_true] at h ⊢
  tauto

theorem left?_bars : (many (seq (char '|') plainWord)).left? ((chars t).dropWhile isWordChar) =
    some (chars (t.drop (wordRest t))) := by
  fun_induction wordRest t with
  | case1 => rfl
  | case2 g rest hg ih => simpa [hg] using ih
  | case3 g rest hg hbar ih =>
    simp only [Bool.and_eq_true, decide_eq_true_eq] at hbar
    obtain ⟨hbar, hstart⟩ := hbar
    cases rest with
    | nil => cases hstart
    | cons s rest =>
      have hstart : isWordStart s.toChar = true := hstart
      have hword := isWordChar_of_isWordStart hstart
      have hitem : (seq (char '|') plainWord).left? (g.toChar :: s.toChar :: chars rest) =
          some ((chars rest).dropWhile isWordChar) := by
        rw [char, left?_seq_one_cons, left?_plainWord_cons]
        simp [hbar, hstart]
      -- Repetition goes on only where an item takes something.
      have hlt : ((chars rest).dropWhile isWordChar).length < (g.toChar :: s.toChar :: chars rest).length := by
        have := (List.dropWhile_suffix isWordChar (l := chars rest)).length_le
        simp only [List.length_cons]
        omega
      rw [chars_cons, List.dropWhile_cons_of_neg hg, chars_cons, left?_many_of_some hitem hlt]
      simpa [hword] using ih
  | case4 g rest hg hbar =>
    rw [chars_cons, List.dropWhile_cons_of_neg hg, left?_many_of_none]
    · rfl
    · rw [char, left?_seq_one_cons]
      cases rest with
      | nil => simp [plainWord]
      | cons s rest =>
        simp only [chars_cons, left?_plainWord_cons]
        simp only [starts, Bool.and_eq_true, not_and, decide_eq_true_eq] at hbar
        split
        · rw [if_neg (hbar (of_decide_eq_true ‹_›))]
        · rfl

theorem left?_word {g : Glyph} : LexemeKind.word.pattern.left? (chars (g :: t)) =
    if isWordStart g.toChar then some (chars (t.drop (wordRest t))) else none := by
  rw [LexemeKind.pattern, left?_seq_of_total fun _ => isSome_left?_many, chars_cons, left?_plainWord_cons]
  split
  · rw [Option.bind_some, left?_bars]
  · rfl

theorem left?_digits_of_not {c : Char} {cs : List Char} (h : c.isDigit = false) : digits.left? (c :: cs) = none := by
  rw [digits, left?_several_one]
  simp [h]

theorem left?_digits : digits.left? (chars t) =
    if 0 < run Char.isDigit t then some (chars (t.drop (run Char.isDigit t))) else none := by
  rw [digits, left?_several_one, chars_drop_run]
  simp only [run_pos_iff]

theorem not_isDigit_of_isSign {c : Char} (h : isSign c = true) : c.isDigit = false := by
  simp only [isSign, Bool.or_eq_true, decide_eq_true_eq] at h
  rcases h with rfl | rfl <;> rfl

/-- The text without the sign at its front. -/
theorem unsigned_eq : (if (chars t).head?.any isSign then (chars t).tail else chars t) =
    chars (t.drop (if starts isSign t then 1 else 0)) := by
  cases t with
  | nil => rfl
  | cons g t => by_cases hg : isSign g.toChar = true <;> simp [hg]

theorem left?_exponent : (optional exponent).left? (chars t) = some (chars (t.drop (exponentLength t))) := by
  rw [left?_optional]
  cases t with
  | nil => rfl
  | cons g t =>
    rw [exponent, chars_cons, left?_seq_one_cons,
      left?_seq_optional_one fun c _ hc => left?_digits_of_not (not_isDigit_of_isSign hc), unsigned_eq, left?_digits]
    simp only [exponentLength, starts_cons, List.drop_one, List.tail_cons]
    generalize (if starts isSign t then 1 else 0) = sign
    split
    · rw [Nat.add_comm 1 sign, List.drop_succ_cons]
      by_cases hdigits : run Char.isDigit (t.drop sign) = 0
      · simp [hdigits]
      · rw [if_pos (Nat.pos_of_ne_zero hdigits), if_neg hdigits, Nat.add_right_comm, List.drop_succ_cons, List.drop_drop]
        rfl
    · rfl

/-- What a pattern that begins with a certain character leaves. -/
theorem left?_seq_char {c : Char} {b : Pattern} : (seq (char c) b).left? (chars t) =
    if starts (· = c) t then b.left? (chars (t.drop 1)) else none := by
  cases t with
  | nil => rfl
  | cons g t => rw [char, chars_cons, left?_seq_one_cons, starts_cons, List.drop_one, List.tail_cons]

theorem left?_fraction : fraction.left? (chars t) = (fractionLength? t).map fun n => chars (t.drop n) := by
  have hpoint : ∀ c cs, c.isDigit = true → (seq (char '.') (seq digits (optional exponent))).left? (c :: cs) = none := by
    intro c cs hc
    rw [char, left?_seq_one_cons, if_neg]
    simp only [decide_eq_true_eq]
    rintro rfl
    cases hc
  rw [fraction]
  nth_rw 1 [digits]
  rw [left?_seq_several_one hpoint, ← chars_drop_run, left?_seq_char,
    left?_seq_of_total fun _ => isSome_left?_optional, left?_digits, List.drop_drop]
  simp only [fractionLength?, ← run_pos_iff]
  generalize run Char.isDigit t = whole
  generalize hplaces : run Char.isDigit (t.drop (whole + 1)) = places
  by_cases hwhole : 0 < whole <;> by_cases hpoint : starts (· = '.') (t.drop whole) = true <;>
    by_cases hpos : 0 < places <;> simp [hwhole, hpoint, hpos, left?_exponent]

theorem left?_natural : natural.left? (chars t) = (naturalLength? t).map fun n => chars (t.drop n) := by
  rw [natural, left?_either, left?_seq_char, left?_seq_char, left?_several_one, ← chars_drop_run, left?_digits]
  simp only [naturalLength?, ← run_pos_iff, List.drop_drop]
  by_cases hzero : starts (· = '0') t = true <;> by_cases hx : starts (· = 'x') (t.drop 1) = true <;>
    by_cases hhex : 0 < run isHexDigit (t.drop 2) <;> by_cases hdigits : 0 < run Char.isDigit t <;>
    simp only [hzero, hx, hhex, hdigits] <;> simp

theorem left?_fraction_of_not {c : Char} {cs : List Char} (h : c.isDigit = false) : fraction.left? (c :: cs) = none := by
  have hdigits : digits.ways (c :: cs) = [] := List.head?_eq_none_iff.mp (left?_digits_of_not h)
  rw [fraction, left?, ways_seq, hdigits]
  rfl

theorem left?_natural_of_not {c : Char} {cs : List Char} (h : c.isDigit = false) : natural.left? (c :: cs) = none := by
  rw [natural, left?_either, left?_digits_of_not h, char, left?_seq_one_cons, if_neg]
  · rfl
  · simp only [decide_eq_true_eq]
    rintro rfl
    cases h

/-- Both kinds of number together. -/
theorem left?_number : ((LexemeKind.float.pattern.left? (chars t)).map (LexemeKind.float, ·)).or
    ((LexemeKind.integer.pattern.left? (chars t)).map (LexemeKind.integer, ·)) =
    (number? t).map fun found => (found.1, chars (t.drop found.2)) := by
  rw [LexemeKind.pattern, LexemeKind.pattern,
    left?_seq_optional_one fun c _ hc => left?_fraction_of_not (not_isDigit_of_isSign hc),
    left?_seq_optional_one fun c _ hc => left?_natural_of_not (not_isDigit_of_isSign hc), unsigned_eq,
    left?_fraction, left?_natural]
  simp only [number?]
  generalize (if starts isSign t then 1 else 0) = sign
  cases fractionLength? (t.drop sign) with
  | some n => simp [List.drop_drop]
  | none => cases naturalLength? (t.drop sign) <;> simp [List.drop_drop]

/-! ### The first rule -/

/-- The kinds other than numbers and strings, whose first character decides. -/
theorem left?_simple {g : Glyph} :
    LexemeKind.comment.pattern.left? (chars (g :: t)) =
      (if g.toChar = ';' then some (chars (t.drop (run (· ≠ '\n') t))) else none) ∧
    LexemeKind.id.pattern.left? (chars (g :: t)) =
      (if g.toChar = '%' ∧ 0 < run isIdChar t then some (chars (t.drop (run isIdChar t))) else none) ∧
    LexemeKind.equals.pattern.left? (chars (g :: t)) = (if g.toChar = '=' then some (chars t) else none) ∧
    LexemeKind.newline.pattern.left? (chars (g :: t)) = (if g.toChar = '\n' then some (chars t) else none) ∧
    LexemeKind.blank.pattern.left? (chars (g :: t)) =
      (if isBlank g.toChar then some (chars (t.drop (run isBlank t))) else none) := by
  simp only [LexemeKind.pattern, char, chars_cons, chars_drop_run, left?_seq_one_cons, left?_one_cons, left?_many_one,
    left?_several_one, run_pos_iff, decide_eq_true_eq, List.head?_cons, Option.any_some, ite_and, true_and]
  by_cases hblank : isBlank g.toChar = true <;> simp [hblank]

theorem number?_of_not {g : Glyph} (hsign : isSign g.toChar = false) (hdigit : g.toChar.isDigit = false) :
    number? (g :: t) = none := by
  have hzero : g.toChar ≠ '0' := by
    intro h
    rw [h] at hdigit
    cases hdigit
  simp [number?, fractionLength?, naturalLength?, run, hsign, hdigit, hzero]

theorem fractionLength?_pos {n : Nat} (h : fractionLength? t = some n) : 0 < n := by
  simp only [fractionLength?, Option.ite_none_right_eq_some, Option.some.injEq] at h
  omega

theorem naturalLength?_pos {n : Nat} (h : naturalLength? t = some n) : 0 < n := by
  simp only [naturalLength?] at h
  by_cases hhex : (starts (· = '0') t && starts (· = 'x') (t.drop 1) && decide (0 < run isHexDigit (t.drop 2))) = true
  · rw [if_pos hhex, Option.some.injEq] at h
    omega
  · rw [if_neg hhex, Option.ite_none_right_eq_some, Option.some.injEq] at h
    omega

/-- A number has a first glyph. -/
theorem number?_pos {found : LexemeKind × Nat} (h : number? t = some found) : 0 < found.2 := by
  simp only [number?] at h
  split at h
  · have := fractionLength?_pos ‹_›
    cases h
    simp only
    omega
  · obtain ⟨n, hn, rfl⟩ := Option.map_eq_some_iff.mp h
    have := naturalLength?_pos hn
    simp only
    omega

theorem isDigit_iff {c : Char} : c.isDigit = true ↔ 48 ≤ c.toNat ∧ c.toNat ≤ 57 := by
  simp [Char.isDigit, UInt32.le_iff_toNat_le]

theorem isLetter_iff {c : Char} :
    isLetter c = true ↔ 97 ≤ c.toNat ∧ c.toNat ≤ 122 ∨ 65 ≤ c.toNat ∧ c.toNat ≤ 90 := by
  simp [isLetter, Char.le_def, UInt32.le_iff_toNat_le]

/-- What begins like a number begins like nothing else. -/
theorem not_others_of_number {c : Char} (h : (isSign c || c.isDigit) = true) :
    isWordStart c = false ∧ isBlank c = false ∧ c ≠ '=' ∧ c ≠ '\n' := by
  rcases Bool.or_eq_true_iff.mp h with h | h
  · simp only [isSign, Bool.or_eq_true, decide_eq_true_eq] at h
    rcases h with rfl | rfl <;> decide
  · have hc := isDigit_iff.mp h
    have hne : ∀ d : Char, d.toNat < 48 ∨ 57 < d.toNat → c ≠ d := by
      rintro d hd rfl
      omega
    refine ⟨?_, ?_, hne _ (by decide), hne _ (by decide)⟩
    · have hletter : ¬isLetter c = true := by
        rw [isLetter_iff]
        omega
      simp [isWordStart, hletter, hne '_' (by decide)]
    · simp [isBlank, hne ' ' (by decide), hne '\t' (by decide), hne '\r' (by decide)]

theorem findSome?_cons_or {α β : Type} {f : α → Option β} {x : α} {xs : List α} :
    (x :: xs).findSome? f = (f x).or (xs.findSome? f) := by
  rw [List.findSome?_cons]
  cases f x <;> rfl

/-- Reading a lexeme looks for the first rule that has a match. -/
theorem first?_eq_lexeme? {g : Glyph} :
    first? (chars (g :: t)) = (lexeme? g t).map fun found => (found.1, chars (t.drop found.2)) := by
  obtain ⟨hcomment, hid, hequals, hnewline, hblank⟩ := left?_simple (t := t) (g := g)
  simp only [first?, LexemeKind.inOrder, findSome?_cons_or, List.findSome?_nil, hcomment, left?_string, hid, left?_word,
    hequals, hnewline, hblank]
  -- The rules are tried in the order of their kinds, and the two for numbers stand for one reading.
  have hnumbers : ∀ later, ((LexemeKind.float.pattern.left? (chars (g :: t))).map (LexemeKind.float, ·)).or
      (((LexemeKind.integer.pattern.left? (chars (g :: t))).map (LexemeKind.integer, ·)).or later) =
      ((number? (g :: t)).map fun found => (found.1, chars ((g :: t).drop found.2))).or later := fun later => by
    rw [← Option.or_assoc, left?_number]
  rw [hnumbers]
  simp only [lexeme?]
  by_cases hcomment : g.toChar = ';'
  · simp [hcomment]
  rw [if_neg hcomment, if_neg hcomment, Option.map_none, Option.none_or]
  by_cases hquote : g.toChar = '"'
  · have hnumber : number? (g :: t) = none := number?_of_not (by rw [hquote]; rfl) (by rw [hquote]; rfl)
    simp only [hquote, hnumber]
    cases stringRest? t <;> simp [isWordStart, isLetter, isBlank]
  rw [if_neg hquote, if_neg hquote, Option.map_none, Option.none_or]
  by_cases hpercent : g.toChar = '%'
  · have hnumber : number? (g :: t) = none := number?_of_not (by rw [hpercent]; rfl) (by rw [hpercent]; rfl)
    simp only [hpercent, hnumber]
    by_cases hname : 0 < run isIdChar t <;> simp [hname, isWordStart, isLetter, isBlank]
  rw [if_neg (fun h => hpercent h.1), if_neg hpercent, Option.map_none, Option.none_or]
  by_cases hnumber : (isSign g.toChar || g.toChar.isDigit) = true
  · obtain ⟨hword, hblank, hequals, hnewline⟩ := not_others_of_number hnumber
    cases hfound : number? (g :: t) with
    | none => simp [hnumber, hword, hblank, hequals, hnewline]
    | some found =>
      obtain ⟨n, hn⟩ := Nat.exists_eq_succ_of_ne_zero (Nat.ne_of_gt (number?_pos hfound))
      simp [hnumber, hn]
  · obtain ⟨hsign, hdigit⟩ := Bool.or_eq_false_iff.mp (Bool.eq_false_iff.mpr hnumber)
    rw [number?_of_not hsign hdigit, if_neg hnumber, Option.map_none, Option.none_or]
    by_cases hword : isWordStart g.toChar = true
    · simp [hword]
    rw [if_neg hword, if_neg hword, Option.map_none, Option.none_or]
    by_cases hequals : g.toChar = '='
    · simp [hequals]
    · by_cases hnewline : g.toChar = '\n' <;> by_cases hblank : isBlank g.toChar = true <;>
        simp [hequals, hnewline, hblank]

theorem left?_of_first? {cs rest : List Char} {kind : LexemeKind} (h : first? cs = some (kind, rest)) :
    kind.pattern.left? cs = some rest := by
  obtain ⟨kind', -, h⟩ := List.exists_of_findSome?_eq_some h
  obtain ⟨rest', hrest, heq⟩ := Option.map_eq_some_iff.mp h
  cases heq
  exact hrest

theorem length_lt_of_first? {cs rest : List Char} {kind : LexemeKind} (h : first? cs = some (kind, rest)) :
    rest.length < cs.length := by
  cases cs with
  | nil => cases h
  | cons c cs =>
    have hchars : c :: cs = chars (.char c :: cs.map .char) := by simp [chars, Function.comp_def, Glyph.toChar]
    rw [hchars, first?_eq_lexeme?, Option.map_eq_some_iff] at h
    obtain ⟨found, -, heq⟩ := h
    rw [← (Prod.mk.inj heq).2]
    simp only [length_chars, List.length_drop, List.length_cons, List.length_map]
    omega

/-! ### Lexemes in a row -/

theorem lex_cons {g : Glyph} {kind : LexemeKind} {n : Nat} (h : lexeme? g t = some (kind, n)) :
    lex (g :: t) = (⟨kind, g :: t.take n⟩ :: (lex (t.drop n)).1, (lex (t.drop n)).2) := by
  rw [lex]
  simp only [h]

/-- A lexeme at the front of a text, and then those of the rest. -/
theorem lex_append {kind : LexemeKind} {w rest : Text} (h : first? (chars (w ++ rest)) = some (kind, chars rest)) :
    lex (w ++ rest) = (⟨kind, w⟩ :: (lex rest).1, (lex rest).2) := by
  cases htext : w ++ rest with
  | nil =>
    rw [htext] at h
    cases h
  | cons g t =>
    rw [htext, first?_eq_lexeme?, Option.map_eq_some_iff] at h
    obtain ⟨⟨kind', n⟩, hfound, heq⟩ := h
    simp only [Prod.mk.injEq] at heq
    obtain ⟨rfl, heq⟩ := heq
    have hlength : (t.drop n).length = rest.length := by simpa using congrArg List.length heq
    have hsplit : (g :: t.take n) ++ t.drop n = w ++ rest := by rw [htext, List.cons_append, List.take_append_drop]
    obtain ⟨rfl, rfl⟩ := List.append_inj' hsplit hlength
    exact lex_cons hfound

theorem Lexes.lex_eq {ls : List Lexeme} (h : Lexes t ls) : lex t = (ls, []) := by
  induction h with
  | nil => rw [lex]
  | cons first others ih => rw [lex_append first, ih]

theorem lexes_of_lex {ls : List Lexeme} (h : lex t = (ls, [])) : Lexes t ls := by
  fun_induction lex t generalizing ls with
  | case1 =>
    cases h
    exact .nil
  | case2 g rest hfound => cases h
  | case3 g rest kind n hfound lexemes left hlex ih =>
    simp only [Prod.mk.injEq] at h
    obtain ⟨rfl, rfl⟩ := h
    have hsplit : g :: rest = (g :: rest.take n) ++ rest.drop n := by rw [List.cons_append, List.take_append_drop]
    rw [hsplit]
    refine .cons ?_ (ih hlex)
    rw [← hsplit, first?_eq_lexeme?, hfound]
    rfl

/-- The lexemes of a text are those that the rules give. -/
theorem lex_eq_iff {ls : List Lexeme} : lex t = (ls, []) ↔ Lexes t ls := ⟨lexes_of_lex, Lexes.lex_eq⟩

theorem Lexes.exists_left {ls : List Lexeme} (h : Lexes t ls) :
    ∀ l ∈ ls, ∃ rest, rest ∈ l.kind.pattern.ways (chars l.text ++ rest) := by
  induction h with
  | nil => simp
  | @cons kind w rest ls first _ ih =>
    refine List.forall_mem_cons.mpr ⟨⟨chars rest, ?_⟩, ih⟩
    rw [chars_append] at first
    exact List.mem_of_mem_head? (left?_of_first? first)

/-- The patterns of kinds other than comments and strings know ASCII only. -/
theorem LexemeKind.refuses_of_not_ascii {kind : LexemeKind} (hcomment : kind ≠ .comment) (hstring : kind ≠ .string)
    {c : Char} (hc : 128 ≤ c.toNat) : kind.pattern.Refuses c := by
  have hne : ∀ d : Char, d.toNat < 128 → c ≠ d := by
    rintro d hd rfl
    omega
  have hdigit : c.isDigit = false := by
    rw [Bool.eq_false_iff, Ne, isDigit_iff]
    omega
  have hletter : isLetter c = false := by
    rw [Bool.eq_false_iff, Ne, isLetter_iff]
    omega
  have hhex : isHexDigit c = false := by
    simp only [isHexDigit, hdigit, Bool.false_or, Bool.or_eq_false_iff, Bool.and_eq_false_iff, decide_eq_false_iff_not,
      Char.le_def, UInt32.le_iff_toNat_le]
    have hlate : 128 ≤ c.val.toNat := hc
    constructor <;> right <;> exact fun hle => absurd (Nat.le_trans hlate hle) (by decide)
  cases kind with
  | comment => exact absurd rfl hcomment
  | string => exact absurd rfl hstring
  | _ =>
    simp [pattern, Refuses, char, several, Pattern.optional, fraction, natural, digits, exponent, plainWord, isIdChar,
      isWordStart, isWordChar, isBlank, isSign, hdigit, hletter, hhex, hne]

theorem Lexes.ascii {ls : List Lexeme} (h : Lexes t ls) : ∀ l ∈ ls, l.kind ≠ .comment → l.kind ≠ .string →
    ∀ c ∈ chars l.text, c.toNat < 128 := by
  intro l hl hcomment hstring c hc
  obtain ⟨rest, hrest⟩ := h.exists_left l hl
  by_contra hlate
  exact not_mem_of_refuses (LexemeKind.refuses_of_not_ascii hcomment hstring (Nat.not_lt.mp hlate)) hrest hc

/-- A string is at least its two quotes. -/
theorem Lexes.two_le_length {ls : List Lexeme} (h : Lexes t ls) : ∀ l ∈ ls, l.kind = .string → 2 ≤ l.text.length := by
  intro l hl hkind
  obtain ⟨rest, hrest⟩ := h.exists_left l hl
  have hone : ∀ {q : Char → Bool} {cs r : List Char}, r ∈ (one q).ways cs → r.length + 1 = cs.length := by
    intro q cs r hr
    cases cs with
    | nil => cases hr
    | cons c cs =>
      rw [ways_one_cons] at hr
      split at hr
      · rw [List.mem_singleton.mp hr, List.length_cons]
      · cases hr
  rw [hkind, LexemeKind.pattern, ways_seq, List.mem_flatMap] at hrest
  obtain ⟨tail, htail, hrest⟩ := hrest
  obtain ⟨close, hclose, hrest⟩ := List.mem_flatMap.mp hrest
  have := (suffix_of_mem_ways hclose).length_le
  have hopen := hone htail
  have := hone hrest
  rw [List.length_append, length_chars] at hopen
  omega

end FlowTree.Assembly
