import FlowTree.Proofs.Editor.Highlights
import FlowTree.Proofs.Text.Quoting

/-!
Where highlights may overlap. A highlight starts at the column of its lexeme, which counts characters, but its length is the
number of bytes of the lexeme as it is printed. For ids, numbers and words both are the same. A string may be printed with
more bytes than it is written with characters, and only such a string reaches into what follows it.
-/

namespace FlowTree.Editor
open Assembly

/-- The character behind the highlight. -/
def Highlight.stop (h : Highlight) : Nat := h.start.character.toNat + h.length.toNat

/-- The lexeme is printed with more bytes than it is written with characters. -/
def Widens (l : Lexeme) : Prop :=
  ∃ value, Token.value? l = some value ∧ l.text.length < (printed l.kind value).utf8ByteSize

/-- The string is written in printable ASCII, and what it stands for is printable or of ASCII. -/
structure IsPlain (l : Lexeme) : Prop where
  written : ∀ g ∈ l.text, 0x20 ≤ g.toChar.toNat ∧ g.toChar.toNat < 0x7F
  meant : ∀ c ∈ (Text.unquote? (Token.inner l.text)).getD [], c.toNat < 128 ∨ Text.isPrintable c = true

instance (l : Lexeme) : Decidable (IsPlain l) :=
  -- only the characters of the string are looked at, not all there are
  have := List.decidableBAll (fun c => c.toNat < 128 ∨ Text.isPrintable c = true)
    ((Text.unquote? (Token.inner l.text)).getD [])
  decidable_of_iff ((∀ g ∈ l.text, 0x20 ≤ g.toChar.toNat ∧ g.toChar.toNat < 0x7F) ∧
      ∀ c ∈ (Text.unquote? (Token.inner l.text)).getD [], c.toNat < 128 ∨ Text.isPrintable c = true)
    ⟨fun h => ⟨h.1, h.2⟩, fun h => ⟨h.1, h.2⟩⟩

variable {t : Text} {ls : List Lexeme} {l : Lexeme}

theorem kind_of_widens (hlexes : Lexes t ls) (hl : l ∈ ls) (hkept : l.isKept = true) (h : Widens l) : l.kind = .string := by
  by_contra hkind
  obtain ⟨value, hvalue, hlt⟩ := h
  have hcomment : l.kind ≠ .comment := by
    rintro hcomment
    simp [Lexeme.isKept, Token.isSkipped, hcomment] at hkept
  rw [Token.value?, if_neg hkind, Option.some.injEq] at hvalue
  have hascii := Text.utf8Len_eq_length (hlexes.ascii l hl hcomment hkind)
  rw [length_chars] at hascii
  rw [printed, if_neg hkind, ← hvalue, Text.shown, String.utf8ByteSize_ofList, ← chars, hascii] at hlt
  exact Nat.lt_irrefl _ hlt

theorem not_widens_of_isPlain (hlexes : Lexes t ls) (hl : l ∈ ls) (hkind : l.kind = .string) (h : IsPlain l) :
    ¬Widens l := by
  rintro ⟨value, hvalue, hlt⟩
  rw [Token.value?, if_pos hkind, Option.map_eq_some_iff] at hvalue
  obtain ⟨cs, hcs, rfl⟩ := hvalue
  have hinner : ∀ g ∈ Token.inner l.text, g ∈ l.text := fun g hg => List.mem_of_mem_drop (List.dropLast_subset _ hg)
  have hsize := Text.utf8Len_quoted_le hcs (fun g hg => h.written g (hinner g hg)) (by simpa [hcs] using h.meant)
  have hlength := hlexes.two_le_length l hl hkind
  rw [printed, if_pos hkind, Text.utf8ByteSize_quoteString] at hlt
  rw [Token.inner, List.length_dropLast, List.length_drop] at hsize
  omega

/-- A highlight ends before what its lexeme clears unless the lexeme widens. -/
theorem stop_le_or_widens {a b : Highlight} (hof : Highlight.Of l a) (hclears : a.Clears l.text.length b)
    (hline : a.start.line = b.start.line) : a.stop ≤ b.start.character.toNat ∨
      Widens l ∧ a.start.character.toNat + l.text.length ≤ b.start.character.toNat := by
  rw [Highlight.Clears, hline] at hclears
  by_cases hwidens : Widens l
  · exact Or.inr ⟨hwidens, by omega⟩
  · obtain ⟨value, hvalue, hlength⟩ := hof.length
    have hle : (printed l.kind value).utf8ByteSize ≤ l.text.length := Nat.not_lt.mp fun hlt => hwidens ⟨value, hvalue, hlt⟩
    have hmod : a.length.toNat ≤ (printed l.kind value).utf8ByteSize := by
      rw [hlength, UInt32.toNat_ofNat']
      exact Nat.mod_le _ _
    unfold Highlight.stop
    omega

/-- Highlights on one line are apart, unless the first of them is of a string that is printed with more bytes than it is
written with characters. No string is if it is written in printable ASCII and stands for characters that are printable or
of ASCII. -/
theorem highlights_apart {p : Program} (h : Program.parse t = .ok p) (hfits : t.Fits) :
    ((highlights p).Pairwise fun a b => a.start.line = b.start.line → a.stop ≤ b.start.character.toNat ∨
      a.kind = .string ∧ ∃ l ∈ (lex (closeLine t)).1, Highlight.Of l a ∧ Widens l ∧
        a.start.character.toNat + l.text.length ≤ b.start.character.toNat) ∧
    ((∀ l ∈ (lex (closeLine t)).1, l.kind = .string → IsPlain l) →
      (highlights p).Pairwise fun a b => a.start.line = b.start.line → a.stop ≤ b.start.character.toNat) := by
  obtain ⟨ls, hlexes, hpairwise⟩ := pairwise_highlights h hfits
  have hls : (lex (closeLine t)).1 = ls := by rw [hlexes.lex_eq]
  rw [hls]
  constructor
  · refine hpairwise.imp ?_
    rintro a b ⟨l, hl, hof, hclears⟩ hline
    refine (stop_le_or_widens hof hclears hline).imp_right ?_
    rintro ⟨hwidens, hbehind⟩
    exact ⟨hof.kind.mpr (kind_of_widens hlexes hl hof.kept hwidens), l, hl, hof, hwidens, hbehind⟩
  · intro hplain
    refine hpairwise.imp ?_
    rintro a b ⟨l, hl, hof, hclears⟩ hline
    refine (stop_le_or_widens hof hclears hline).resolve_right ?_
    rintro ⟨hwidens, -⟩
    have hkind := kind_of_widens hlexes hl hof.kept hwidens
    exact not_widens_of_isPlain hlexes hl hkind (hplain l hl hkind) hwidens

/-- Strings with escapes, and nothing between the words. -/
def escapedSample : Text := Text.ofString "%s=OpName\"a\\x41\\n\\u00e9\"2\"\\\"\"x"

/-- No highlight of the sample reaches into the next. -/
theorem highlights_apart_escaped : ∃ p, Program.parse escapedSample = .ok p ∧ escapedSample.Fits ∧
    (∀ l ∈ (lex (closeLine escapedSample)).1, l.kind = .string → IsPlain l) ∧
    (highlights p).Pairwise fun a b => a.start.line = b.start.line → a.stop ≤ b.start.character.toNat := by
  have hparse : Program.parse escapedSample = .ok ⟨[⟨some ⟨"%s", ⟨1, 1, 0⟩⟩, ⟨"OpName", ⟨1, 4, 3⟩⟩, [
      ⟨.string, "aA\né", ⟨1, 10, 9⟩⟩, ⟨.integer, "2", ⟨1, 25, 24⟩⟩, ⟨.string, "\"", ⟨1, 26, 25⟩⟩,
      ⟨.word, "x", ⟨1, 30, 29⟩⟩]⟩]⟩ := by decide +kernel
  have hfits : escapedSample.Fits := by decide +kernel
  have hplain : ∀ l ∈ (lex (closeLine escapedSample)).1, l.kind = .string → IsPlain l := by decide +kernel
  exact ⟨_, hparse, hfits, hplain, (highlights_apart hparse hfits).2 hplain⟩

/-- A string of one character with two bytes, and an id right behind it. -/
def accentSample : Text := Text.ofString "OpString \"é\"%x"

/-- The highlight of the string ends one character behind the start of the id. -/
theorem highlights_overlap : ∃ p a b, Program.parse accentSample = .ok p ∧ accentSample.Fits ∧ [a, b] <:+: highlights p ∧
    a.start.line = b.start.line ∧ b.start.character.toNat < a.stop := by
  have hparse : Program.parse accentSample = .ok ⟨[⟨none, ⟨"OpString", ⟨1, 1, 0⟩⟩, [⟨.string, "é", ⟨1, 10, 9⟩⟩,
      ⟨.id, "%x", ⟨1, 13, 13⟩⟩]⟩]⟩ := by decide +kernel
  exact ⟨_, ⟨⟨0, 9⟩, 4, .string, 0⟩, ⟨⟨0, 12⟩, 2, .value, 0⟩, hparse, by decide +kernel, by decide +kernel, rfl, by decide⟩

end FlowTree.Editor
