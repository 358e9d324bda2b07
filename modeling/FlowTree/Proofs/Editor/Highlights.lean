import FlowTree.Editor.Session
import FlowTree.Proofs.Assembly.Grammar
import FlowTree.Proofs.Editor.Ranges

/-!
Highlights as an editor reads them. They stand in the order of the lexemes that they show, each behind the one before it, so
the differences that are sent are those of natural numbers, and adding them up again gives the highlights.
-/

namespace FlowTree

/-- The lines of the text, and the columns of each, can be counted in 32 bits. -/
structure Text.Fits (t : Text) : Prop where
  lines : t.lines.length < UInt32.size
  columns : ∀ line ∈ t.lines, line.length < UInt32.size

instance (t : Text) : Decidable t.Fits :=
  decidable_of_iff (t.lines.length < UInt32.size ∧ ∀ line ∈ t.lines, line.length < UInt32.size)
    ⟨fun h => ⟨h.1, h.2⟩, fun h => ⟨h.1, h.2⟩⟩

namespace Editor
open Assembly

namespace Point

/-- The point of a place in a text. -/
def ofCursor (c : Cursor) : Point := ⟨wrap (c.line - 1), wrap (c.column - 1)⟩

/-- In a text that fits, points count lines and columns from zero. -/
theorem toNat_ofCursor {t : Text} {ls : List Lexeme} {x : Placed} (hfits : t.Fits) (hlexes : Lexes (closeLine t) ls)
    (hx : x ∈ placed {} ls) : (ofCursor x.start).line.toNat + 1 = x.start.line ∧
      (ofCursor x.start).character.toNat + 1 = x.start.column := by
  obtain ⟨hline, hcolumn⟩ := one_le_start hx
  obtain ⟨hlines, line, hmem, hcolumns⟩ := hlexes.start_le hx
  have := hfits.lines
  have := hfits.columns line hmem
  have hline' : ((ofCursor x.start).line.toNat : Int) = x.start.line - 1 := toNat_wrap (by omega) (by omega)
  have hcolumn' : ((ofCursor x.start).character.toNat : Int) = x.start.column - 1 := toNat_wrap (by omega) (by omega)
  omega

end Point

/-- The text of a token in the canonical form of a program. -/
def printed (kind : LexemeKind) (value : String) : String := if kind = .string then Text.quoteString value else value

/-- The highlight is that of the token. -/
structure Highlight.OfToken (token : Token) (h : Highlight) : Prop where
  start : h.start = .ofCursor token.start
  length : h.length = UInt32.ofNat (printed token.kind token.value).utf8ByteSize
  kind : h.kind = .string ↔ token.kind = .string

theorem exists_highlight {token : Token} {text : String} (htext : text = printed token.kind token.value) {kind : TokenKind}
    (hkind : kind = .string ↔ token.kind = .string) (modifiers : UInt32) :
    ∃ sub, sub.Sublist [token] ∧ List.Forall₂ Highlight.OfToken sub (highlight token.start text kind modifiers) := by
  subst htext
  unfold highlight
  split
  · exact ⟨[], by simp, .nil⟩
  · exact ⟨[token], .refl _, .cons ⟨rfl, rfl, hkind⟩ .nil⟩

theorem idKind_ne_string (p : Program) (id : String) : idKind p id ≠ .string := by
  intro h
  unfold idKind at h
  cases hnamed : p.statements.reverse.findSome? _ with
  | none =>
    rw [hnamed] at h
    cases h
  | some kind =>
    rw [hnamed] at h
    obtain ⟨s, -, hs⟩ := List.exists_of_findSome?_eq_some hnamed
    cases h
    grind

theorem argument_isString_iff {token : Token} {a : Argument} (h : ReadsArgument token a) :
    a.kind = .string ↔ token.kind = .string := by
  have hkind := h.kind
  obtain ⟨kind, value, start⟩ := a
  cases htoken : token.kind <;> simp_all [ArgumentKind.ofLexeme?] <;> simp [← hkind]

theorem argumentKind_eq_string_iff (p : Program) (a : Argument) : argumentKind p a = .string ↔ a.kind = .string := by
  unfold argumentKind
  cases a.kind <;> simp [idKind_ne_string]

theorem text_of_readsArgument {token : Token} {a : Argument} (h : ReadsArgument token a) :
    a.text = printed token.kind token.value := by
  simp only [Argument.text, printed, argument_isString_iff h, h.value]

theorem exists_highlights_of_readsArguments (p : Program) {ts : List Token} {arguments : List Argument}
    (h : List.Forall₂ ReadsArgument ts arguments) : ∃ sub, sub.Sublist ts ∧
      List.Forall₂ Highlight.OfToken sub (arguments.flatMap fun a => highlight a.start a.text (argumentKind p a) 0) := by
  induction h with
  | nil => exact ⟨[], .slnil, .nil⟩
  | @cons token a ts arguments hreads _ ih =>
    obtain ⟨first, hfirst, hof⟩ := exists_highlight (text_of_readsArgument hreads)
      ((argumentKind_eq_string_iff p a).trans (argument_isString_iff hreads)) 0
    obtain ⟨others, hothers, hall⟩ := ih
    rw [List.flatMap_cons, hreads.start]
    exact ⟨first ++ others, hfirst.append hothers, List.rel_append hof hall⟩

theorem exists_highlights_of_readsLine (p : Program) (line : List Token) (s : Statement) (h : ReadsLine line s) :
    ∃ sub, sub.Sublist line ∧ List.Forall₂ Highlight.OfToken sub (statementHighlights p s) := by
  have hplain : ∀ {token : Token} {kind : TokenKind}, token.kind ≠ .string → kind ≠ .string → ∀ modifiers, ∃ sub,
      sub.Sublist [token] ∧ List.Forall₂ Highlight.OfToken sub (highlight token.start token.value kind modifiers) :=
    fun htoken hkind => exists_highlight (by rw [printed, if_neg htoken]) (by simp [htoken, hkind])
  unfold statementHighlights
  cases h with
  | @plain opcode _ _ hword hreads =>
    have hopcode : opcode.kind ≠ .string := by simp [hword]
    obtain ⟨first, hfirst, hof⟩ := hplain hopcode (by simp : TokenKind.opcode ≠ .string) 0
    obtain ⟨others, hothers, hall⟩ := exists_highlights_of_readsArguments p hreads
    exact ⟨first ++ others, hfirst.append hothers, List.rel_append hof hall⟩
  | @result id sign opcode _ _ hid _ hword hreads =>
    have hresult : id.kind ≠ .string := by simp [hid]
    have hopcode : opcode.kind ≠ .string := by simp [hword]
    obtain ⟨result, hsub, hresultOf⟩ := hplain hresult (idKind_ne_string p id.value) declarationBit
    obtain ⟨first, hfirst, hof⟩ := hplain hopcode (by simp : TokenKind.opcode ≠ .string) 0
    obtain ⟨others, hothers, hall⟩ := exists_highlights_of_readsArguments p hreads
    refine ⟨result ++ first ++ others, ?_, List.rel_append (List.rel_append hresultOf hof) hall⟩
    rw [List.append_assoc]
    exact hsub.append ((hfirst.append hothers).cons sign)

/-- The highlight is that of the lexeme: its length is that of the lexeme as it is printed. -/
structure Highlight.Of (l : Lexeme) (h : Highlight) : Prop where
  kept : l.isKept = true
  length : ∃ value, Token.value? l = some value ∧ h.length = UInt32.ofNat (printed l.kind value).utf8ByteSize
  kind : h.kind = .string ↔ l.kind = .string

/-- The second highlight is on a later line, or on the same line and at least `n` columns further. -/
def Highlight.Clears (a : Highlight) (n : Nat) (b : Highlight) : Prop :=
  a.start.line.toNat < b.start.line.toNat ∨
    a.start.line.toNat = b.start.line.toNat ∧ a.start.character.toNat + n ≤ b.start.character.toNat

/-- A highlight starts behind the lexemes that the highlights before it are of. -/
theorem pairwise_highlights {t : Text} {p : Program} (h : Program.parse t = .ok p) (hfits : t.Fits) :
    ∃ ls, Lexes (closeLine t) ls ∧
      (highlights p).Pairwise fun a b => ∃ l ∈ ls, Highlight.Of l a ∧ a.Clears l.text.length b := by
  obtain ⟨ls, xs, hlexes, hxs, hall⟩ := exists_placed_of_parse (exists_highlights_of_readsLine p) h
  have hpairwise := ((pairwise_placed {} ls).sublist List.filter_sublist).sublist hxs
  refine ⟨ls, hlexes, pairwise_of_forall₂ hall hpairwise ?_⟩
  rintro x hx y hy a b ⟨token, hstands, hof⟩ ⟨token', hstands', hof'⟩ hclears
  obtain ⟨hx, hkept⟩ := List.mem_filter.mp (hxs.subset hx)
  obtain ⟨hy, -⟩ := List.mem_filter.mp (hxs.subset hy)
  have hmem : x.lexeme ∈ ls := map_placed {} ls ▸ List.mem_map_of_mem hx
  have hlength := hof.length
  have hkind := hof.kind
  rw [hstands.of.kind] at hlength hkind
  refine ⟨x.lexeme, hmem, ⟨hkept, ⟨_, hstands.of.value, hlength⟩, hkind⟩, ?_⟩
  obtain ⟨hline, hcolumn⟩ := Point.toNat_ofCursor hfits hlexes hx
  obtain ⟨hline', hcolumn'⟩ := Point.toNat_ofCursor hfits hlexes hy
  unfold Highlight.Clears
  unfold Cursor.Clears at hclears
  rw [hof.start, hof'.start, hstands.start, hstands'.start]
  omega

theorem sorted_highlights {t : Text} {p : Program} (h : Program.parse t = .ok p) (hfits : t.Fits) :
    (highlights p).Pairwise (·.start.before ·.start) := by
  obtain ⟨ls, hlexes, hpairwise⟩ := pairwise_highlights h hfits
  refine hpairwise.imp ?_
  rintro a b ⟨l, hl, -, hclears⟩
  have hpos := List.length_pos_of_ne_nil (hlexes.text_ne_nil l hl)
  unfold Highlight.Clears at hclears
  rw [Point.before_iff]
  omega

/-! ### Reading the numbers -/

/-- A highlight in an editor's terms. -/
structure Mark where
  line : Nat
  start : Nat
  length : Nat
  kind : TokenKind
  modifiers : Nat
  deriving DecidableEq

/-- The highlight in an editor's terms. -/
def Highlight.mark (h : Highlight) : Mark :=
  ⟨h.start.line.toNat, h.start.character.toNat, h.length.toNat, h.kind, h.modifiers.toNat⟩

/-- The marks that numbers stand for behind a mark at the given line and character: five numbers each, of which the first is
added to the line, and the second to the character unless the line changes. -/
def decodeMarks : (line character : Nat) → List Nat → Option (List Mark)
  | _, _, [] => some []
  | line, character, lines :: characters :: length :: code :: modifiers :: rest => do
    let start := if lines = 0 then character + characters else characters
    let (kind, _) ← TokenKind.legend[code]?
    let marks ← decodeMarks (line + lines) start rest
    some (⟨line + lines, start, length, kind, modifiers⟩ :: marks)
  | _, _, _ => none

theorem TokenKind.exists_legend_code (k : TokenKind) : ∃ name, legend[k.code.toNat]? = some (k, name) := by
  cases k <;> exact ⟨_, rfl⟩

/-- Where highlights are in order, the marks that their numbers stand for are theirs. -/
theorem decodeMarks_encodeHighlights {hs : List Highlight} (hsorted : hs.Pairwise (·.start.before ·.start)) (last : Point)
    (hlast : ∀ h ∈ hs, h.start.before last = false) :
    decodeMarks last.line.toNat last.character.toNat ((encodeHighlights last hs).map UInt32.toNat) =
      some (hs.map Highlight.mark) := by
  induction hs generalizing last with
  | nil => rfl
  | cons h hs ih =>
    obtain ⟨hfirst, hothers⟩ := List.pairwise_cons.mp hsorted
    have hrest : ∀ h' ∈ hs, h'.start.before h.start = false := fun h' hmem => by
      have := Point.before_iff.mp (hfirst h' hmem)
      rw [Bool.eq_false_iff, Ne, Point.before_iff]
      omega
    obtain ⟨hline, hcharacter⟩ := Point.toNat_sub (hlast h List.mem_cons_self)
    have hzero : (h.start.line - last.line).toNat = 0 ↔ h.start.line - last.line = 0 := by
      rw [← UInt32.toNat_inj, UInt32.toNat_zero]
    obtain ⟨name, hname⟩ := h.kind.exists_legend_code
    simp only [encodeHighlights, List.map_cons, decodeMarks, hname, hzero, hline]
    -- the second number is a difference only where the line stays, and there the character does not go back
    by_cases hsame : h.start.line - last.line = 0
    · simp only [if_pos hsame, hcharacter hsame, ih hothers _ hrest]
      rfl
    · simp only [if_neg hsame, ih hothers _ hrest]
      rfl

/-- The highlights of a text that fits stand one behind the other. What a session that has the document sends for them
reads as exactly these highlights. -/
theorem highlights_decode {t : Text} {p : Program} (h : Program.parse t = .ok p) (hfits : t.Fits) :
    (highlights p).Pairwise (·.start.before ·.start) ∧
    ∀ (disk : Text → Except FileError Text) (s : Session) (uri : String) (path : Text),
      s.document? uri = some (Document.analyze uri path t) →
      ∃ numbers, (s.handle disk (.highlights uri)).reply = .ok (.highlights numbers) ∧
        decodeMarks 0 0 (numbers.map UInt32.toNat) = some ((highlights p).map Highlight.mark) := by
  have hsorted := sorted_highlights h hfits
  refine ⟨hsorted, fun disk s uri path hdocument => ⟨encodeHighlights {} (highlights p), ?_, ?_⟩⟩
  · have hprogram : (Document.analyze uri path t).program? = some p := by simp [Document.analyze, h]
    simp [Session.handle, Session.answer, hdocument, hprogram]
  · refine decodeMarks_encodeHighlights hsorted {} fun a _ => ?_
    rw [Bool.eq_false_iff, Ne, Point.before_iff]
    simp

/-- A string over two lines with an id right behind it, characters of several bytes, and a comment. -/
def huddledSample : Text := Text.ofString "%s=OpString\"é\nb\"%t;ü\n  OpName %s \"x\""

/-- The numbers of the sample read as its words. -/
theorem highlights_decode_huddled : ∃ p, Program.parse huddledSample = .ok p ∧ huddledSample.Fits ∧
    ∃ numbers,
      (({ name := "", version := "", documents := [("a", Document.analyze "a" [] huddledSample)] } : Session).handle
      (fun _ => .error .missing) (.highlights "a")).reply = .ok (.highlights numbers) ∧
      decodeMarks 0 0 (numbers.map UInt32.toNat) = some [⟨0, 0, 2, .value, 1⟩, ⟨0, 3, 8, .opcode, 0⟩,
        ⟨0, 11, 7, .string, 0⟩,
        ⟨1, 2, 2, .value, 0⟩, ⟨2, 2, 6, .opcode, 0⟩, ⟨2, 9, 2, .value, 0⟩, ⟨2, 12, 3, .string, 0⟩] := by
  have hparse : Program.parse huddledSample = .ok ⟨[
      ⟨some ⟨"%s", ⟨1, 1, 0⟩⟩, ⟨"OpString", ⟨1, 4, 3⟩⟩, [⟨.string, "é\nb", ⟨1, 12, 11⟩⟩, ⟨.id, "%t", ⟨2, 3, 17⟩⟩]⟩,
      ⟨none, ⟨"OpName", ⟨3, 3, 25⟩⟩, [⟨.id, "%s", ⟨3, 10, 32⟩⟩, ⟨.string, "x", ⟨3, 13, 35⟩⟩]⟩]⟩ := by decide +kernel
  have hfits : huddledSample.Fits := by decide +kernel
  obtain ⟨numbers, hreply, hmarks⟩ := (highlights_decode hparse hfits).2 (fun _ => .error .missing)
    { name := "", version := "", documents := [("a", Document.analyze "a" [] huddledSample)] } "a" [] rfl
  exact ⟨_, hparse, hfits, numbers, hreply, hmarks.trans (by decide +kernel)⟩

end Editor
end FlowTree
