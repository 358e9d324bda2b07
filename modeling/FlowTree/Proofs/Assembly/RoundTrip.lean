import Mathlib.Data.List.ReduceOption
import FlowTree.Proofs.Assembly.Grammar
import FlowTree.Proofs.Text.Quoting

/-!
Programs printed and read back. Every piece of a printed statement is again a lexeme of its kind, because what a rule took
from the text of the program it takes also in front of the blank or the line feed that the printer puts there. So a printed
program reads as the tokens it was printed from, and as the same program but for the places.
-/

namespace FlowTree.Assembly

def Word.unplaced (w : Word) : Word := { w with start := {} }

def Argument.unplaced (a : Argument) : Argument := { a with start := {} }

def Statement.unplaced (s : Statement) : Statement :=
  ⟨s.result?.map Word.unplaced, s.opcode.unplaced, s.arguments.map Argument.unplaced⟩

/-- The program with every place forgotten. -/
def Program.unplaced (p : Program) : Program := ⟨p.statements.map Statement.unplaced⟩

@[simp] theorem Argument.text_unplaced (a : Argument) : a.unplaced.text = a.text := rfl

@[simp] theorem Statement.text_unplaced (s : Statement) : s.unplaced.text = s.text := by
  have harguments : (s.arguments.map Argument.unplaced).map (fun a => " " ++ a.text) =
      s.arguments.map fun a => " " ++ a.text := by
    rw [List.map_map]
    rfl
  cases hresult : s.result? <;> simp only [unplaced, text, hresult, harguments] <;> rfl

/-- The places do not show in print. -/
theorem Program.text_unplaced (p : Program) : p.unplaced.text = p.text := by
  unfold Program.text Program.unplaced
  rw [List.map_map]
  congr 2
  funext s
  simp only [Function.comp_apply, Statement.text_unplaced]
  rfl

/-! ### Pieces without quotes -/

/-- The kinds of lexeme that a statement is printed with as they are. -/
def LexemeKind.bare : List LexemeKind := [.id, .float, .integer, .word]

theorem LexemeKind.of_bare : ∀ kind ∈ bare, kind ≠ .string ∧ Token.isSkipped kind = false := by
  decide

/-- The string is a lexeme of the kind in front of every blank and every line feed. -/
def Spells (kind : LexemeKind) (s : String) : Prop :=
  ∀ c ∈ [' ', '\n'], ∀ u, first? (s.toList ++ c :: u) = some (kind, c :: u)

theorem findSome?_map_eq_some_iff {α β : Type} [DecidableEq α] {f : α → Option β} {xs : List α} {x : α} {y : β} :
    (xs.findSome? fun x => (f x).map (x, ·)) = some (x, y) ↔
      x ∈ xs ∧ f x = some y ∧ ∀ z ∈ xs.takeWhile (· ≠ x), f z = none := by
  induction xs with
  | nil => simp
  | cons z xs ih =>
    rw [findSome?_cons_or, List.takeWhile_cons]
    by_cases hz : z = x
    · subst hz
      cases hf : f z with
      | none => simpa [hf] using ih
      | some y' => simp
    · cases hf : f z <;> simp [hf, hz, Ne.symm hz, ih]

theorem first?_eq_some_iff {cs rest : List Char} {kind : LexemeKind} : first? cs = some (kind, rest) ↔
    kind.pattern.left? cs = some rest ∧ ∀ k ∈ LexemeKind.inOrder.takeWhile (· ≠ kind), k.pattern.left? cs = none := by
  rw [first?, findSome?_map_eq_some_iff, and_iff_right]
  cases kind <;> decide

theorem chars_ofChars (cs : List Char) : chars (Text.ofChars cs) = cs := by
  simp [chars, Text.ofChars, Function.comp_def, Glyph.toChar]

/-- Comments and strings are known by their first character. -/
theorem bare_first {c : Char} {cs rest : List Char} {kind : LexemeKind} (hkind : kind ∈ LexemeKind.bare)
    (h : first? (c :: cs) = some (kind, rest)) : c ≠ ';' ∧ c ≠ '"' ∧ isBlank c = false := by
  have hfound : (lexeme? (.char c) (Text.ofChars cs)).map (·.1) = some kind := by
    have := h
    rw [← chars_ofChars (c :: cs), Text.ofChars, List.map_cons, ← Text.ofChars, first?_eq_lexeme?] at this
    simpa [Function.comp_def] using congrArg (Option.map (·.1)) this
  simp only [lexeme?, Glyph.toChar] at hfound
  refine ⟨?_, ?_, ?_⟩
  · rintro rfl
    cases hfound
    simp [LexemeKind.bare] at hkind
  · rintro rfl
    cases hrest : stringRest? (Text.ofChars cs) <;> simp [hrest] at hfound
    subst hfound
    simp [LexemeKind.bare] at hkind
  · by_contra hblank
    simp only [Bool.not_eq_false, isBlank, Bool.or_eq_true, decide_eq_true_eq] at hblank
    rcases hblank with (rfl | rfl) | rfl <;> simp [isSign, isWordStart, isLetter, isBlank] at hfound <;> subst hfound <;>
      simp [LexemeKind.bare] at hkind

theorem exists_cons_of_first? {cs rest : List Char} {kind : LexemeKind} (h : first? (cs ++ rest) = some (kind, rest)) :
    ∃ c tail, cs = c :: tail := by
  cases cs with
  | nil => exact absurd (length_lt_of_first? h) (Nat.lt_irrefl _)
  | cons c tail => exact ⟨c, tail, rfl⟩

/-- What a rule took once it takes in front of every blank and every line feed. -/
theorem spells_of_first? {cs rest : List Char} {kind : LexemeKind} (hkind : kind ∈ LexemeKind.bare)
    (h : first? (cs ++ rest) = some (kind, rest)) : Spells kind (String.ofList cs) := by
  intro c hc u
  obtain ⟨hleft, hearlier⟩ := first?_eq_some_iff.mp h
  have hrefuses : ∀ k ∈ LexemeKind.bare, k.pattern.Refuses c := by
    rcases List.mem_pair.mp hc with rfl | rfl <;> decide
  have horder : ∀ kind ∈ LexemeKind.bare, ∀ k ∈ LexemeKind.inOrder.takeWhile (· ≠ kind),
      k = .comment ∨ k = .string ∨ k ∈ LexemeKind.bare := by decide
  rw [String.toList_ofList, first?_eq_some_iff]
  refine ⟨Pattern.left?_append hleft (hrefuses kind hkind), fun k hk => ?_⟩
  obtain ⟨d, tail, rfl⟩ := exists_cons_of_first? h
  obtain ⟨hcomment, hquote, -⟩ := bare_first hkind h
  rcases horder kind hkind k hk with rfl | rfl | hbare
  · rw [LexemeKind.pattern, Pattern.char, List.cons_append, Pattern.left?_seq_one_cons, if_neg (by simpa using hcomment)]
  · rw [LexemeKind.pattern, Pattern.char, List.cons_append, Pattern.left?_seq_one_cons, if_neg (by simpa using hquote)]
  · exact Pattern.left?_append_none (hearlier k hk) (hrefuses k hbare)

theorem Lexes.spells {t : Text} {ls : List Lexeme} (h : Lexes t ls) :
    ∀ l ∈ ls, l.kind ∈ LexemeKind.bare → Spells l.kind l.text.shown := by
  induction h with
  | nil => simp
  | cons first _ ih =>
    refine List.forall_mem_cons.mpr ⟨fun hkind => ?_, ih⟩
    rw [chars_append] at first
    exact spells_of_first? hkind first

/-- The kind of lexeme that an operand is. -/
def ArgumentKind.lexeme : ArgumentKind → LexemeKind
  | .id => .id
  | .float => .float
  | .integer => .integer
  | .string => .string
  | .word => .word

theorem ArgumentKind.ofLexeme?_eq_some_iff {kind : LexemeKind} {k : ArgumentKind} :
    ofLexeme? kind = some k ↔ k.lexeme = kind := by
  cases kind <;> cases k <;> decide

/-- Every piece of the statement that is printed as it is reads as what it is. -/
structure Statement.Spelled (s : Statement) : Prop where
  result : ∀ w ∈ s.result?, Spells .id w.text
  opcode : Spells .word s.opcode.text
  arguments : ∀ a ∈ s.arguments, a.kind ≠ .string → Spells a.kind.lexeme a.value

theorem ReadsLine.spelled {ts : List Token} {s : Statement} (h : ReadsLine ts s)
    (hspells : ∀ t ∈ ts, t.kind ∈ LexemeKind.bare → Spells t.kind t.value) : s.Spelled := by
  have harguments : ∀ {tokens : List Token} {arguments : List Argument}, List.Forall₂ ReadsArgument tokens arguments →
      (∀ t ∈ tokens, t ∈ ts) → ∀ a ∈ arguments, a.kind ≠ .string → Spells a.kind.lexeme a.value := by
    intro tokens arguments hreads hmem a ha hstring
    obtain ⟨t, ht, hkind, hvalue, -⟩ := exists_of_mem_right hreads ha
    rw [ArgumentKind.ofLexeme?_eq_some_iff.mp hkind, hvalue]
    refine hspells t (hmem t ht) ?_
    rw [← ArgumentKind.ofLexeme?_eq_some_iff.mp hkind]
    cases hk : a.kind <;> simp [hk, ArgumentKind.lexeme, LexemeKind.bare] at hstring ⊢
  cases h with
  | @plain opcode tokens _ hword hreads =>
    have hopcode := hspells opcode (by simp) (by simp [hword, LexemeKind.bare])
    exact ⟨by simp, hword ▸ hopcode, harguments hreads fun t ht => by simp [ht]⟩
  | @result id sign opcode tokens _ hid hsign hword hreads =>
    have hresult := hspells id (by simp) (by simp [hid, LexemeKind.bare])
    have hopcode := hspells opcode (by simp) (by simp [hword, LexemeKind.bare])
    refine ⟨?_, hword ▸ hopcode, harguments hreads fun t ht => by simp [ht]⟩
    rintro w ⟨⟩
    exact hid ▸ hresult

theorem spelled_of_parse {t : Text} {p : Program} (h : Program.parse t = .ok p) : ∀ s ∈ p.statements, s.Spelled := by
  obtain ⟨ls, ts, hlexes, hts, hss⟩ := parse_eq_ok_iff.mp h
  have hspells : ∀ t ∈ ts, t.kind ∈ LexemeKind.bare → Spells t.kind t.value := by
    intro t ht hbare
    obtain ⟨l, hl, hkind, hvalue⟩ := exists_of_mem_right (Token.of_ofLexemes hts).2.2 ht
    rw [hkind] at hbare ⊢
    rw [Token.value?, if_neg (LexemeKind.of_bare _ hbare).1, Option.some.injEq] at hvalue
    exact hvalue ▸ hlexes.spells l (List.mem_of_mem_filter hl) hbare
  intro s hs
  obtain ⟨line, hline, hreads⟩ := exists_of_mem_right (readStatements_eq_ok_iff.mp hss) hs
  exact hreads.spelled fun t ht => hspells t (mem_of_mem_splitOnP (List.mem_of_mem_filter hline) t ht)

/-! ### Tokens of printed text -/

/-- What a token is apart from its place. -/
def Token.face (t : Token) : LexemeKind × String := (t.kind, t.value)

/-- The text reads as tokens of the given kinds and values. -/
inductive Shows : Text → List (LexemeKind × String) → Prop
  | nil : Shows [] []
  | skip (kind : LexemeKind) {w rest : Text} {fs : List (LexemeKind × String)}
    (first : first? (chars (w ++ rest)) = some (kind, chars rest)) (skipped : Token.isSkipped kind = true)
    (others : Shows rest fs) : Shows (w ++ rest) fs
  | keep {kind : LexemeKind} {value : String} {w rest : Text} {fs : List (LexemeKind × String)}
    (first : first? (chars (w ++ rest)) = some (kind, chars rest)) (kept : Token.isSkipped kind = false)
    (valued : Token.value? ⟨kind, w⟩ = some value) (others : Shows rest fs) : Shows (w ++ rest) ((kind, value) :: fs)

theorem Shows.exists_tokens {t : Text} {fs : List (LexemeKind × String)} (h : Shows t fs) (c : Cursor) :
    ∃ ls ts, Lexes t ls ∧ Token.ofLexemes [] c ls = .ok ts ∧ ts.map Token.face = fs := by
  induction h generalizing c with
  | nil => exact ⟨[], [], .nil, rfl, rfl⟩
  | @skip kind w rest fs first skipped _ ih =>
    obtain ⟨ls, ts, hlexes, hts, hfaces⟩ := ih (c.after w)
    refine ⟨⟨kind, w⟩ :: ls, ts, .cons first hlexes, ?_, hfaces⟩
    have hvalue : Token.value? ⟨kind, w⟩ = some (Text.shown w) := by
      rw [Token.value?, if_neg]
      rintro rfl
      cases skipped
    rw [Token.ofLexemes, hvalue]
    exact Except.bind_eq_ok_iff.mpr ⟨ts, hts, by rw [if_pos skipped]⟩
  | @keep kind value w rest fs first kept hvalue _ ih =>
    obtain ⟨ls, ts, hlexes, hts, hfaces⟩ := ih (c.after w)
    refine ⟨⟨kind, w⟩ :: ls, ⟨kind, value, c⟩ :: ts, .cons first hlexes, ?_, by rw [List.map_cons, hfaces, Token.face]⟩
    rw [Token.ofLexemes, hvalue]
    exact Except.bind_eq_ok_iff.mpr ⟨ts, hts, by rw [if_neg (by simp [kept])]⟩

section
variable {t : Text} {fs : List (LexemeKind × String)}

@[simp] theorem ofString_append (a b : String) : Text.ofString (a ++ b) = Text.ofString a ++ Text.ofString b := by
  simp [Text.ofString]

@[simp] theorem chars_ofString (s : String) : chars (Text.ofString s) = s.toList := by
  simp [chars, Text.ofString, Function.comp_def, Glyph.toChar]

/-- The text starts with a blank or a line feed. -/
def Breaks (t : Text) : Prop := ∃ c ∈ [' ', '\n'], ∃ rest, t = .char c :: rest

theorem Shows.bare {kind : LexemeKind} {s : String} (hkind : kind ∈ LexemeKind.bare) (hs : Spells kind s) (ht : Breaks t)
    (h : Shows t fs) : Shows (Text.ofString s ++ t) ((kind, s) :: fs) := by
  obtain ⟨c, hc, rest, rfl⟩ := ht
  obtain ⟨hstring, hkept⟩ := LexemeKind.of_bare kind hkind
  refine .keep ?_ hkept ?_ h
  · rw [chars_append, chars_ofString]
    exact hs c hc _
  · rw [Token.value?, if_neg hstring]
    exact congrArg some ((congrArg String.ofList (chars_ofString s)).trans String.ofList_toList)

theorem first?_newline : first? (chars (.char '\n' :: t)) = some (.newline, chars t) := by
  rw [first?_eq_lexeme?]
  simp [lexeme?, Glyph.toChar, isSign, isWordStart, isLetter]

theorem first?_blank {g : Glyph} (h : isBlank g.toChar = true) :
    first? (chars (g :: t)) = some (.blank, (chars t).dropWhile isBlank) := by
  have hlexeme : lexeme? g t = some (.blank, run isBlank t) := by
    have hchar := h
    simp only [isBlank, Bool.or_eq_true, decide_eq_true_eq] at hchar
    unfold lexeme?
    rcases hchar with (hchar | hchar) | hchar <;> rw [hchar] <;> rfl
  rw [first?_eq_lexeme?, hlexeme, Option.map_some, chars_drop_run]

theorem Shows.sign (h : Shows t fs) : Shows (.char '=' :: t) ((.equals, "=") :: fs) :=
  .keep (w := [.char '=']) (first?_equals rfl) rfl rfl h

theorem Shows.newline (h : Shows t fs) : Shows (.char '\n' :: t) ((.newline, "\n") :: fs) :=
  .keep (w := [.char '\n']) first?_newline rfl rfl h

theorem Shows.string (s : String) (h : Shows t fs) :
    Shows (Text.ofString (Text.quoteString s) ++ t) ((.string, s) :: fs) := by
  have hquoted : Text.ofString (Text.quoteString s) =
      .char '"' :: (Text.ofChars (s.toList.flatMap (Text.quoteChar '"')) ++ [.char '"']) := by
    simp [Text.quoteString, Text.quote, Text.ofString, Text.ofChars, List.flatMap_map, Text.quoteGlyph]
  have hrest : stringRest? (Text.ofChars (s.toList.flatMap (Text.quoteChar '"')) ++ [.char '"'] ++ t) =
      some ((s.toList.flatMap (Text.quoteChar '"')).length + 1) := by
    rw [List.append_assoc]
    exact Text.stringRest?_quoted _ _
  rw [hquoted]
  refine .keep ?_ rfl ?_ h
  · have hlexeme : ∀ u, lexeme? (.char '"') u = (stringRest? u).map (LexemeKind.string, ·) := fun u => rfl
    rw [List.cons_append, first?_eq_lexeme?, hlexeme, hrest, Option.map_some, Option.map_some,
      List.drop_left' (by simp [Text.ofChars])]
  · rw [Token.value?, if_pos rfl, Token.inner, List.drop_one, List.tail_cons, List.dropLast_concat, Text.unquote?_quoted,
      Option.map_some, String.ofList_toList]

/-- Blanks in front of what does not start with one. -/
theorem Shows.indent {w : Text} (hw : ∀ g ∈ w, isBlank g.toChar = true) (ht : (chars t).head?.any isBlank = false)
    (h : Shows t fs) : Shows (w ++ t) fs := by
  cases w with
  | nil => exact h
  | cons g w =>
    obtain ⟨hg, hw⟩ := List.forall_mem_cons.mp hw
    have hblanks : ∀ c ∈ chars w, isBlank c = true := List.forall_mem_map.mpr hw
    refine .skip .blank ?_ rfl h
    rw [List.cons_append, first?_blank hg, chars_append, List.dropWhile_append_of_pos hblanks]
    cases t with
    | nil => rfl
    | cons d t => rw [chars_cons, List.dropWhile_cons_of_neg (by simpa using ht)]

theorem Spells.exists_cons {kind : LexemeKind} {s : String} (hkind : kind ∈ LexemeKind.bare) (hs : Spells kind s) :
    ∃ c cs, s.toList = c :: cs ∧ isBlank c = false := by
  have hfirst := hs ' ' (by simp) []
  obtain ⟨c, cs, hcs⟩ := exists_cons_of_first? hfirst
  rw [hcs, List.cons_append] at hfirst
  exact ⟨c, cs, hcs, (bare_first hkind hfirst).2.2⟩

def Argument.face (a : Argument) : LexemeKind × String := (a.kind.lexeme, a.value)

theorem Shows.argument {a : Argument} (ha : a.kind ≠ .string → Spells a.kind.lexeme a.value) (ht : Breaks t)
    (h : Shows t fs) : Shows (Text.ofString (" " ++ a.text) ++ t) (a.face :: fs) := by
  rw [ofString_append, List.append_assoc]
  have hblank : ∀ g ∈ Text.ofString " ", isBlank g.toChar = true := by decide
  by_cases hstring : a.kind = .string
  · have hface : a.face = (.string, a.value) := by rw [Argument.face, hstring]; rfl
    rw [hface, Argument.text, if_pos hstring]
    exact .indent hblank (by simp [Text.quoteString, Text.quote, isBlank]) (.string a.value h)
  · have hbare : a.kind.lexeme ∈ LexemeKind.bare := by
      cases hk : a.kind <;> simp [hk, ArgumentKind.lexeme, LexemeKind.bare] at hstring ⊢
    obtain ⟨c, cs, hcs, hc⟩ := (ha hstring).exists_cons hbare
    rw [Argument.text, if_neg hstring]
    exact .indent hblank (by simp [hcs, hc]) (.bare hbare (ha hstring) ht h)

theorem Shows.arguments {as : List Argument} (has : ∀ a ∈ as, a.kind ≠ .string → Spells a.kind.lexeme a.value)
    (ht : Breaks t) (h : Shows t fs) :
    Breaks (Text.ofString (String.join (as.map fun a => " " ++ a.text)) ++ t) ∧
      Shows (Text.ofString (String.join (as.map fun a => " " ++ a.text)) ++ t) (as.map Argument.face ++ fs) := by
  induction as with
  | nil => exact ⟨ht, h⟩
  | cons a as ih =>
    obtain ⟨ha, has⟩ := List.forall_mem_cons.mp has
    obtain ⟨hbreaks, hshows⟩ := ih has
    rw [List.map_cons, String.join_cons, ofString_append, List.append_assoc]
    refine ⟨?_, .argument ha hbreaks hshows⟩
    rw [ofString_append, List.append_assoc]
    exact ⟨' ', by simp, _, rfl⟩

/-- What the tokens of the statement's line are. -/
def Statement.faces (s : Statement) : List (LexemeKind × String) :=
  (match s.result? with
    | some w => [(.id, w.text), (.equals, "=")]
    | none => []) ++ (.word, s.opcode.text) :: s.arguments.map Argument.face

/-- The statement in text without its result. -/
def Statement.body (s : Statement) : String := s.opcode.text ++ String.join (s.arguments.map fun a => " " ++ a.text)

theorem Shows.body {s : Statement} (hs : s.Spelled) (h : Shows t fs) (ht : Breaks t) :
    Shows (Text.ofString s.body ++ t) ((.word, s.opcode.text) :: s.arguments.map Argument.face ++ fs) := by
  obtain ⟨hbreaks, harguments⟩ := Shows.arguments hs.arguments ht h
  rw [Statement.body, ofString_append, List.append_assoc]
  exact .bare (by simp [LexemeKind.bare]) hs.opcode hbreaks harguments

/-- A statement behind blanks reads as the tokens of the statement. -/
theorem Shows.statement {s : Statement} {indent : String} (hindent : ∀ c ∈ indent.toList, isBlank c = true)
    (hs : s.Spelled) (ht : Breaks t) (h : Shows t fs) : Shows (Text.ofString (indent ++ s.text) ++ t) (s.faces ++ fs) := by
  have hbody := h.body hs ht
  have hblanks : ∀ g ∈ Text.ofString indent, isBlank g.toChar = true := List.forall_mem_map.mpr hindent
  have hblank : ∀ g ∈ Text.ofString " ", isBlank g.toChar = true := by decide
  have hopcode : (chars (Text.ofString s.body ++ t)).head?.any isBlank = false := by
    obtain ⟨c, cs, hcs, hc⟩ := hs.opcode.exists_cons (by simp [LexemeKind.bare])
    simp [Statement.body, hcs, hc]
  rw [ofString_append, List.append_assoc]
  cases hresult : s.result? with
  | none =>
    have htext : s.text = s.body := by simp [Statement.text, Statement.body, hresult]
    rw [htext, Statement.faces, hresult]
    exact .indent hblanks hopcode hbody
  | some w =>
    have hspells := hs.result w hresult
    obtain ⟨d, ds, hds, hd⟩ := hspells.exists_cons (by simp [LexemeKind.bare])
    have htext : Text.ofString s.text ++ t = Text.ofString w.text ++
        (Text.ofString " " ++ (.char '=' :: (Text.ofString " " ++ (Text.ofString s.body ++ t)))) := by
      simp only [Statement.text, Statement.body, hresult, ofString_append, List.append_assoc]
      rfl
    rw [htext, Statement.faces, hresult]
    refine .indent hblanks (by simp [hds, hd]) (.bare (by simp [LexemeKind.bare]) hspells ⟨' ', by simp, _, rfl⟩ ?_)
    exact .indent hblank (by simp [Glyph.toChar, isBlank]) (.sign (.indent hblank hopcode hbody))

/-! ### Reading back -/

/-- How a line is printed: without a statement it is empty or a comment, and a statement stands behind blanks. -/
inductive Prints : String → Option Statement → Prop
  | empty : Prints "" none
  | comment {s : String} (inLine : ∀ c ∈ s.toList, c ≠ '\n') : Prints (";" ++ s) none
  | statement {indent : String} {s : Statement} (blank : ∀ c ∈ indent.toList, isBlank c = true) (spelled : s.Spelled) :
    Prints (indent ++ s.text) (some s)

/-- What the tokens of a line are. -/
def lineFaces (s? : Option Statement) : List (LexemeKind × String) :=
  (s?.elim [] Statement.faces) ++ [(.newline, "\n")]

/-- The text of lines. -/
def unlines (lines : List String) : Text := Text.ofString (String.join (lines.map (· ++ "\n")))

theorem unlines_cons (line : String) (lines : List String) :
    unlines (line :: lines) = Text.ofString line ++ .char '\n' :: unlines lines := by
  rw [unlines, List.map_cons, String.join_cons, ofString_append, ofString_append, List.append_assoc]
  rfl

theorem Shows.comment {s : String} (hs : ∀ c ∈ s.toList, c ≠ '\n') (h : Shows (.char '\n' :: t) fs) :
    Shows (Text.ofString (";" ++ s) ++ .char '\n' :: t) fs := by
  refine .skip .comment ?_ rfl h
  have hlexeme : ∀ u, lexeme? (.char ';') u = some (.comment, run (· ≠ '\n') u) := fun u => rfl
  rw [ofString_append, List.append_assoc, show Text.ofString ";" = [.char ';'] from rfl, List.singleton_append,
    first?_eq_lexeme?, hlexeme, Option.map_some, chars_drop_run, chars_append, chars_ofString,
    List.dropWhile_append_of_pos (by simpa using hs)]
  rfl

theorem Shows.prints {line : String} {s? : Option Statement} (hline : Prints line s?) (h : Shows t fs) :
    Shows (Text.ofString line ++ .char '\n' :: t) (lineFaces s? ++ fs) := by
  cases hline with
  | empty => exact h.newline
  | comment hs => exact .comment hs h.newline
  | statement hindent hs =>
    rw [lineFaces, List.append_assoc]
    exact .statement hindent hs ⟨'\n', by simp, t, rfl⟩ h.newline

end

theorem shows_unlines {lines : List String} {ss : List (Option Statement)} (h : List.Forall₂ Prints lines ss) :
    Shows (unlines lines) (ss.flatMap lineFaces) := by
  induction h with
  | nil => exact .nil
  | cons hline _ ih =>
    rw [unlines_cons, List.flatMap_cons]
    exact .prints hline ih

theorem endsLine_unlines {lines : List String} (h : lines ≠ []) : (unlines lines).endsLine = true := by
  obtain ⟨earlier, last, rfl⟩ := (List.eq_nil_or_concat lines).resolve_left h
  simp [unlines, Text.ofString, Text.endsLine]

theorem exists_readsArguments_of_faces {ts : List Token} {as : List Argument}
    (h : ts.map Token.face = as.map Argument.face) :
    ∃ bs, List.Forall₂ ReadsArgument ts bs ∧ bs.map Argument.unplaced = as.map Argument.unplaced := by
  induction as generalizing ts with
  | nil =>
    rw [List.map_eq_nil_iff.mp h]
    exact ⟨[], .nil, rfl⟩
  | cons a as ih =>
    obtain ⟨t, ts, rfl, hface, hfaces⟩ := List.map_eq_cons_iff.mp h
    obtain ⟨hkind, hvalue⟩ := Prod.mk.inj hface
    obtain ⟨bs, hreads, hbs⟩ := ih hfaces
    refine ⟨⟨a.kind, t.value, t.start⟩ :: bs,
      .cons ⟨ArgumentKind.ofLexeme?_eq_some_iff.mpr hkind.symm, rfl, rfl⟩ hreads, ?_⟩
    rw [List.map_cons, List.map_cons, hbs, hvalue]
    rfl

theorem exists_readsLine_of_faces {ts : List Token} {s : Statement} (h : ts.map Token.face = s.faces) :
    ∃ s', ReadsLine ts s' ∧ s'.unplaced = s.unplaced := by
  obtain ⟨result?, opcode, arguments⟩ := s
  cases result? with
  | none =>
    obtain ⟨t, ts, rfl, hopcode, hfaces⟩ := List.map_eq_cons_iff.mp h
    obtain ⟨hkind, hvalue⟩ := Prod.mk.inj hopcode
    obtain ⟨bs, hreads, hbs⟩ := exists_readsArguments_of_faces hfaces
    exact ⟨_, .plain hkind hreads, by simp [Statement.unplaced, Word.unplaced, hbs, hvalue]⟩
  | some w =>
    obtain ⟨id, _, rfl, hid, h⟩ := List.map_eq_cons_iff.mp h
    obtain ⟨sign, _, rfl, hsign, h⟩ := List.map_eq_cons_iff.mp h
    obtain ⟨t, ts, rfl, hopcode, hfaces⟩ := List.map_eq_cons_iff.mp h
    obtain ⟨hidKind, hidValue⟩ := Prod.mk.inj hid
    obtain ⟨hkind, hvalue⟩ := Prod.mk.inj hopcode
    obtain ⟨bs, hreads, hbs⟩ := exists_readsArguments_of_faces hfaces
    exact ⟨_, .result hidKind (Prod.mk.inj hsign).2 hkind hreads,
      by simp [Statement.unplaced, Word.unplaced, hbs, hvalue, hidValue]⟩

theorem Statement.ne_newline_of_mem_faces {s : Statement} : ∀ f ∈ s.faces, f.1 ≠ .newline := by
  have harguments : ∀ a ∈ s.arguments, a.face.1 ≠ .newline := by
    intro a _
    show a.kind.lexeme ≠ .newline
    cases a.kind <;> decide
  cases hresult : s.result? <;> simpa [Statement.faces, hresult] using harguments

theorem exists_readStatements_of_faces {ts : List Token} {ss : List (Option Statement)}
    (h : ts.map Token.face = ss.flatMap lineFaces) :
    ∃ ss', readStatements ts = .ok ss' ∧ ss'.map Statement.unplaced = ss.reduceOption.map Statement.unplaced := by
  induction ss generalizing ts with
  | nil =>
    rw [List.map_eq_nil_iff.mp h]
    exact ⟨[], by rw [readStatements], rfl⟩
  | cons s? ss ih =>
    rw [List.flatMap_cons, lineFaces, List.append_assoc] at h
    obtain ⟨line, after, rfl, hline, hafter⟩ := List.map_eq_append_iff.mp h
    obtain ⟨stop, rest, rfl, hstop, hrest⟩ := List.map_eq_cons_iff.mp hafter
    obtain ⟨ss', hss', hunplaced⟩ := ih hrest
    have hends : Token.endsLine stop = true := by simpa [Token.endsLine] using (Prod.mk.inj hstop).1
    simp only [readStatements_eq_ok_iff] at hss' ⊢
    cases s? with
    | none =>
      rw [List.map_eq_nil_iff.mp hline]
      exact ⟨ss', by simpa [List.splitOnP_cons_eq_if_modifyHead, hends] using hss', hunplaced⟩
    | some s =>
      have hline : line.map Token.face = s.faces := hline
      obtain ⟨s', hreads, hs'⟩ := exists_readsLine_of_faces hline
      have hinLine : ∀ t ∈ line, Token.endsLine t = false := by
        intro t ht
        have hface : t.face ∈ s.faces := hline ▸ List.mem_map_of_mem ht
        have hkind : t.kind ≠ .newline := Statement.ne_newline_of_mem_faces _ hface
        simpa [Token.endsLine] using hkind
      have hne : line ≠ [] := by cases hreads <;> simp
      refine ⟨s' :: ss', ?_, ?_⟩
      · rw [List.splitOnP_append_cons_of_forall_mem hinLine _ hends, List.filter_cons_of_pos (by simpa using hne)]
        exact .cons hreads hss'
      · rw [List.map_cons, hs', hunplaced, List.reduceOption_cons_of_some, List.map_cons]

/-- Printed lines read as the program that was printed, but for the places. -/
theorem exists_parse_of_prints {t : Text} {lines : List String} {ss : List (Option Statement)}
    (ht : closeLine t = unlines lines) (h : List.Forall₂ Prints lines ss) :
    ∃ q, Program.parse t = .ok q ∧ q.unplaced = Program.unplaced ⟨ss.reduceOption⟩ := by
  obtain ⟨ls, ts, hlexes, hts, hfaces⟩ := (shows_unlines h).exists_tokens {}
  obtain ⟨ss', hss', hunplaced⟩ := exists_readStatements_of_faces hfaces
  refine ⟨⟨ss'⟩, parse_eq_ok_iff.mpr ⟨ls, ts, ht ▸ hlexes, hts, hss'⟩, ?_⟩
  rw [Program.unplaced, Program.unplaced, hunplaced]

theorem isBlank_of_mem_indent : ∀ c ∈ "  ".toList, isBlank c = true := List.all_eq_true.mp (by decide)

/-- The lines of a program in its canonical form. -/
def Program.lines (p : Program) : List String := p.statements.map fun s => (if s.isFlush then "" else "  ") ++ s.text

theorem Program.ofString_text (p : Program) : Text.ofString p.text = unlines p.lines := by
  simp [Program.text, unlines, lines, Function.comp_def]

theorem Program.prints_lines {p : Program} (h : ∀ s ∈ p.statements, s.Spelled) :
    List.Forall₂ Prints p.lines (p.statements.map some) := by
  rw [lines, List.forall₂_map_left_iff, List.forall₂_map_right_iff, List.forall₂_same]
  intro s hs
  refine .statement ?_ (h s hs)
  split
  · simp
  · exact isBlank_of_mem_indent

/-- A program that was read from a text is read again from its canonical form: the statements are the same but for their
places, and so the canonical form of what is read is the text it was read from. -/
theorem parse_text {t : Text} {p : Program} (h : Program.parse t = .ok p) :
    ∃ q, Program.parse (Text.ofString p.text) = .ok q ∧ q.unplaced = p.unplaced ∧ q.text = p.text := by
  have hprints := Program.prints_lines (spelled_of_parse h)
  suffices ∃ q, Program.parse (Text.ofString p.text) = .ok q ∧ q.unplaced = p.unplaced by
    obtain ⟨q, hq, hunplaced⟩ := this
    exact ⟨q, hq, hunplaced, by rw [← q.text_unplaced, hunplaced, p.text_unplaced]⟩
  rw [Program.ofString_text]
  by_cases hempty : p.lines = []
  · -- Nothing is printed, and the line feed that closes the text is an empty line.
    have hnone : p.statements = [] := List.map_eq_nil_iff.mp hempty
    have hclosed : closeLine (unlines p.lines) = unlines [""] := by rw [hempty]; rfl
    obtain ⟨q, hq, hunplaced⟩ := exists_parse_of_prints hclosed (.cons .empty .nil)
    exact ⟨q, hq, hunplaced.trans (by rw [Program.unplaced, Program.unplaced, hnone]; rfl)⟩
  · have hclosed : closeLine (unlines p.lines) = unlines p.lines := by rw [closeLine, if_pos (endsLine_unlines hempty)]
    obtain ⟨q, hq, hunplaced⟩ := exists_parse_of_prints hclosed hprints
    exact ⟨q, hq, by simpa [List.reduceOption] using hunplaced⟩

/-- Numbers with words right behind them, a string over two lines with escapes, and a comment. -/
def crowdedSample : Text := Text.ofString "%s=OpString\"a\n\\x41\\u00e9\\\\\"0x1Fg|h ; c\n\nOpName %s+1.5e3x -7"

/-- The sample is read, printed one statement a line with single blanks, and read again. -/
theorem parse_text_crowded : ∃ p, Program.parse crowdedSample = .ok p ∧
    p.text = "  %s = OpString \"a\\nAé\\\\\" 0x1F g|h\n  OpName %s +1.5e3 x -7\n" ∧
    ∃ q, Program.parse (Text.ofString p.text) = .ok q ∧ q.unplaced = p.unplaced ∧ q.text = p.text := by
  have hparse : Program.parse crowdedSample = .ok ⟨[
      ⟨some ⟨"%s", ⟨1, 1, 0⟩⟩, ⟨"OpString", ⟨1, 4, 3⟩⟩, [⟨.string, "a\nAé\\", ⟨1, 12, 11⟩⟩,
        ⟨.integer, "0x1F", ⟨2, 14, 27⟩⟩, ⟨.word, "g|h", ⟨2, 18, 31⟩⟩]⟩,
      ⟨none, ⟨"OpName", ⟨4, 1, 40⟩⟩, [⟨.id, "%s", ⟨4, 8, 47⟩⟩, ⟨.float, "+1.5e3", ⟨4, 10, 49⟩⟩,
        ⟨.word, "x", ⟨4, 16, 55⟩⟩, ⟨.integer, "-7", ⟨4, 18, 57⟩⟩]⟩]⟩ := by decide +kernel
  exact ⟨_, hparse, by decide +kernel, parse_text hparse⟩

end FlowTree.Assembly
