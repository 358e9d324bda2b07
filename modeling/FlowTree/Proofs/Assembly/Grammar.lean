import Mathlib.Data.List.TakeWhile
import FlowTree.Proofs.Assembly.Extents

/-!
The grammar of programs. A text is a program if the rules split it into lexemes, every string among them unquotes, and
each line of what is left without blanks and comments is empty or an opcode with operands, with an id and a sign before
it if it has a result. The sign is `=`, and a string that stands for `=` is taken for it.
-/

namespace FlowTree.Assembly

theorem Token.exists_ofLexemes {c : Cursor} {ls : List Lexeme} (h : ∀ l ∈ ls, (value? l).isSome) :
    ∃ ts, ofLexemes [] c ls = .ok ts := by
  induction ls generalizing c with
  | nil => exact ⟨[], rfl⟩
  | cons l ls ih =>
    obtain ⟨hl, hls⟩ := List.forall_mem_cons.mp h
    obtain ⟨value, hvalue⟩ := Option.isSome_iff_exists.mp hl
    obtain ⟨ts, hts⟩ := ih (c := c.after l.text) hls
    rw [ofLexemes, hvalue]
    exact ⟨_, Except.bind_eq_ok_iff.mpr ⟨ts, hts, rfl⟩⟩

/-! ### Lines and programs -/

/-- The operand that a token reads as. -/
structure ReadsArgument (t : Token) (a : Argument) : Prop where
  kind : ArgumentKind.ofLexeme? t.kind = some a.kind
  value : a.value = t.value
  start : a.start = t.start

/-- The statement that the tokens of a line read as. -/
inductive ReadsLine : List Token → Statement → Prop
  | plain {opcode : Token} {tokens : List Token} {arguments : List Argument} (isWord : opcode.kind = .word)
    (reads : List.Forall₂ ReadsArgument tokens arguments) :
    ReadsLine (opcode :: tokens) ⟨none, ⟨opcode.value, opcode.start⟩, arguments⟩
  | result {id sign opcode : Token} {tokens : List Token} {arguments : List Argument} (isId : id.kind = .id)
    (isSign : sign.value = "=") (isWord : opcode.kind = .word) (reads : List.Forall₂ ReadsArgument tokens arguments) :
    ReadsLine (id :: sign :: opcode :: tokens) ⟨some ⟨id.value, id.start⟩, ⟨opcode.value, opcode.start⟩, arguments⟩

theorem readArgument_eq_ok_iff {t : Token} {a : Argument} : readArgument t = .ok a ↔ ReadsArgument t a := by
  obtain ⟨kind, value, start⟩ := a
  unfold readArgument
  constructor
  · intro h
    split at h
    · cases h
      exact ⟨‹_›, rfl, rfl⟩
    · cases h
  · rintro ⟨hkind, hvalue, hstart⟩
    simp only at hkind hvalue hstart
    rw [hkind, hvalue, hstart]

theorem readArguments_eq_ok_iff {ts : List Token} {arguments : List Argument} :
    ts.mapM readArgument = .ok arguments ↔ List.Forall₂ ReadsArgument ts arguments := by
  constructor
  · intro h
    exact (forall₂_of_mapM_ok h).imp fun _ _ => readArgument_eq_ok_iff.mp
  · intro h
    exact mapM_ok_forall₂ (h.imp fun _ _ => readArgument_eq_ok_iff.mpr)

theorem readBody_eq_ok_iff {result? : Option Word} {ts : List Token} {stop : Token} {s : Statement} :
    readBody result? ts stop = .ok s ↔ ∃ opcode tokens arguments, ts = opcode :: tokens ∧ opcode.kind = .word ∧
      List.Forall₂ ReadsArgument tokens arguments ∧ s = ⟨result?, ⟨opcode.value, opcode.start⟩, arguments⟩ := by
  unfold readBody
  constructor
  · intro h
    split at h
    · cases h
    · split at h
      · obtain ⟨arguments, harguments, h⟩ := Except.bind_eq_ok_iff.mp h
        cases h
        exact ⟨_, _, arguments, rfl, ‹_›, readArguments_eq_ok_iff.mp harguments, rfl⟩
      · cases h
  · rintro ⟨opcode, tokens, arguments, rfl, hword, hreads, rfl⟩
    simp only [hword, if_true]
    exact Except.bind_eq_ok_iff.mpr ⟨arguments, readArguments_eq_ok_iff.mpr hreads, rfl⟩

theorem readStatement_eq_ok_iff {first stop : Token} {rest : List Token} {s : Statement} :
    readStatement first rest stop = .ok s ↔ ReadsLine (first :: rest) s := by
  unfold readStatement
  constructor
  · intro h
    split at h
    · cases rest with
      | nil => cases h
      | cons sign rest =>
        simp only at h
        split at h
        · obtain ⟨opcode, tokens, arguments, rfl, hword, hreads, rfl⟩ := readBody_eq_ok_iff.mp h
          exact .result ‹_› ‹_› hword hreads
        · cases h
    · split at h
      · obtain ⟨opcode, tokens, arguments, heq, hword, hreads, rfl⟩ := readBody_eq_ok_iff.mp h
        cases heq
        exact .plain hword hreads
      · cases h
  · intro h
    cases h with
    | plain hword hreads =>
      rw [if_neg (by simp [hword]), if_pos hword, readBody_eq_ok_iff]
      exact ⟨_, _, _, rfl, hword, hreads, rfl⟩
    | result hid hsign hword hreads =>
      simp only [if_pos hid, if_pos hsign, readBody_eq_ok_iff]
      exact ⟨_, _, _, rfl, hword, hreads, rfl⟩

/-- The token ends a line. -/
def Token.endsLine (t : Token) : Bool := t.kind = .newline

theorem splitOnP_endsLine {first : Token} {rest : List Token} (h : first.kind ≠ .newline) :
    ((first :: rest).splitOnP Token.endsLine).filter (!·.isEmpty) = (first :: rest.takeWhile Token.inLine) ::
      ((rest.dropWhile Token.inLine).tail.splitOnP Token.endsLine).filter (!·.isEmpty) := by
  have hline : ∀ t ∈ first :: rest.takeWhile Token.inLine, Token.endsLine t = false := by
    refine List.forall_mem_cons.mpr ⟨by simpa [Token.endsLine] using h, fun t ht => ?_⟩
    simpa [Token.inLine, Token.endsLine] using List.mem_takeWhile_imp ht
  have hsplit : first :: rest = (first :: rest.takeWhile Token.inLine) ++ rest.dropWhile Token.inLine := by
    rw [List.cons_append, List.takeWhile_append_dropWhile]
  rw [hsplit]
  cases hafter : rest.dropWhile Token.inLine with
  | nil =>
    rw [List.append_nil, List.splitOnP_eq_singleton hline]
    rfl
  | cons stop after =>
    have hstop : Token.endsLine stop = true := by
      have := List.head_dropWhile_not Token.inLine (l := rest) (by simp [hafter])
      simpa [Token.inLine, Token.endsLine, hafter] using this
    rw [List.splitOnP_append_cons_of_forall_mem hline _ hstop]
    rfl

theorem readStatements_eq_ok_iff {ts : List Token} {ss : List Statement} : readStatements ts = .ok ss ↔
    List.Forall₂ ReadsLine ((ts.splitOnP Token.endsLine).filter (!·.isEmpty)) ss := by
  fun_induction readStatements ts generalizing ss with
  | case1 =>
    rw [List.splitOnP_nil]
    cases ss <;> simp
  | case2 first rest hnewline ih =>
    rw [ih, List.splitOnP_cons_eq_if_modifyHead, if_pos (by simpa [Token.endsLine] using hnewline)]
    simp
  | case3 first rest hnewline after =>
    rename_i ih
    rw [splitOnP_endsLine hnewline, Except.bind_eq_ok_iff]
    constructor
    · rintro ⟨s, hs, h⟩
      obtain ⟨later, hlater, h⟩ := Except.bind_eq_ok_iff.mp h
      cases h
      exact .cons (readStatement_eq_ok_iff.mp hs) (ih.mp hlater)
    · intro h
      obtain ⟨s, later, hs, hlater, rfl⟩ := List.forall₂_cons_left_iff.mp h
      exact ⟨s, readStatement_eq_ok_iff.mpr hs, Except.bind_eq_ok_iff.mpr ⟨later, ih.mpr hlater, rfl⟩⟩

theorem exists_readStatements_iff {ts : List Token} : (∃ ss, readStatements ts = .ok ss) ↔
    ∀ line ∈ ts.splitOnP Token.endsLine, line = [] ∨ ∃ s, ReadsLine line s := by
  simp only [readStatements_eq_ok_iff]
  constructor
  · rintro ⟨ss, hss⟩ line hline
    by_cases hempty : line = []
    · exact Or.inl hempty
    · obtain ⟨s, -, hs⟩ := exists_of_mem_left hss (List.mem_filter.mpr ⟨hline, by simpa using hempty⟩)
      exact Or.inr ⟨s, hs⟩
  · intro h
    refine exists_forall₂ fun line hline => ?_
    obtain ⟨hline, hne⟩ := List.mem_filter.mp hline
    exact (h line hline).resolve_left (by simpa using hne)

theorem parse_eq_ok_iff {t : Text} {p : Program} : Program.parse t = .ok p ↔ ∃ ls ts, Lexes (closeLine t) ls ∧
    Token.ofLexemes [] {} ls = .ok ts ∧ readStatements ts = .ok p.statements := by
  unfold Program.parse Token.ofText
  simp only [← lex_eq_iff]
  constructor
  · intro h
    obtain ⟨ts, hts, h⟩ := Except.bind_eq_ok_iff.mp h
    obtain ⟨ss, hss, h⟩ := Except.bind_eq_ok_iff.mp h
    cases h
    have hleft := (Token.of_ofLexemes hts).1
    rw [hleft] at hts
    exact ⟨_, ts, Prod.ext rfl hleft, hts, hss⟩
  · rintro ⟨ls, ts, hls, hts, hss⟩
    rw [hls]
    exact Except.bind_eq_ok_iff.mpr ⟨ts, hts, Except.bind_eq_ok_iff.mpr ⟨_, hss, rfl⟩⟩

theorem mem_of_mem_splitOnP {α : Type} {p : α → Bool} {xs line : List α} (h : line ∈ xs.splitOnP p) :
    ∀ x ∈ line, x ∈ xs := by
  induction xs generalizing line with
  | nil =>
    rw [List.mem_singleton.mp h]
    simp
  | cons x xs ih =>
    rw [List.splitOnP_cons_eq_if_modifyHead] at h
    split at h
    · rcases List.mem_cons.mp h with rfl | h
      · simp
      · exact fun y hy => List.mem_cons_of_mem x (ih h y hy)
    · obtain ⟨first, later, hlines⟩ := List.exists_cons_of_ne_nil (List.splitOnP_ne_nil p xs)
      rw [hlines] at h ih
      rcases List.mem_cons.mp h with rfl | h
      · exact List.forall_mem_cons.mpr
          ⟨List.mem_cons_self, fun y hy => List.mem_cons_of_mem x (ih List.mem_cons_self y hy)⟩
      · exact fun y hy => List.mem_cons_of_mem x (ih (List.mem_cons_of_mem _ h) y hy)

/-- What lines are read as is in the order of the tokens if it is so for each line. -/
theorem exists_sublist_of_readStatements {β : Type} {R : Token → β → Prop} {parts : Statement → List β}
    (hline : ∀ line s, ReadsLine line s → ∃ sub, sub.Sublist line ∧ List.Forall₂ R sub (parts s)) {ts : List Token}
    {ss : List Statement} (h : readStatements ts = .ok ss) :
    ∃ sub, sub.Sublist ts ∧ List.Forall₂ R sub (ss.flatMap parts) := by
  fun_induction readStatements ts generalizing ss with
  | case1 =>
    cases h
    exact ⟨[], .slnil, .nil⟩
  | case2 first rest hnewline ih =>
    obtain ⟨sub, hsub, hall⟩ := ih h
    exact ⟨sub, hsub.cons _, hall⟩
  | case3 first rest hnewline after =>
    rename_i ih
    obtain ⟨s, hs, h⟩ := Except.bind_eq_ok_iff.mp h
    obtain ⟨later, hlater, h⟩ := Except.bind_eq_ok_iff.mp h
    cases h
    obtain ⟨sub, hsub, hall⟩ := hline _ _ (readStatement_eq_ok_iff.mp hs)
    obtain ⟨sub', hsub', hall'⟩ := ih hlater
    refine ⟨sub ++ sub', ?_, List.rel_append hall hall'⟩
    -- the line feed behind the line is dropped together with what the line leaves out
    have hsplit : first :: rest = (first :: rest.takeWhile Token.inLine) ++ after := by
      rw [List.cons_append, List.takeWhile_append_dropWhile]
    rw [hsplit]
    exact hsub.append (hsub'.trans (List.tail_sublist _))

/-- What a program is read as is in the order of the lexemes that it stands for. -/
theorem exists_placed_of_parse {β : Type} {R : Token → β → Prop} {parts : Statement → List β}
    (hline : ∀ line s, ReadsLine line s → ∃ sub, sub.Sublist line ∧ List.Forall₂ R sub (parts s)) {t : Text} {p : Program}
    (h : Program.parse t = .ok p) :
    ∃ ls xs, Lexes (closeLine t) ls ∧ xs.Sublist ((placed {} ls).filter (·.lexeme.isKept)) ∧
      List.Forall₂ (fun x b => ∃ token, Token.StandsFor x token ∧ R token b) xs (p.statements.flatMap parts) := by
  obtain ⟨ls, ts, hlexes, hts, hss⟩ := parse_eq_ok_iff.mp h
  obtain ⟨sub, hsub, hall⟩ := exists_sublist_of_readStatements hline hss
  obtain ⟨xs, hxs, hstands⟩ := exists_sublist_left (Token.standsFor_of_ofLexemes hts).2.2 hsub
  exact ⟨ls, xs, hlexes, hxs, forall₂_trans hstands hall fun _ token _ hx hb => ⟨token, hx, hb⟩⟩

/-- The statements of a program stand in the lines of its text, one below the other. -/
theorem lines_of_parse {t : Text} {p : Program} (h : Program.parse t = .ok p) :
    p.statements.Pairwise (·.start.line ≤ ·.start.line) ∧
    ∀ s ∈ p.statements, 0 < s.start.line ∧ s.start.line ≤ t.lines.length := by
  have hline : ∀ line s, ReadsLine line s →
      ∃ sub, sub.Sublist line ∧ List.Forall₂ (fun token s => s.start = token.start) sub [s] := by
    intro line s hreads
    cases hreads with
    | @plain opcode => exact ⟨[opcode], by simp, .cons rfl .nil⟩
    | @result id => exact ⟨[id], by simp, .cons rfl .nil⟩
  obtain ⟨ls, xs, hlexes, hxs, hall⟩ := exists_placed_of_parse hline h
  replace hxs := hxs.trans List.filter_sublist
  rw [List.flatMap_singleton'] at hall
  have hstart : List.Forall₂ (fun x s => s.start = x.start) xs p.statements :=
    hall.imp fun x s ⟨token, hstands, hs⟩ => hs.trans hstands.start
  constructor
  · refine pairwise_of_forall₂ hstart ((pairwise_placed {} ls).sublist hxs) fun x _ x' _ s s' hs hs' hclears => ?_
    rw [hs, hs']
    exact hclears.line_le
  · intro s hs
    obtain ⟨x, hx, hs⟩ := exists_of_mem_right hstart hs
    rw [hs]
    exact ⟨(one_le_start (hxs.subset hx)).1, (hlexes.start_le (hxs.subset hx)).1⟩

/-- Every statement of a program stands in some line of its text. -/
theorem line_pos_of_parse {t : Text} {p : Program} (h : Program.parse t = .ok p) :
    ∀ s ∈ p.statements, 0 < s.start.line := fun s hs => ((lines_of_parse h).2 s hs).1

/-! ### The grammar -/

/-- A string that stands for an equals sign. -/
def Lexeme.QuotesEquals (l : Lexeme) : Prop := l.kind = .string ∧ Text.unquote? (Token.inner l.text) = some ['=']

instance (l : Lexeme) : Decidable l.QuotesEquals :=
  inferInstanceAs (Decidable (l.kind = .string ∧ Text.unquote? (Token.inner l.text) = some ['=']))

/-- The lexeme can be an operand. -/
def Lexeme.IsOperand (l : Lexeme) : Prop := l.kind ∈ [LexemeKind.id, .float, .integer, .string, .word]

/-- The lexemes are an instruction: an opcode with operands, and before them the id of the result, if there is one, with a
sign. -/
inductive IsInstruction (sign : Lexeme → Prop) : List Lexeme → Prop
  | plain {opcode : Lexeme} {operands : List Lexeme} (isWord : opcode.kind = .word)
    (areOperands : ∀ l ∈ operands, l.IsOperand) : IsInstruction sign (opcode :: operands)
  | result {id mark opcode : Lexeme} {operands : List Lexeme} (isId : id.kind = .id) (isSign : sign mark)
    (isWord : opcode.kind = .word) (areOperands : ∀ l ∈ operands, l.IsOperand) :
    IsInstruction sign (id :: mark :: opcode :: operands)

/-- The lines of lexemes, without those that only separate others. -/
def lexemeLines (ls : List Lexeme) : List (List Lexeme) := (ls.filter Lexeme.isKept).splitOnP (·.kind = .newline)

/-- The text is split into the lexemes, its strings are well formed, and every line is empty or an instruction. -/
structure IsProgram (sign : Lexeme → Prop) (t : Text) (ls : List Lexeme) : Prop where
  lexes : Lexes (closeLine t) ls
  unquotes : ∀ l ∈ ls, l.kind = .string → (Text.unquote? (Token.inner l.text)).isSome
  lines : ∀ line ∈ lexemeLines ls, line = [] ∨ IsInstruction sign line

theorem isSome_value?_iff {l : Lexeme} :
    (Token.value? l).isSome ↔ (l.kind = .string → (Text.unquote? (Token.inner l.text)).isSome) := by
  unfold Token.value?
  by_cases hkind : l.kind = .string <;> simp [hkind]

/-- Lines of corresponding lists correspond. -/
theorem forall₂_splitOnP {α β : Type} {R : α → β → Prop} {p : α → Bool} {q : β → Bool} {xs : List α} {ys : List β}
    (h : List.Forall₂ R xs ys) (hpq : ∀ x y, R x y → p x = q y) :
    List.Forall₂ (List.Forall₂ R) (xs.splitOnP p) (ys.splitOnP q) := by
  induction h with
  | nil => exact .cons .nil .nil
  | @cons x y xs ys hxy _ ih =>
    rw [List.splitOnP_cons_eq_if_modifyHead, List.splitOnP_cons_eq_if_modifyHead, hpq x y hxy]
    split
    · exact .cons .nil ih
    · generalize xs.splitOnP p = lines, ys.splitOnP q = lines' at ih
      cases ih with
      | nil => exact .nil
      | cons hfirst hlater => exact .cons (.cons hxy hfirst) hlater

theorem isOperand_iff {l : Lexeme} : l.IsOperand ↔ ∃ kind, ArgumentKind.ofLexeme? l.kind = some kind := by
  unfold Lexeme.IsOperand
  cases l.kind <;> simp [ArgumentKind.ofLexeme?]

theorem exists_readsArguments_iff {ls : List Lexeme} {ts : List Token} (h : List.Forall₂ Token.Of ls ts) :
    (∃ arguments, List.Forall₂ ReadsArgument ts arguments) ↔ ∀ l ∈ ls, l.IsOperand := by
  constructor
  · rintro ⟨arguments, hreads⟩ l hl
    obtain ⟨t, ht, hof⟩ := exists_of_mem_left h hl
    obtain ⟨a, -, ha⟩ := exists_of_mem_left hreads ht
    exact isOperand_iff.mpr ⟨a.kind, hof.kind ▸ ha.kind⟩
  · intro hoperands
    refine exists_forall₂ fun t ht => ?_
    obtain ⟨l, hl, hof⟩ := exists_of_mem_right h ht
    obtain ⟨kind, hkind⟩ := isOperand_iff.mp (hoperands l hl)
    exact ⟨⟨kind, t.value, t.start⟩, hof.kind ▸ hkind, rfl, rfl⟩

/-- What counts as a sign: the equals sign, or a string that stands for it. -/
def Lexeme.IsSign (l : Lexeme) : Prop := l.kind = .equals ∨ l.QuotesEquals

theorem first?_equals {g : Glyph} {t : Text} (h : g.toChar = '=') :
    first? (chars (g :: t)) = some (.equals, chars t) := by
  rw [first?_eq_lexeme?]
  simp [lexeme?, h, isSign, isWordStart, isLetter]

/-- Only the equals sign is written as one. -/
theorem Lexes.shown_eq_iff {t : Text} {ls : List Lexeme} (h : Lexes t ls) :
    ∀ l ∈ ls, l.text.shown = "=" ↔ l.kind = .equals := by
  induction h with
  | nil => simp
  | @cons kind w rest ls first _ ih =>
    refine List.forall_mem_cons.mpr ⟨?_, ih⟩
    constructor
    · intro hshown
      have hchars : chars w = ['='] := String.ofList_inj.mp hshown
      obtain ⟨g, rfl, hg⟩ := List.map_eq_singleton_iff.mp hchars
      rw [List.singleton_append, first?_equals hg] at first
      cases first
      rfl
    · intro hkind
      simp only at hkind
      subst hkind
      have hleft := left?_of_first? first
      cases htext : w ++ rest with
      | nil =>
        rw [htext] at hleft
        cases hleft
      | cons g t =>
        rw [htext, chars_cons, LexemeKind.pattern, Pattern.char, Pattern.left?_one_cons,
          Option.ite_none_right_eq_some, Option.some.injEq, decide_eq_true_eq] at hleft
        have hlength : t.length = rest.length := by simpa using congrArg List.length hleft.2
        obtain ⟨rfl, -⟩ := List.append_inj' (show [g] ++ t = w ++ rest from htext.symm) hlength
        simp [Text.shown, hleft.1]

theorem Token.Of.isSign_iff {l : Lexeme} {t : Token} (h : Token.Of l t)
    (hshown : l.text.shown = "=" ↔ l.kind = .equals) : t.value = "=" ↔ l.IsSign := by
  have hvalue := h.value
  unfold Token.value? at hvalue
  unfold Lexeme.IsSign Lexeme.QuotesEquals
  by_cases hkind : l.kind = .string
  · rw [if_pos hkind, Option.map_eq_some_iff] at hvalue
    obtain ⟨cs, hcs, hvalue⟩ := hvalue
    rw [← hvalue, hcs, show (String.ofList cs = "=" ↔ cs = ['=']) from String.ofList_inj]
    simp [hkind]
  · rw [if_neg hkind, Option.some.injEq] at hvalue
    rw [← hvalue, hshown]
    simp [hkind]

theorem exists_readsLine_iff {ls : List Lexeme} {ts : List Token} (h : List.Forall₂ Token.Of ls ts)
    (hshown : ∀ l ∈ ls, l.text.shown = "=" ↔ l.kind = .equals) :
    (∃ s, ReadsLine ts s) ↔ IsInstruction Lexeme.IsSign ls := by
  constructor
  · rintro ⟨s, hs⟩
    cases hs with
    | plain hword hreads =>
      obtain ⟨opcode, operands, hopcode, hoperands, rfl⟩ := List.forall₂_cons_right_iff.mp h
      exact .plain (hopcode.kind ▸ hword) ((exists_readsArguments_iff hoperands).mp ⟨_, hreads⟩)
    | result hid hsign hword hreads =>
      obtain ⟨id, _, hof, hrest, rfl⟩ := List.forall₂_cons_right_iff.mp h
      obtain ⟨mark, _, hmark, hbody, rfl⟩ := List.forall₂_cons_right_iff.mp hrest
      obtain ⟨opcode, operands, hopcode, hoperands, rfl⟩ := List.forall₂_cons_right_iff.mp hbody
      exact .result (hof.kind ▸ hid) ((hmark.isSign_iff (hshown mark (by simp))).mp hsign) (hopcode.kind ▸ hword)
        ((exists_readsArguments_iff hoperands).mp ⟨_, hreads⟩)
  · intro hinstruction
    cases hinstruction with
    | plain hword hoperands =>
      obtain ⟨opcode, tokens, hopcode, htokens, rfl⟩ := List.forall₂_cons_left_iff.mp h
      obtain ⟨arguments, hreads⟩ := (exists_readsArguments_iff htokens).mpr hoperands
      exact ⟨_, .plain (hopcode.kind.trans hword) hreads⟩
    | result hid hsign hword hoperands =>
      obtain ⟨id, _, hof, hrest, rfl⟩ := List.forall₂_cons_left_iff.mp h
      obtain ⟨mark, _, hmark, hbody, rfl⟩ := List.forall₂_cons_left_iff.mp hrest
      obtain ⟨opcode, tokens, hopcode, htokens, rfl⟩ := List.forall₂_cons_left_iff.mp hbody
      obtain ⟨arguments, hreads⟩ := (exists_readsArguments_iff htokens).mpr hoperands
      exact ⟨_, .result (hof.kind.trans hid) ((hmark.isSign_iff (hshown _ (by simp))).mpr hsign)
        (hopcode.kind.trans hword) hreads⟩

theorem exists_readStatements_of_lexemes {ls : List Lexeme} {ts : List Token}
    (h : List.Forall₂ Token.Of (ls.filter Lexeme.isKept) ts) (hshown : ∀ l ∈ ls, l.text.shown = "=" ↔ l.kind = .equals) :
    (∃ ss, readStatements ts = .ok ss) ↔ ∀ line ∈ lexemeLines ls, line = [] ∨ IsInstruction Lexeme.IsSign line := by
  have hlines := forall₂_splitOnP (p := fun l => decide (l.kind = .newline)) (q := Token.endsLine) h
    fun l t hof => by rw [Token.endsLine, hof.kind]
  have hmem : ∀ line ∈ lexemeLines ls, ∀ l ∈ line, l.text.shown = "=" ↔ l.kind = .equals := fun line hline l hl =>
    hshown l (List.mem_of_mem_filter (mem_of_mem_splitOnP hline l hl))
  have hnil : ∀ {line : List Lexeme} {tline : List Token}, List.Forall₂ Token.Of line tline → (tline = [] ↔ line = []) := by
    intro line tline hof
    cases hof <;> simp
  rw [exists_readStatements_iff]
  constructor
  · intro hreads line hline
    obtain ⟨tline, htline, hof⟩ := exists_of_mem_left hlines hline
    exact (hreads tline htline).imp (hnil hof).mp (exists_readsLine_iff hof (hmem line hline)).mp
  · intro hinstructions tline htline
    obtain ⟨line, hline, hof⟩ := exists_of_mem_right hlines htline
    exact (hinstructions line hline).imp (hnil hof).mpr (exists_readsLine_iff hof (hmem line hline)).mpr

theorem exists_parse_iff {t : Text} : (∃ p, Program.parse t = .ok p) ↔ ∃ ls, IsProgram Lexeme.IsSign t ls := by
  constructor
  · rintro ⟨p, hp⟩
    obtain ⟨ls, ts, hlexes, hts, hss⟩ := parse_eq_ok_iff.mp hp
    obtain ⟨-, hvalues, hof⟩ := Token.of_ofLexemes hts
    exact ⟨ls, hlexes, fun l hl => isSome_value?_iff.mp (hvalues l hl),
      (exists_readStatements_of_lexemes hof hlexes.shown_eq_iff).mp ⟨_, hss⟩⟩
  · rintro ⟨ls, hlexes, hunquotes, hlines⟩
    obtain ⟨ts, hts⟩ := Token.exists_ofLexemes (c := {}) fun l hl => isSome_value?_iff.mpr (hunquotes l hl)
    obtain ⟨-, -, hof⟩ := Token.of_ofLexemes hts
    obtain ⟨ss, hss⟩ := (exists_readStatements_of_lexemes hof hlexes.shown_eq_iff).mpr hlines
    exact ⟨⟨ss⟩, parse_eq_ok_iff.mpr ⟨ls, ts, hlexes, hts, hss⟩⟩

/-- Where no string stands for an equals sign, only equals signs are signs. -/
theorem isInstruction_congr {line : List Lexeme} (h : ∀ l ∈ line, ¬l.QuotesEquals) :
    IsInstruction Lexeme.IsSign line ↔ IsInstruction (·.kind = .equals) line := by
  constructor
  · intro hline
    cases hline with
    | plain hword hoperands => exact .plain hword hoperands
    | @result id mark _ _ hid hsign hword hoperands =>
      exact .result hid (hsign.resolve_right (h mark (by simp))) hword hoperands
  · intro hline
    cases hline with
    | plain hword hoperands => exact .plain hword hoperands
    | result hid hsign hword hoperands => exact .result hid (Or.inl hsign) hword hoperands

/-- A text is a program if and only if the rules split it into lexemes, its strings are well formed, and every line of it
is empty or an instruction, where a string that stands for an equals sign is taken for one. Where no string does, that is
the grammar with nothing but equals signs for signs. -/
theorem parse_accepts_grammar (t : Text) :
    ((∃ p, Program.parse t = .ok p) ↔ ∃ ls, IsProgram (fun l => l.kind = .equals ∨ l.QuotesEquals) t ls) ∧
    ∀ ls, Lexes (closeLine t) ls → (∀ l ∈ ls, ¬l.QuotesEquals) →
      ((∃ p, Program.parse t = .ok p) ↔ IsProgram (·.kind = .equals) t ls) := by
  refine ⟨exists_parse_iff, fun ls hlexes hquotes => exists_parse_iff.trans ?_⟩
  have hcongr : ∀ line ∈ lexemeLines ls,
      IsInstruction Lexeme.IsSign line ↔ IsInstruction (·.kind = .equals) line := fun line hline =>
    isInstruction_congr fun l hl => hquotes l (List.mem_of_mem_filter (mem_of_mem_splitOnP hline l hl))
  constructor
  · rintro ⟨ls', hlexes', hunquotes, hlines⟩
    obtain rfl : ls' = ls := by simpa using hlexes'.lex_eq.symm.trans hlexes.lex_eq
    exact ⟨hlexes, hunquotes, fun line hline => (hlines line hline).imp_right (hcongr line hline).mp⟩
  · rintro ⟨-, hunquotes, hlines⟩
    exact ⟨ls, hlexes, hunquotes, fun line hline => (hlines line hline).imp_right (hcongr line hline).mpr⟩

/-- A string over two lines, a comment, and words right behind numbers; nothing ends the last line. -/
def spanningSample : Text := Text.ofString "%s = OpString \"a\nb\" ; c = d\n\nOpName %s 1.5x|y 0x1Fg"

def spanningLexemes : List Lexeme := [
  ⟨.id, .ofString "%s"⟩, ⟨.blank, .ofString " "⟩, ⟨.equals, .ofString "="⟩, ⟨.blank, .ofString " "⟩,
  ⟨.word, .ofString "OpString"⟩, ⟨.blank, .ofString " "⟩, ⟨.string, .ofString "\"a\nb\""⟩, ⟨.blank, .ofString " "⟩,
  ⟨.comment, .ofString "; c = d"⟩, ⟨.newline, .ofString "\n"⟩, ⟨.newline, .ofString "\n"⟩,
  ⟨.word, .ofString "OpName"⟩, ⟨.blank, .ofString " "⟩, ⟨.id, .ofString "%s"⟩, ⟨.blank, .ofString " "⟩,
  ⟨.float, .ofString "1.5"⟩, ⟨.word, .ofString "x|y"⟩, ⟨.blank, .ofString " "⟩, ⟨.integer, .ofString "0x1F"⟩,
  ⟨.word, .ofString "g"⟩, ⟨.newline, .ofString "\n"⟩]

/-- The sample is a program by the rules and the grammar. -/
theorem parse_accepts_grammar_spanning : Lexes (closeLine spanningSample) spanningLexemes ∧
    (∀ l ∈ spanningLexemes, ¬l.QuotesEquals) ∧ (∃ p, Program.parse spanningSample = .ok p) ∧
    IsProgram (·.kind = .equals) spanningSample spanningLexemes := by
  have hlexes : Lexes (closeLine spanningSample) spanningLexemes := lex_eq_iff.mp (by decide +kernel)
  have hquotes : ∀ l ∈ spanningLexemes, ¬l.QuotesEquals := by decide +kernel
  have hparse : ∃ p, Program.parse spanningSample = .ok p := ⟨⟨[
    ⟨some ⟨"%s", ⟨1, 1, 0⟩⟩, ⟨"OpString", ⟨1, 6, 5⟩⟩, [⟨.string, "a\nb", ⟨1, 15, 14⟩⟩]⟩,
    ⟨none, ⟨"OpName", ⟨4, 1, 29⟩⟩, [⟨.id, "%s", ⟨4, 8, 36⟩⟩, ⟨.float, "1.5", ⟨4, 11, 39⟩⟩, ⟨.word, "x|y", ⟨4, 14, 42⟩⟩,
      ⟨.integer, "0x1F", ⟨4, 18, 46⟩⟩, ⟨.word, "g", ⟨4, 22, 50⟩⟩]⟩]⟩, by decide +kernel⟩
  exact ⟨hlexes, hquotes, hparse, ((parse_accepts_grammar spanningSample).2 _ hlexes hquotes).mp hparse⟩

/-- An id, a string that stands for an equals sign, and an opcode. -/
def quotedSignSample : Text := Text.ofString "%x \"=\" OpLabel"

/-- The sample is read as a statement with a result although no equals sign is in it outside of quotes. -/
theorem quoted_sign_accepted : (∃ p, Program.parse quotedSignSample = .ok p) ∧
    ¬∃ ls, IsProgram (·.kind = .equals) quotedSignSample ls := by
  refine ⟨⟨⟨[⟨some ⟨"%x", ⟨1, 1, 0⟩⟩, ⟨"OpLabel", ⟨1, 8, 7⟩⟩, []⟩]⟩, by decide +kernel⟩, ?_⟩
  rintro ⟨ls, hlexes, -, hlines⟩
  have hlex : lex (closeLine quotedSignSample) = ([⟨.id, .ofString "%x"⟩, ⟨.blank, .ofString " "⟩,
      ⟨.string, .ofString "\"=\""⟩, ⟨.blank, .ofString " "⟩, ⟨.word, .ofString "OpLabel"⟩,
      ⟨.newline, .ofString "\n"⟩], []) := by
    decide +kernel
  obtain rfl : ls = _ := by simpa using hlexes.lex_eq.symm.trans hlex
  have hline := hlines [⟨.id, .ofString "%x"⟩, ⟨.string, .ofString "\"=\""⟩, ⟨.word, .ofString "OpLabel"⟩] (by decide)
  rcases hline with hline | hline
  · cases hline
  · cases hline with
    | plain hword => cases hword
    | result hid hsign => cases hsign

end FlowTree.Assembly
