import FlowTree.Proofs.Assembly.RoundTrip
import FlowTree.Proofs.Function.Segments
import FlowTree.Proofs.Text.Integers

/-!
Functions printed and read back. An instruction is printed as the statement that it came from, but for the spelling of
integers. The names in the text come in the order in which they were bound, so reading binds them to the same ids again.
-/

namespace FlowTree

open Assembly

/-- The instruction with its position forgotten. -/
def Instruction.unplaced (i : Instruction) : Instruction := { i with position := {} }

namespace Assembly

/-- An id is a percent sign and a name. -/
theorem Spells.exists_id {s : String} (h : Spells .id s) : ∃ cs, s.toList = '%' :: cs ∧ ∀ c ∈ cs, isIdChar c = true := by
  have hfirst := h ' ' (by simp) []
  obtain ⟨c, cs, hcs⟩ := exists_cons_of_first? hfirst
  have hleft := left?_of_first? hfirst
  rw [hcs, List.cons_append, LexemeKind.pattern, Pattern.char, Pattern.left?_seq_one_cons,
    Option.ite_none_right_eq_some, Pattern.left?_several_one, Option.ite_none_right_eq_some, Option.some.injEq] at hleft
  obtain ⟨hpercent, -, hname⟩ := hleft
  refine ⟨cs, by rw [hcs, of_decide_eq_true hpercent], ?_⟩
  have hsplit := List.takeWhile_append_dropWhile (p := isIdChar) (l := cs ++ [' '])
  rw [hname] at hsplit
  rw [← List.append_cancel_right hsplit]
  exact fun c hc => List.mem_takeWhile_imp hc

theorem lengths_of_digits {ds : List Char} (h : ∀ c ∈ ds, c.isDigit = true) (hne : ds ≠ []) :
    fractionLength? (Text.ofChars ds) = none ∧ naturalLength? (Text.ofChars ds) = some ds.length := by
  have hlength : (Text.ofChars ds).length = ds.length := List.length_map _
  have hrun : run Char.isDigit (Text.ofChars ds) = ds.length := by
    have hall : ∀ g ∈ Text.ofChars ds, g.toChar.isDigit = true := List.forall_mem_map.mpr h
    rw [run, List.takeWhile_eq_self_iff.mpr hall, hlength]
  have hx : starts (· = 'x') ((Text.ofChars ds).drop 1) = false := by
    rw [starts_eq, chars, Text.ofChars, ← List.map_drop, List.map_map, List.head?_map, List.drop_one]
    cases hhead : ds.tail.head? with
    | none => rfl
    | some c =>
      have hdigit := h c (List.mem_of_mem_tail (List.mem_of_mem_head? hhead))
      simp only [Option.map_some, Option.any_some, decide_eq_false_iff_not]
      rintro rfl
      cases hdigit
  have hpos : 0 < ds.length := List.length_pos_iff.mpr hne
  constructor
  · have hend : (Text.ofChars ds).drop ds.length = [] := List.drop_eq_nil_of_le (by omega)
    simp [fractionLength?, hrun, hend, starts]
  · simp only [naturalLength?, hrun, hx, hpos]
    simp

/-- A number that takes the whole text. -/
theorem first?_of_number? {c : Char} {cs : List Char} (hc : (isSign c || c.isDigit) = true)
    (h : number? (Text.ofChars (c :: cs)) = some (.integer, cs.length + 1)) : first? (c :: cs) = some (.integer, []) := by
  have hne : c ≠ ';' ∧ c ≠ '"' ∧ c ≠ '%' := by refine ⟨?_, ?_, ?_⟩ <;> rintro rfl <;> cases hc
  have hlexeme : lexeme? (.char c) (Text.ofChars cs) = some (.integer, cs.length) := by
    have hnumber : number? (.char c :: Text.ofChars cs) = some (.integer, cs.length + 1) := h
    simp [lexeme?, Glyph.toChar, hne, hc, hnumber]
  rw [← chars_ofChars (c :: cs), Text.ofChars, List.map_cons, ← Text.ofChars, first?_eq_lexeme?, hlexeme, Option.map_some,
    List.drop_eq_nil_of_le (by simp [Text.ofChars])]
  rfl

/-- A decimal numeral is an integer. -/
theorem spells_toString (n : Int) : Spells .integer (toString n) := by
  have hdigits : ∀ m c, c ∈ Nat.toDigits 10 m → c.isDigit = true := fun m c =>
    Nat.isDigit_of_mem_toDigits (by decide) (by decide)
  suffices ∃ cs, toString n = String.ofList cs ∧ first? cs = some (.integer, []) by
    obtain ⟨cs, hcs, hfirst⟩ := this
    rw [hcs]
    have hwhole : first? (cs ++ []) = some (.integer, []) := by rwa [List.append_nil]
    exact spells_of_first? (by simp [LexemeKind.bare]) hwhole
  rw [Int.toString_eq_repr]
  cases n with
  | ofNat m =>
    refine ⟨Nat.toDigits 10 m, Nat.repr_eq_ofList_toDigits, ?_⟩
    obtain ⟨hfraction, hnatural⟩ := lengths_of_digits (hdigits m) Nat.toDigits_ne_nil
    obtain ⟨c, cs, hcs⟩ := List.exists_cons_of_ne_nil (Nat.toDigits_ne_nil (n := m) (b := 10))
    have hc := hdigits m c (by simp [hcs])
    have hsign : isSign c = false := by
      rw [← Bool.not_eq_true]
      intro hsign
      rw [not_isDigit_of_isSign hsign] at hc
      cases hc
    rw [hcs] at hfraction hnatural ⊢
    refine first?_of_number? (by rw [hc, Bool.or_true]) ?_
    have hstarts : starts isSign (Text.ofChars (c :: cs)) = false := hsign
    simp [number?, hstarts, hfraction, hnatural]
  | negSucc m =>
    refine ⟨'-' :: Nat.toDigits 10 (m + 1), ?_, ?_⟩
    · rw [Int.repr, Nat.repr_eq_ofList_toDigits, ← String.toList_inj]
      simp
    · obtain ⟨hfraction, hnatural⟩ := lengths_of_digits (hdigits (m + 1)) Nat.toDigits_ne_nil
      have hstarts : starts isSign (Text.ofChars ('-' :: Nat.toDigits 10 (m + 1))) = true := rfl
      have hdrop : (Text.ofChars ('-' :: Nat.toDigits 10 (m + 1))).drop 1 = Text.ofChars (Nat.toDigits 10 (m + 1)) := rfl
      refine first?_of_number? rfl ?_
      simp [number?, hstarts, hdrop, hfraction, hnatural, Nat.add_comm]

/-- The argument with its value as it is printed: integers become decimal numerals of what they stand for. -/
def Argument.plain (a : Argument) : Argument :=
  if a.kind = .integer then { a with value := toString (Text.readInteger a.value).value } else a

def Statement.plain (s : Statement) : Statement := { s with arguments := s.arguments.map Argument.plain }

theorem Statement.Spelled.plain {s : Statement} (h : s.Spelled) : s.plain.Spelled := by
  refine ⟨h.result, h.opcode, List.forall_mem_map.mpr fun a ha hstring => ?_⟩
  unfold Argument.plain at hstring ⊢
  split
  · rename_i hinteger
    have hkind : a.kind.lexeme = .integer := by rw [hinteger]; rfl
    exact hkind ▸ spells_toString _
  · rename_i hinteger
    rw [if_neg hinteger] at hstring
    exact h.arguments a ha hstring

/-- A plain integer stands for what the integer stands for. -/
theorem Argument.lower_plain (n : Naming) (a : Argument) : a.plain.lower n = a.lower n := by
  unfold plain
  split
  · rename_i hinteger
    obtain ⟨hmin, hmax⟩ := Text.readInteger_bounds a.value
    simp only [lower, hinteger, Text.readInteger_toString hmin hmax]
  · rfl

/-! ### Instructions in text -/

section
variable {names : NameTable}

theorem bare_of_percent {s : String} {cs : List Char} (h : s.toList = '%' :: cs) : Naming.bare s = String.ofList cs := by
  unfold Naming.bare
  split
  · rename_i rest heq
    rw [h] at heq
    rw [(List.cons.inj heq).2]
  · rename_i hnot
    exact absurd h (hnot cs)

/-- What is bound to an id is printed as the name with a percent sign. -/
theorem render_id {s : String} {id : Id} (hone : names.OneToOne) (hs : Spells .id s)
    (hid : names.id? (Naming.bare s) = some id) : "%" ++ names.nameOf id = s := by
  obtain ⟨cs, hcs, -⟩ := hs.exists_id
  rw [hone.nameOf_eq hid, bare_of_percent hcs, ← String.toList_inj, hcs]
  simp

/-- The name of an id has no percent sign. -/
theorem bare_name {w : Word} (hw : Spells .id w.text) : Naming.bare w.name = Naming.bare w.text := by
  obtain ⟨cs, hcs, hchars⟩ := hw.exists_id
  have hname : w.name = String.ofList cs := by rw [Word.name, hcs]; rfl
  rw [bare_of_percent hcs, hname]
  unfold Naming.bare
  rw [String.toList_ofList]
  split
  · rename_i rest
    cases hchars '%' (by simp)
  · rfl

theorem Argument.Denotes.render {a : Argument} {o : Operand} (h : a.Denotes names o) (hone : names.OneToOne)
    (ha : a.kind ≠ .string → Spells a.kind.lexeme a.value) : o.render names = a.plain.text := by
  unfold Denotes at h
  unfold Argument.text plain
  cases hkind : a.kind <;> simp only [hkind] at h ha
  case id =>
    obtain ⟨id, hid, rfl⟩ := h
    simpa [hkind, Operand.render, Operand.ofId] using render_id hone (ha (by simp)) hid
  all_goals
    subst h
    simp [hkind, Operand.render, Operand.ofLiteral, Operand.ofEnumerant]

theorem Spells.ne_empty {kind : LexemeKind} {s : String} (hkind : kind ∈ LexemeKind.bare) (h : Spells kind s) : s ≠ "" := by
  obtain ⟨c, cs, hcs, -⟩ := h.exists_cons hkind
  rintro rfl
  cases hcs

theorem Argument.text_ne_empty {a : Argument} (ha : a.kind ≠ .string → Spells a.kind.lexeme a.value) : a.text ≠ "" := by
  unfold Argument.text
  split
  · intro hempty
    have := congrArg String.toList hempty
    simp [Text.quoteString, Text.quote] at this
  · rename_i hstring
    refine (ha hstring).ne_empty ?_
    cases hk : a.kind <;> simp [hk, ArgumentKind.lexeme, LexemeKind.bare] at hstring ⊢

/-- Texts with blanks between them, behind a blank. -/
theorem blank_intercalate {xs : List String} (h : ∀ x ∈ xs, x ≠ "") :
    (if " ".intercalate xs = "" then "" else " " ++ " ".intercalate xs) = String.join (xs.map (" " ++ ·)) := by
  cases xs with
  | nil => rfl
  | cons x xs =>
    have hjoin : ∀ x, " " ++ " ".intercalate (x :: xs) = String.join ((x :: xs).map (" " ++ ·)) := by
      clear h
      induction xs with
      | nil => simp
      | cons y ys ih =>
        intro x
        rw [String.intercalate_cons_cons, List.map_cons, String.join_cons, ← ih y]
        simp [String.append_assoc]
    have hne : " ".intercalate (x :: xs) ≠ "" := by
      cases xs <;> simp [h x]
    rw [if_neg hne, hjoin]

theorem render_operands {as : List Argument} {os : List Operand} (h : List.Forall₂ (Argument.Denotes names) as os)
    (hone : names.OneToOne) (has : ∀ a ∈ as, a.kind ≠ .string → Spells a.kind.lexeme a.value) :
    os.map (Operand.render names) = (as.map Argument.plain).map Argument.text := by
  induction h with
  | nil => rfl
  | cons ha _ ih =>
    obtain ⟨hspelled, hlater⟩ := List.forall_mem_cons.mp has
    rw [List.map_cons, List.map_cons, List.map_cons, ih hlater, ha.render hone hspelled]

theorem Statement.Lowers.name_eq {file : String} {s : Statement} {i : Instruction} (h : s.Lowers file names i)
    (hs : s.Spelled) : i.name = s.opcode.text := by
  have hne := hs.opcode.ne_empty (by simp [LexemeKind.bare])
  unfold Instruction.name
  rw [h.op, h.mnemonic]
  by_cases hknown : Opcode.ofMnemonic s.opcode.text = .unknown
  · simp [hknown, hne]
  · rw [if_neg (by simp [hknown]), Opcode.name_ofMnemonic hknown]

/-- An instruction is printed as its statement. -/
theorem Statement.Lowers.render {file : String} {s : Statement} {i : Instruction} (h : s.Lowers file names i)
    (hone : names.OneToOne) (hzero : names.NonZero) (hs : s.Spelled) : i.render names = s.plain.text := by
  have hoperands := render_operands h.operands hone hs.arguments
  have hne : ∀ x ∈ s.plain.arguments.map Argument.text, x ≠ "" :=
    List.forall_mem_map.mpr fun a ha => Argument.text_ne_empty (hs.plain.arguments a ha)
  have hjoin := blank_intercalate hne
  rw [List.map_map] at hjoin
  have hresult := h.result
  unfold Statement.ResultIs at hresult
  unfold Instruction.render Statement.text
  simp only [h.name_eq hs, hoperands]
  rw [← show s.plain.arguments = s.arguments.map Argument.plain from rfl, hjoin]
  cases hword : s.result? with
  | none =>
    simp only [hword] at hresult
    simp only [Statement.plain, hword, hresult, if_true]
    rfl
  | some w =>
    simp only [hword] at hresult
    have hw := hs.result w hword
    rw [bare_name hw] at hresult
    rw [if_neg (hzero _ (NameTable.mem_of_id? hresult)), render_id hone hw hresult]
    simp only [Statement.plain, hword]
    rfl

end

theorem prints_renderLines {file : String} {f : Function} {ss : List Statement} {is : List Instruction}
    (h : List.Forall₂ (Statement.Lowers file f.names) ss is) (hone : f.names.OneToOne) (hzero : f.names.NonZero)
    (hs : ∀ s ∈ ss, s.Spelled) (inBlock : Bool) : ∃ lines, Text.ofString (f.renderLines inBlock is) = unlines lines ∧
      List.Forall₂ Prints lines (ss.map fun s => some s.plain) := by
  induction h generalizing inBlock with
  | nil => exact ⟨[], rfl, .nil⟩
  | @cons s i ss is hlowers _ ih =>
    obtain ⟨hspelled, hlater⟩ := List.forall_mem_cons.mp hs
    have hrender : f.render i = s.plain.text := hlowers.render hone hzero hspelled
    rw [Function.renderLines, hrender]
    split
    · obtain ⟨lines, hlines, hprints⟩ := ih hlater true
      refine ⟨("" ++ s.plain.text) :: lines, ?_, .cons (.statement (by simp) hspelled.plain) hprints⟩
      rw [unlines_cons, ← hlines, ofString_append, ofString_append, String.empty_append, List.append_assoc]
      rfl
    · obtain ⟨lines, hlines, hprints⟩ := ih hlater inBlock
      refine ⟨((if inBlock then "  " else "") ++ s.plain.text) :: lines, ?_, .cons (.statement ?_ hspelled.plain) hprints⟩
      · rw [unlines_cons, ← hlines, ofString_append, ofString_append, List.append_assoc]
        rfl
      · split
        · exact isBlank_of_mem_indent
        · simp

/-- The text of a function called `main` is read as the statements of its instructions. -/
theorem exists_parse_text (file : String) {f : Function} {ss : List Statement} (hname : f.name = "main")
    (h : List.Forall₂ (Statement.Lowers file f.names) ss f.instructions) (hone : f.names.OneToOne)
    (hzero : f.names.NonZero) (hs : ∀ s ∈ ss, s.Spelled) :
    ∃ q, Program.parse (Text.ofString f.text) = .ok q ∧ q.unplaced = Program.unplaced ⟨ss.map Statement.plain⟩ := by
  obtain ⟨lines, hlines, hprints⟩ := prints_renderLines h hone hzero hs false
  have htext : Text.ofString f.text = unlines ((";" ++ " function main") :: lines) := by
    rw [unlines_cons, ← hlines, Function.text, hname, ofString_append, ofString_append, List.append_assoc]
    rfl
  have hclosed : closeLine (Text.ofString f.text) = unlines ((";" ++ " function main") :: lines) := by
    rw [htext, closeLine, if_pos (endsLine_unlines (by simp))]
  obtain ⟨q, hq, hunplaced⟩ := exists_parse_of_prints hclosed (.cons (.comment (by simp)) hprints)
  refine ⟨q, hq, hunplaced.trans ?_⟩
  rw [List.reduceOption_cons_of_none]
  simp [List.reduceOption, List.filterMap_map]

/-! ### The same statements at other places -/

theorem lowerArguments_congr {n : Naming} {as bs : List Argument}
    (h : bs.map Argument.unplaced = (as.map Argument.plain).map Argument.unplaced) :
    lowerArguments n bs = lowerArguments n as := by
  induction as generalizing n bs with
  | nil => rw [List.map_eq_nil_iff.mp h]
  | cons a as ih =>
    obtain ⟨b, bs, rfl, hb, hbs⟩ := List.map_eq_cons_iff.mp h
    have hlower : b.lower n = a.lower n := calc
      b.lower n = b.unplaced.lower n := rfl
      _ = a.plain.unplaced.lower n := by rw [hb]
      _ = a.plain.lower n := rfl
      _ = a.lower n := a.lower_plain n
    rw [lowerArguments, lowerArguments, hlower, ih hbs]

theorem Statement.resolveResult_congr {s s' : Statement} {n : Naming}
    (h : s'.result?.map Word.unplaced = s.result?.map Word.unplaced) : s'.resolveResult n = s.resolveResult n := by
  have heq : ∀ s : Statement, s.resolveResult n = (s.result?.map Word.unplaced).elim (0, n) (n.resolve ·.name) := by
    intro s
    unfold resolveResult
    cases s.result? <;> rfl
  rw [heq s', heq s, h]

/-- Statements that differ in their places and in the spelling of integers make the same instruction. -/
theorem Statement.lower_congr {s s' : Statement} (h : s'.unplaced = s.plain.unplaced) (file file' : String) (n : Naming) :
    (s'.lower file' n).1.unplaced = (s.lower file n).1.unplaced ∧ (s'.lower file' n).2 = (s.lower file n).2 := by
  simp only [Statement.unplaced, Statement.plain, Statement.mk.injEq] at h
  obtain ⟨hresult, hopcode, harguments⟩ := h
  have hopcode : s'.opcode.text = s.opcode.text := (Word.mk.inj hopcode).1
  simp only [Statement.lower, hopcode, resolveResult_congr hresult, lowerArguments_congr harguments,
    Instruction.unplaced, and_self]

end Assembly

theorem Builder.addStatements_congr {ss ss' : List Statement}
    (h : ss'.map Statement.unplaced = (ss.map Statement.plain).map Statement.unplaced) (file file' : String)
    (b b' : Builder)
    (hinstructions : b'.instructions.map Instruction.unplaced = b.instructions.map Instruction.unplaced)
    (hnaming : b'.naming = b.naming) :
    (b'.addStatements file' ss').instructions.map Instruction.unplaced =
      (b.addStatements file ss).instructions.map Instruction.unplaced ∧
    (b'.addStatements file' ss').naming = (b.addStatements file ss).naming := by
  induction ss generalizing ss' b b' with
  | nil =>
    rw [List.map_eq_nil_iff.mp h]
    exact ⟨hinstructions, hnaming⟩
  | cons s ss ih =>
    obtain ⟨s', ss', rfl, hs, hss⟩ := List.map_eq_cons_iff.mp h
    obtain ⟨hinstruction, hafter⟩ := Statement.lower_congr hs file file' b.naming
    refine ih hss (b.addStatement file s) (b'.addStatement file' s') ?_ ?_
    · simp only [addStatement, List.map_append, List.map_singleton, hinstructions, hnaming, hinstruction]
    · simp only [addStatement, hnaming, hafter]

/-- A program without `OpFunction` is lowered to one function, and the text of that function, while no name has the id zero,
is a program that is lowered to the same function: the names have the same ids, and the instructions differ in nothing but
their positions. -/
theorem disassembly_reassembles (file file' : String) {t : Text} {p : Program} (h : Program.parse t = .ok p)
    (hframed : ∀ s ∈ p.statements, s.opcode.text ≠ "OpFunction") :
    ∃ f, (Module.lower file p).1 = ⟨file, [f]⟩ ∧ f.name = "main" ∧ ((∀ entry ∈ f.names.entries, entry.2 ≠ 0) →
      ∃ g, (Module.ofText file' (Text.ofString f.text)).1 = some ⟨file', [g]⟩ ∧ g.name = "main" ∧ g.result = f.result ∧
        g.names = f.names ∧ g.instructions.map Instruction.unplaced = f.instructions.map Instruction.unplaced) := by
  obtain ⟨hmodule, -⟩ := lower_of_not_framed file (line_pos_of_parse h) hframed
  obtain ⟨is, hfunction, -, hlowers⟩ := (Builder.start "main").function_addStatements file p.statements
  have hfaithful : ((Builder.start "main").addStatements file p.statements).naming.table.Faithful :=
    Builder.faithful_addStatements fun _ => ⟨List.nodup_nil, List.nodup_nil⟩
  refine ⟨_, hmodule, by rw [hfunction]; rfl, fun hzero => ?_⟩
  obtain ⟨q, hq, hunplaced⟩ := exists_parse_text file
    (f := ((Builder.start "main").addStatements file p.statements).function) (by rw [hfunction]; rfl)
    (by rw [hfunction]; exact hlowers) (hfaithful hzero) hzero (spelled_of_parse h)
  have hstatements : q.statements.map Statement.unplaced = (p.statements.map Statement.plain).map Statement.unplaced :=
    congrArg Program.statements hunplaced
  -- The text has the same opcodes, so that it is the body of one function again.
  have hplain : ∀ s ∈ q.statements, s.opcode.text ≠ "OpFunction" := by
    intro s hs
    have hmem : s.unplaced ∈ (p.statements.map Statement.plain).map Statement.unplaced :=
      hstatements ▸ List.mem_map_of_mem hs
    obtain ⟨_, hmem, heq⟩ := List.mem_map.mp hmem
    obtain ⟨s', hs', rfl⟩ := List.mem_map.mp hmem
    have hopcode : s'.opcode.text = s.opcode.text := congrArg (fun s => s.opcode.text) heq
    exact hopcode ▸ hframed s' hs'
  obtain ⟨hagain, -⟩ := lower_of_not_framed file' (line_pos_of_parse hq) hplain
  obtain ⟨is', hfunction', -⟩ := (Builder.start "main").function_addStatements file' q.statements
  obtain ⟨hinstructions, hnaming⟩ := Builder.addStatements_congr hstatements file file'
    (Builder.start "main") (Builder.start "main") rfl rfl
  refine ⟨((Builder.start "main").addStatements file' q.statements).function, ?_, ?_, ?_, ?_, hinstructions⟩
  · simp only [Module.ofText, hq, hagain]
  · rw [hfunction']
    rfl
  · rw [hfunction', hfunction]
  · exact congrArg Naming.table hnaming

/-- An unknown mnemonic, a name that is a number, and integers that are printed in another way than they are written. -/
def respelledSample : Text := Text.ofString "%x=OpFoo 0x1F -9223372036854775809 \"\\x41\" %2\n%2 = OpLabel\nOpBranch %x"

def respelledProgram : Program := ⟨[
  ⟨some ⟨"%x", ⟨1, 1, 0⟩⟩, ⟨"OpFoo", ⟨1, 4, 3⟩⟩, [⟨.integer, "0x1F", ⟨1, 10, 9⟩⟩,
    ⟨.integer, "-9223372036854775809", ⟨1, 15, 14⟩⟩, ⟨.string, "A", ⟨1, 36, 35⟩⟩, ⟨.id, "%2", ⟨1, 43, 42⟩⟩]⟩,
  ⟨some ⟨"%2", ⟨2, 1, 45⟩⟩, ⟨"OpLabel", ⟨2, 6, 50⟩⟩, []⟩,
  ⟨none, ⟨"OpBranch", ⟨3, 1, 58⟩⟩, [⟨.id, "%x", ⟨3, 10, 67⟩⟩]⟩]⟩

/-- The sample's function is printed with plain integers and read back. -/
theorem disassembly_reassembles_respelled : Program.parse respelledSample = .ok respelledProgram ∧
    ∃ f, (Module.lower "a" respelledProgram).1 = ⟨"a", [f]⟩ ∧
      f.text = "; function main\n%x = OpFoo 31 -9223372036854775808 \"A\" %2\n%2 = OpLabel\n  OpBranch %x\n" ∧
      ∃ g, (Module.ofText "b" (Text.ofString f.text)).1 = some ⟨"b", [g]⟩ ∧ g.name = "main" ∧ g.result = f.result ∧
        g.names = f.names ∧ g.instructions.map Instruction.unplaced = f.instructions.map Instruction.unplaced := by
  have hparse : Program.parse respelledSample = .ok respelledProgram := by decide +kernel
  have hlowered : ∀ f ∈ (Module.lower "a" respelledProgram).1.functions, (∀ entry ∈ f.names.entries, entry.2 ≠ 0) ∧
      f.text = "; function main\n%x = OpFoo 31 -9223372036854775808 \"A\" %2\n%2 = OpLabel\n  OpBranch %x\n" := by
    decide +kernel
  obtain ⟨f, hf, -, hagain⟩ := disassembly_reassembles "a" "b" hparse (by decide)
  obtain ⟨hzero, htext⟩ := hlowered f (by rw [hf]; exact List.mem_singleton_self f)
  exact ⟨hparse, f, hf, htext, hagain hzero⟩

end FlowTree
