import FlowTree.Function.Lowering
import FlowTree.Proofs.Function.Naming
import FlowTree.Proofs.Sequences

/-!
Statements as instructions. What a statement becomes depends on the names that are bound before it and on nothing else;
what it refers to by name, the instruction refers to by the ids that the finished table has for the names (`Lowers`).
-/

namespace FlowTree

open Assembly

namespace Opcode

theorem eq_of_mnemonic_eq : ∀ e ∈ table, ∀ e' ∈ table, e.2.2 = e'.2.2 → e = e' := by
  decide +kernel

/-- The opcode of a mnemonic is the one that the table lists with it. -/
theorem ofMnemonic_eq {e : Opcode × UInt16 × String} (he : e ∈ table) {m : String} : ofMnemonic m = e.1 ↔ m = e.2.2 := by
  have hknown : ∀ e ∈ table, e.1 ≠ .unknown := by decide
  have hops : ∀ e ∈ table, ∀ e' ∈ table, e.1 = e'.1 → e = e' := by decide +kernel
  unfold ofMnemonic
  cases hfound : table.find? (·.2.2 = m) with
  | none =>
    have hne := List.find?_eq_none.mp hfound e he
    simp only [decide_eq_true_eq] at hne
    simp only [Option.map_none, Option.getD_none]
    exact ⟨fun h => absurd h.symm (hknown e he), fun h => absurd h.symm hne⟩
  | some e' =>
    have he' := List.mem_of_find?_eq_some hfound
    have hm : e'.2.2 = m := by simpa using List.find?_some hfound
    simp only [Option.map_some, Option.getD_some]
    constructor
    · intro h
      rw [← hops e' he' e he h, hm]
    · intro h
      rw [eq_of_mnemonic_eq e' he' e he (hm.trans h)]

/-- A mnemonic that names an opcode is that opcode's name. -/
theorem name_ofMnemonic {m : String} (h : ofMnemonic m ≠ .unknown) : (ofMnemonic m).name = m := by
  have hnames : ∀ e ∈ table, e.1.name = e.2.2 := by decide +kernel
  unfold ofMnemonic at h ⊢
  cases hfound : table.find? (·.2.2 = m) with
  | none =>
    rw [hfound] at h
    exact absurd rfl h
  | some e =>
    have hm : e.2.2 = m := by simpa using List.find?_some hfound
    simpa [hm] using hnames e (List.mem_of_find?_eq_some hfound)

end Opcode

/-! ### Statements under names -/

namespace Assembly

/-- The operand of an argument, and the names after it. -/
def Argument.lower (n : Naming) (a : Argument) : Operand × Naming :=
  match a.kind with
  | .id => (.ofId (n.resolve a.value).1, (n.resolve a.value).2)
  | .integer => (.ofLiteral (Text.readInteger a.value).value, n)
  | .float => (⟨.float, 0, 0, a.value⟩, n)
  | .string => (⟨.string, 0, 0, a.value⟩, n)
  | .word => (.ofEnumerant a.value, n)

/-- The operands of arguments, and the names after them. -/
def lowerArguments (n : Naming) : List Argument → List Operand × Naming
  | [] => ([], n)
  | a :: rest =>
    ((a.lower n).1 :: (lowerArguments (a.lower n).2 rest).1, (lowerArguments (a.lower n).2 rest).2)

/-- The id of a statement's result, and the names after it. -/
def Statement.resolveResult (n : Naming) (s : Statement) : Id × Naming :=
  match s.result? with
  | some w => n.resolve w.name
  | none => (0, n)

/-- The instruction of a statement, and the names after it. -/
def Statement.lower (file : String) (n : Naming) (s : Statement) : Instruction × Naming :=
  let operands := lowerArguments (s.resolveResult n).2 s.arguments
  ({ op := Opcode.ofMnemonic s.opcode.text
     mnemonic := s.opcode.text
     result := (s.resolveResult n).1
     operands := operands.1
     position := s.start.inFile file }, operands.2)

/-- The operand stands for the argument: ids are those of the names, and integers are read. -/
def Argument.Denotes (names : NameTable) (a : Argument) (o : Operand) : Prop :=
  match a.kind with
  | .id => ∃ id, names.id? (Naming.bare a.value) = some id ∧ o = .ofId id
  | .integer => o = .ofLiteral (Text.readInteger a.value).value
  | .float => o = ⟨.float, 0, 0, a.value⟩
  | .string => o = ⟨.string, 0, 0, a.value⟩
  | .word => o = .ofEnumerant a.value

/-- The id is that of the result, zero if there is none. -/
def Statement.ResultIs (names : NameTable) (s : Statement) (id : Id) : Prop :=
  match s.result? with
  | some w => names.id? (Naming.bare w.name) = some id
  | none => id = 0

/-- The instruction is the statement with ids for names. -/
structure Statement.Lowers (file : String) (names : NameTable) (s : Statement) (i : Instruction) : Prop where
  op : i.op = Opcode.ofMnemonic s.opcode.text
  mnemonic : i.mnemonic = s.opcode.text
  result : s.ResultIs names i.result
  operands : List.Forall₂ (Argument.Denotes names) s.arguments i.operands
  position : i.position = s.start.inFile file

section
variable {n : Naming} {names names' : NameTable}

theorem Argument.Denotes.mono {a : Argument} {o : Operand} (h : a.Denotes names o)
    (hgrown : names.entries <+: names'.entries) : a.Denotes names' o := by
  unfold Denotes at h ⊢
  cases hkind : a.kind <;> simp only [hkind] at h ⊢
  case id =>
    obtain ⟨id, hid, ho⟩ := h
    exact ⟨id, NameTable.id?_of_prefix hgrown hid, ho⟩
  all_goals exact h

theorem Statement.ResultIs.mono {s : Statement} {id : Id} (h : s.ResultIs names id)
    (hgrown : names.entries <+: names'.entries) : s.ResultIs names' id := by
  unfold ResultIs at h ⊢
  split
  · simp only [‹s.result? = _›] at h
    exact NameTable.id?_of_prefix hgrown h
  · simpa only [‹s.result? = _›] using h

theorem Statement.Lowers.mono {file : String} {s : Statement} {i : Instruction} (h : s.Lowers file names i)
    (hgrown : names.entries <+: names'.entries) : s.Lowers file names' i :=
  ⟨h.op, h.mnemonic, h.result.mono hgrown, h.operands.imp fun _ _ ha => ha.mono hgrown, h.position⟩

theorem Argument.prefix_lower (n : Naming) (a : Argument) : n.table.entries <+: (a.lower n).2.table.entries := by
  unfold lower
  split
  · exact n.prefix_resolve a.value
  all_goals exact List.prefix_refl _

theorem prefix_lowerArguments (n : Naming) (as : List Argument) :
    n.table.entries <+: (lowerArguments n as).2.table.entries := by
  induction as generalizing n with
  | nil => exact List.prefix_refl _
  | cons a as ih => exact (a.prefix_lower n).trans (ih _)

theorem Statement.prefix_resolveResult (n : Naming) (s : Statement) :
    n.table.entries <+: (s.resolveResult n).2.table.entries := by
  unfold resolveResult
  split
  · exact n.prefix_resolve _
  · exact List.prefix_refl _

theorem Statement.prefix_lower (file : String) (n : Naming) (s : Statement) :
    n.table.entries <+: (s.lower file n).2.table.entries :=
  (s.prefix_resolveResult n).trans (prefix_lowerArguments _ _)

theorem Argument.denotes_lower (n : Naming) (a : Argument) : a.Denotes (a.lower n).2.table (a.lower n).1 := by
  unfold Denotes lower
  cases a.kind
  case id => exact ⟨_, n.id?_resolve a.value, rfl⟩
  all_goals rfl

theorem denotes_lowerArguments (n : Naming) (as : List Argument) :
    List.Forall₂ (Argument.Denotes (lowerArguments n as).2.table) as (lowerArguments n as).1 := by
  induction as generalizing n with
  | nil => exact .nil
  | cons a as ih => exact .cons ((a.denotes_lower n).mono (prefix_lowerArguments _ as)) (ih _)

theorem Statement.resultIs_resolveResult (n : Naming) (s : Statement) :
    s.ResultIs (s.resolveResult n).2.table (s.resolveResult n).1 := by
  unfold ResultIs resolveResult
  cases s.result? with
  | some w => exact n.id?_resolve w.name
  | none => rfl

/-- The table that a statement leaves has the ids of its instruction. -/
theorem Statement.lowers_lower (file : String) (n : Naming) (s : Statement) :
    s.Lowers file (s.lower file n).2.table (s.lower file n).1 :=
  ⟨rfl, rfl, (s.resultIs_resolveResult n).mono (prefix_lowerArguments _ _), denotes_lowerArguments _ _, rfl⟩

section
variable {P : Naming → Prop} (hP : ∀ n name, P n → P (n.resolve name).2)
include hP

theorem Argument.lower_keeps {a : Argument} (h : P n) : P (a.lower n).2 := by
  unfold lower
  split
  · exact hP n a.value h
  all_goals exact h

theorem lowerArguments_keeps {as : List Argument} (h : P n) : P (lowerArguments n as).2 := by
  induction as generalizing n with
  | nil => exact h
  | cons a as ih => exact ih (a.lower_keeps hP h)

/-- Statements name things by resolving names only, so they keep what resolving keeps. -/
theorem Statement.lower_keeps (file : String) (s : Statement) (h : P n) : P (s.lower file n).2 := by
  refine lowerArguments_keeps hP ?_
  unfold resolveResult
  split
  · exact hP n _ h
  · exact h

end

end

end Assembly

/-! ### Statements in a builder and in a module -/

namespace Builder

/-- The builder with the instruction of one more statement. -/
def addStatement (file : String) (b : Builder) (s : Statement) : Builder :=
  { b with
    instructions := b.instructions ++ [(s.lower file b.naming).1]
    naming := (s.lower file b.naming).2 }

/-- The builder with the instructions of statements. -/
def addStatements (file : String) (b : Builder) (ss : List Statement) : Builder := ss.foldl (addStatement file) b

variable {file : String} {b : Builder} {ss : List Statement}

/-- The function that a builder with statements makes has an instruction for each of them, and keeps its name and result. -/
theorem function_addStatements (file : String) (b : Builder) (ss : List Statement) :
    ∃ is, (b.addStatements file ss).function =
      ⟨b.name, b.result, b.instructions ++ is, (b.addStatements file ss).naming.table⟩ ∧
      b.naming.table.entries <+: (b.addStatements file ss).naming.table.entries ∧
      List.Forall₂ (Statement.Lowers file (b.addStatements file ss).naming.table) ss is := by
  induction ss generalizing b with
  | nil => exact ⟨[], by simp [addStatements, function], List.prefix_refl _, .nil⟩
  | cons s ss ih =>
    obtain ⟨is, hfunction, hgrown, hlowers⟩ := ih (b.addStatement file s)
    refine ⟨(s.lower file b.naming).1 :: is, ?_, (s.prefix_lower file b.naming).trans hgrown,
      .cons ((s.lowers_lower file b.naming).mono hgrown) hlowers⟩
    rw [addStatements, List.foldl_cons, ← addStatements, hfunction]
    simp [addStatement]

theorem addStatements_keeps {P : Naming → Prop} (hP : ∀ n name, P n → P (n.resolve name).2) (h : P b.naming) :
    P (b.addStatements file ss).naming := by
  induction ss generalizing b with
  | nil => exact h
  | cons s ss ih => exact ih (b := b.addStatement file s) (s.lower_keeps hP file h)

theorem faithful_addStatements (h : b.naming.table.Faithful) : (b.addStatements file ss).naming.table.Faithful :=
  addStatements_keeps (P := fun n => n.table.Faithful) (fun _ name h => Naming.faithful_resolve h name) h

end Builder

/-- The reports on integers among the statements' operands that are no integers of 64 bits. -/
def invalidLiterals (file : String) (ss : List Statement) : List Diagnostic :=
  ((ss.flatMap Statement.arguments).filter fun a => a.kind = .integer && (Text.readInteger a.value).error?.isSome).map
    fun a => .invalidLiteral a.value (a.start.inFile file)

/-- The mnemonic is reported where it stands. -/
def isNewUnknown (warned : List String) (m : String) : Bool := Opcode.ofMnemonic m = .unknown && !warned.contains m

namespace Lowering

theorem operand_eq (file : String) (b : Builder) (a : Argument) : operand file b a =
    ((a.lower b.naming).1, { b with naming := (a.lower b.naming).2 },
      if a.kind = .integer && (Text.readInteger a.value).error?.isSome then [.invalidLiteral a.value (a.start.inFile file)]
      else []) := by
  unfold operand Argument.lower Builder.id
  cases hkind : a.kind <;> simp

theorem operands_eq (file : String) (b : Builder) (as : List Argument) : operands file b as =
    ((lowerArguments b.naming as).1, { b with naming := (lowerArguments b.naming as).2 },
      (as.filter fun a => a.kind = .integer && (Text.readInteger a.value).error?.isSome).map
        fun a => .invalidLiteral a.value (a.start.inFile file)) := by
  induction as generalizing b with
  | nil => rfl
  | cons a as ih =>
    simp only [operands, operand_eq, ih, lowerArguments, List.filter_cons]
    split <;> rfl

/-- A module in the making with one more statement in its open function. -/
def withStatement (l : Lowering) (b : Builder) (start : Position) (s : Statement) : Lowering :=
  { l with
    open? := some (b.addStatement l.file s, start)
    warned := if isNewUnknown l.warned s.opcode.text then s.opcode.text :: l.warned else l.warned
    diagnostics := l.diagnostics ++ (if isNewUnknown l.warned s.opcode.text then
      [.unknownOpcode s.opcode.text (s.start.inFile l.file)] else []) ++ invalidLiterals l.file [s] }

theorem instruction_eq (l : Lowering) (b : Builder) (start : Position) {s : Statement} (hline : 0 < s.start.line) :
    l.instruction b start s = l.withStatement b start s := by
  have hvalid : (s.start.inFile l.file).isValid = true := by
    simpa [Position.isValid, Cursor.inFile] using hline
  unfold instruction withStatement isNewUnknown
  simp only [operands_eq]
  cases hresult : s.result? <;> split <;>
    simp [report, Builder.append, Builder.addStatement, Builder.id, Statement.lower, Statement.resolveResult,
      invalidLiterals, *]

end Lowering

end FlowTree
