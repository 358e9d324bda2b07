import FlowTree.CommandLine.Flags
import FlowTree.Text.EditDistance
import FlowTree.Text.Lowercase

/-!
Invocations: what a list of arguments asks for. The command is the first argument that is neither a flag
nor the value of one. Only the common flags are known before it, so any other flag there is taken to
have a value.
-/

namespace FlowTree.CommandLine

/-- A flag of one letter that is known before the command and needs no value. -/
def isBareLetter (argument : String) : Bool :=
  match argument.toList with
  | ['-', letter] => Flag.common.any fun f => f.letter? = some letter && f.bare?.isSome
  | _ => false

/-- The argument is a flag that the next argument is the value of. -/
def takesNext (argument : String) : Bool :=
  if argument.toList.contains '=' then false
  else match afterDashes? argument with
    | some name => !Flag.common.any fun f => f.name = name && f.bare?.isSome
    | none => isDashed argument && argument.utf8ByteSize = 2 && !isBareLetter argument

/-- The first argument that may be a command. -/
def commandWord? : List String → Option String
  | [] => none
  | argument :: more =>
    if argument = "--" then none
    else if takesNext argument then
      -- The value is never a command, and nothing is looked for when it comes last.
      match more with
      | _ :: next :: rest => commandWord? (next :: rest)
      | _ => none
    else if argument ≠ "" && !isDashed argument then some argument
    else commandWord? more

/-- The arguments without the word of the command. -/
def withoutWord (word : String) : List String → List String
  | [] => []
  | argument :: more =>
    if argument = "--" then argument :: more
    else if takesNext argument then
      match more with
      | value :: rest => argument :: value :: withoutWord word rest
      | [] => [argument]
    else if argument = word && !isDashed argument then more
    else argument :: withoutWord word more

/-- The names that are offered in place of an unknown one: those within two edits of it, and those that
it is the start of. -/
def suggestionsFor (word : String) : List String :=
  let typed := Text.lowered word
  (Command.table.filterMap fun (c, name) => if c = .help then none else some name).filter fun name =>
    Text.nameDistance typed name ≤ 2 || typed.toList.isPrefixOf name.toList

/-- What is asked for. -/
inductive Invocation where
  /-- To explain the program. -/
  | help
  | version
  | run (c : Command) (o : Options) (arguments : List String)
  deriving DecidableEq, Repr

/-- Check the number of arguments of a command. -/
def checkCount (c : Command) (arguments : List String) : Except UsageError Unit :=
  match c, arguments with
  | .trees, [] | .graphs, [] | .check, [] => .error (.tooFewArguments 1 0)
  | .repl, word :: _ | .completionOf _, word :: _ => .error (.unknownCommand word c [])
  | _, _ => .ok ()

/-- What the arguments of a command ask for. -/
def Invocation.ofCommand (c : Command) (arguments : List String) : Except UsageError Invocation := do
  let (o, words) ← takeFlags (Flag.common ++ c.flags) {} arguments
  if o.help then .ok .help
  else if o.version then .ok .version
  else if c = .root || c = .completion then .ok .help
  else do
    checkCount c words
    .ok (.run c o words)

/-- The command that the arguments of a command go on with, and its own arguments. -/
def Command.next? (c : Command) (arguments : List String) : Option (Command × List String) := do
  let word ← commandWord? arguments
  let (next, _) ← c.following.find? (·.2 = word)
  some (next, withoutWord word arguments)

/-- What the arguments of the program ask for. -/
def Invocation.ofArguments (arguments : List String) : Except UsageError Invocation :=
  match Command.next? .root arguments, commandWord? arguments with
  | some (c, rest), _ =>
    let (c, rest) := (c.next? rest).getD (c, rest)
    Invocation.ofCommand c rest
  | none, some word => .error (.unknownCommand word .root (suggestionsFor word))
  | none, none => Invocation.ofCommand .root arguments

end FlowTree.CommandLine
