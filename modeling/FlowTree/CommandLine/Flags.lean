import FlowTree.Text.Integer
import FlowTree.Text.Quoted

/-!
Flags: the options of the command line. Some hold for every command, others for one. A flag is written
with two dashes, its value after an equals sign or as the next argument; flags of one letter may stand
together after one dash.
-/

namespace FlowTree.CommandLine

/-- A shell for which completions can be written. -/
inductive Shell where
  | bash
  | fish
  | powershell
  | zsh
  deriving DecidableEq, Repr

def Shell.name : Shell → String
  | .bash => "bash"
  | .fish => "fish"
  | .powershell => "powershell"
  | .zsh => "zsh"

/-- What a run is asked to do. -/
inductive Command where
  /-- No command at all. -/
  | root
  /-- Print structure trees. -/
  | trees
  /-- Print control-flow graphs. -/
  | graphs
  /-- Report diagnostics only. -/
  | check
  /-- Read assembly interactively. -/
  | repl
  /-- Explain the program. -/
  | help
  /-- Explain completions. -/
  | completion
  /-- Explain the completions of a shell. -/
  | completionOf (shell : Shell)
  deriving DecidableEq, Repr

/-- The commands with their names. -/
def Command.table : List (Command × String) := [
  (.trees, "structure"), (.graphs, "cfg"), (.check, "check"), (.repl, "repl"), (.help, "help"),
  (.completion, "completion")]

/-- The commands that may follow a command, with their names. -/
def Command.following : Command → List (Command × String)
  | .root => Command.table
  | .completion => [Shell.bash, .fish, .powershell, .zsh].map fun shell => (.completionOf shell, shell.name)
  | _ => []

def programName : String := "shaderflow"

/-- The program and the command, as they are typed. -/
def Command.path (c : Command) : String :=
  match c, Command.table.lookup c with
  | .completionOf shell, _ => programName ++ " completion " ++ shell.name
  | _, some name => programName ++ " " ++ name
  | _, none => programName

/-- An option of the command line. -/
inductive Flag where
  | config
  | format
  | noColor
  | verbose
  | parallel
  | depth
  | blocks
  | dominators
  | noDescriptions
  | help
  | version
  deriving DecidableEq, Repr

namespace Flag

/-- The name of a flag, which stands after two dashes. -/
def name : Flag → String
  | .config => "config"
  | .format => "format"
  | .noColor => "no-color"
  | .verbose => "verbose"
  | .parallel => "parallel"
  | .depth => "depth"
  | .blocks => "blocks"
  | .dominators => "dominators"
  | .noDescriptions => "no-descriptions"
  | .help => "help"
  | .version => "version"

/-- The letter of a flag, which stands after one dash. -/
def letter? : Flag → Option Char
  | .verbose => some 'v'
  | .help => some 'h'
  | _ => none

/-- The value of a flag that is given without one; some flags need a value. -/
def bare? : Flag → Option String
  | .config | .format | .parallel => none
  | .verbose => some "+1"
  | _ => some "true"

/-- The flags that hold for every command. -/
def common : List Flag := [.config, .format, .noColor, .verbose, .parallel]

/-- How a flag is named in messages. -/
def mention (f : Flag) : String :=
  match f.letter? with
  | some letter => "-" ++ String.singleton letter ++ ", --" ++ f.name
  | none => "--" ++ f.name

/-- How a letter that is no flag is shown. For letters beyond ASCII there is one sign, whichever it is. -/
def letterShown (letter : Char) : Char := if letter.toNat < 0x80 then letter else 'Ã'

end Flag

/-- The flags of a command beside the common ones. -/
def Command.flags : Command → List Flag
  | .root => [.help, .version]
  | .trees => [.depth, .blocks, .help]
  | .graphs => [.dominators, .help]
  | .completionOf _ => [.noDescriptions, .help]
  | .check | .repl | .help | .completion => [.help]

/-- What the flags say. A flag that is not given says nothing. -/
structure Options where
  config : String := ""
  format? : Option String := none
  noColor? : Option Bool := none
  verbose? : Option Int := none
  parallel? : Option Int := none
  depth : Bool := false
  blocks : Bool := false
  dominators : Bool := false
  noDescriptions : Bool := false
  help : Bool := false
  version : Bool := false
  deriving DecidableEq, Repr

/-- What is wrong with the arguments. -/
inductive UsageError where
  | badFlag (argument : String)
  | unknownFlag (name : String)
  /-- A letter that is no flag, before the letters that follow it. -/
  | unknownLetter (letter : Char) (more : String)
  | noValue (argument : String)
  | badValue (f : Flag) (value reason : String)
  | unknownCommand (word : String) (c : Command) (suggestions : List String)
  | tooFewArguments (least count : Nat)
  deriving DecidableEq, Repr

/-- The error in words. -/
def UsageError.message : UsageError → String
  | .badFlag argument => "bad flag syntax: " ++ argument
  | .unknownFlag name => "unknown flag: --" ++ name
  | .unknownLetter letter more =>
    "unknown shorthand flag: " ++ Text.quoteSingle (Flag.letterShown letter) ++ " in -" ++
      String.singleton letter ++ more
  | .noValue argument => "flag needs an argument: " ++ argument
  | .badValue f value reason =>
    "invalid argument " ++ Text.quoteString value ++ " for " ++ Text.quoteString f.mention ++ " flag: " ++ reason
  | .unknownCommand word c suggestions =>
    "unknown command " ++ Text.quoteString word ++ " for " ++ Text.quoteString c.path ++
      if suggestions.isEmpty then ""
      else "\n\nDid you mean this?\n" ++ String.join (suggestions.map fun s => "\t" ++ s ++ "\n")
  | .tooFewArguments least count =>
    "requires at least " ++ toString least ++ " arg(s), only received " ++ toString count

/-! ### Values -/

/-- The truth value that a text spells. -/
def truthValue? (s : String) : Option Bool :=
  if ["1", "t", "T", "TRUE", "true", "True"].contains s then some true
  else if ["0", "f", "F", "FALSE", "false", "False"].contains s then some false
  else none

/-- The truth value of a flag. -/
def readSwitch (f : Flag) (value : String) : Except UsageError Bool :=
  match truthValue? value with
  | some b => .ok b
  | none => .error (.badValue f value
      ("strconv.ParseBool: parsing " ++ Text.quoteString value ++ ": " ++ Text.LiteralError.malformed.message))

def readNumber (f : Flag) (value : String) : Except UsageError Int :=
  let literal := Text.readInteger value
  match literal.error? with
  | none => .ok literal.value
  | some e => .error (.badValue f value
      ("strconv.ParseInt: parsing " ++ Text.quoteString value ++ ": " ++ e.message))

def Options.set (o : Options) (f : Flag) (value : String) : Except UsageError Options :=
  match f with
  | .config => .ok { o with config := value }
  | .format => .ok { o with format? := some value }
  | .noColor => do .ok { o with noColor? := some (← readSwitch f value) }
  | .verbose =>
    -- Without a value the flag counts up, on a number of 64 bits.
    if value = "+1" then .ok { o with verbose? := some ((o.verbose?.getD 0 + 1).bmod UInt64.size) }
    else do .ok { o with verbose? := some (← readNumber f value) }
  | .parallel => do .ok { o with parallel? := some (← readNumber f value) }
  | .depth => do .ok { o with depth := ← readSwitch f value }
  | .blocks => do .ok { o with blocks := ← readSwitch f value }
  | .dominators => do .ok { o with dominators := ← readSwitch f value }
  | .noDescriptions => do .ok { o with noDescriptions := ← readSwitch f value }
  | .help => do .ok { o with help := ← readSwitch f value }
  | .version => do .ok { o with version := ← readSwitch f value }

/-! ### Arguments -/

/-- The argument starts with a dash. -/
def isDashed (argument : String) : Bool := argument.toList.head? = some '-'

/-- What follows the two dashes that an argument starts with. -/
def afterDashes? (argument : String) : Option String :=
  match argument.toList with
  | '-' :: '-' :: rest => some (String.ofList rest)
  | _ => none

/-- The parts of a text before and after its first equals sign. -/
def cutEquals (s : String) : String × Option String :=
  match s.toList.dropWhile (· ≠ '=') with
  | [] => (s, none)
  | _ :: value => (String.ofList (s.toList.takeWhile (· ≠ '=')), some (String.ofList value))

/-- What the flags of a test run start with. They say nothing to the program. -/
def testStem : List Char := "test.".toList

/-- Take flags of one letter that stand together. None of them needs a value, but one may be given after
an equals sign. What looks like a flag of a test run is passed over. -/
def takeLetters (flags : List Flag) : Options → List Char → Except UsageError Options
  | o, [] => .ok o
  | o, letter :: rest =>
    if testStem.isPrefixOf (letter :: rest) then .ok o
    else match flags.find? (·.letter? = some letter) with
    | none => .error (.unknownLetter letter (String.ofList rest))
    | some f =>
      match rest with
      | '=' :: v :: value => o.set f (String.ofList (v :: value))
      | rest => do takeLetters flags (← o.set f (f.bare?.getD "")) rest

/-- Take the flags among arguments; all other arguments are kept in order, and those after two dashes
alone are no flags. -/
def takeFlags (flags : List Flag) : Options → List String → Except UsageError (Options × List String)
  | o, [] => .ok (o, [])
  | o, argument :: more =>
    if !isDashed argument || argument = "-" then do
      let (o, words) ← takeFlags flags o more
      .ok (o, argument :: words)
    else if argument = "--" then .ok (o, more)
    else match afterDashes? argument with
      | none => do takeFlags flags (← takeLetters flags o (argument.toList.drop 1)) more
      | some body =>
        if body.toList.head?.any fun c => c = '-' || c = '=' then .error (.badFlag argument)
        else
          let (name, value?) := cutEquals body
          match flags.find? (·.name = name), value? with
          | none, _ => .error (.unknownFlag name)
          | some f, some value => do takeFlags flags (← o.set f value) more
          | some f, none =>
            match f.bare? with
            | some value => do takeFlags flags (← o.set f value) more
            | none =>
              match more with
              | value :: rest => do takeFlags flags (← o.set f value) rest
              | [] => .error (.noValue argument)

end FlowTree.CommandLine
