import FlowTree.Data.Yaml.Timestamp
import FlowTree.Number.Double
import FlowTree.Text.Integer

/-!
What a plain scalar stands for. Without quotes, a scalar may be null, a truth value, a number or a
timestamp; any other is a text. A text is written without quotes only where it would be read back as
one, here and by readers of the older rules, which know more truth values and numbers in base sixty.
-/

namespace FlowTree.Yaml

/-- A number with a fraction. -/
inductive Real where
  | finite (negative : Bool) (magnitude : Double)
  | infinite (negative : Bool)
  | notANumber
  deriving DecidableEq, Repr

/-- The whole part of a number, `none` above the range of 64 bits. What lies beyond the range but is not
above it takes the lowest value. -/
def Real.toInt? : Real → Option Int
  | .notANumber | .infinite false => none
  | .infinite true => some (-Text.signedLimit)
  | .finite negative magnitude =>
    let n := magnitude.truncate
    if negative then some (max (-(n : Int)) (-Text.signedLimit))
    else if n < Text.signedLimit then some n
    else
      let (numerator, denominator) := magnitude.quotient
      if numerator = Text.signedLimit * denominator then some (-Text.signedLimit) else none

/-- What a plain scalar stands for. -/
inductive Meaning where
  | null
  | bool (b : Bool)
  | int (n : Int)
  | real (x : Real)
  | timestamp
  | text
  deriving DecidableEq, Repr

/-- The scalars with a meaning of their own. -/
def words : List (String × Meaning) := [
  ("", .null), ("~", .null), ("null", .null), ("Null", .null), ("NULL", .null),
  ("true", .bool true), ("True", .bool true), ("TRUE", .bool true),
  ("false", .bool false), ("False", .bool false), ("FALSE", .bool false),
  (".nan", .real .notANumber), (".NaN", .real .notANumber), (".NAN", .real .notANumber),
  (".inf", .real (.infinite false)), (".Inf", .real (.infinite false)), (".INF", .real (.infinite false)),
  ("+.inf", .real (.infinite false)), ("+.Inf", .real (.infinite false)), ("+.INF", .real (.infinite false)),
  ("-.inf", .real (.infinite true)), ("-.Inf", .real (.infinite true)), ("-.INF", .real (.infinite true))]

/-- The exponent that the characters spell, all of them. -/
def exponent? : List Char → Option Int
  | [] => some 0
  | mark :: rest => do
    let (negative, digits) := Text.splitSign rest
    if (mark = 'e' || mark = 'E') && !digits.isEmpty && digits.all Char.isDigit then
      let n ← Text.ofDigits? 10 digits
      some (if negative then -(n : Int) else n)
    else none

/-- The decimal number that the characters spell: digits with a point anywhere among them, and an
exponent. -/
def decimal? (cs : List Char) : Option Decimal := do
  let (negative, cs) := Text.splitSign cs
  let whole := cs.takeWhile Char.isDigit
  let rest := cs.dropWhile Char.isDigit
  let (fraction, rest) := match rest with
    | '.' :: rest => (rest.takeWhile Char.isDigit, rest.dropWhile Char.isDigit)
    | rest => ([], rest)
  if whole.isEmpty && fraction.isEmpty then none
  let digits ← Text.ofDigits? 10 (whole ++ fraction)
  let exponent ← exponent? rest
  some ⟨negative, digits, exponent - fraction.length⟩

/-- The number that the characters spell, `none` when it is too great. -/
def real? (cs : List Char) : Option Real := do
  let d ← decimal? cs
  some (.finite d.negative (← d.double?))

/-- The integer that the digits spell in a base, with a sign. -/
def integerIn? (base : Nat) (cs : List Char) : Option Int :=
  let (negative, digits) := Text.splitSign cs
  if digits.isEmpty then none
  else
    let literal := Text.clampSigned negative (Text.readMagnitude base 0 digits)
    if literal.error?.isSome then none else some literal.value

/-- The integer that the characters spell: in the base that they name, up to 64 bits without a sign. The
marks of bases two and eight may also stand before a sign. -/
def integer? (cs : List Char) : Option Int :=
  let literal := Text.readInteger (String.ofList cs)
  if literal.error?.isNone then some literal.value
  else match Text.readNatural cs with
    | .ok n => some n
    | .error _ =>
      match cs with
      | '0' :: 'b' :: rest => integerIn? 2 rest
      | '0' :: 'o' :: rest => integerIn? 8 rest
      | _ => none

/-- The meaning of a scalar that starts with a digit or a sign. Underscores between digits do not
count. -/
def numberMeaning (cs : List Char) : Meaning :=
  if isTimestamp cs then .timestamp
  else
    let plain := cs.filter (· ≠ '_')
    match integer? plain with
    | some n => .int n
    | none => ((real? plain).map Meaning.real).getD .text

/-- The meaning of a scalar that starts with a point. -/
def pointMeaning (cs : List Char) : Meaning :=
  if cs.contains '_' && !Text.separatorsOk cs then .text
  else ((real? (cs.filter (· ≠ '_'))).map Meaning.real).getD .text

/-- What a plain scalar stands for. -/
def meaning (s : String) : Meaning :=
  match words.lookup s with
  | some m => m
  | none =>
    match s.toList with
    | [] => .null
    | c :: cs =>
      if c = '.' then pointMeaning (c :: cs)
      else if c.isDigit || c = '+' || c = '-' then numberMeaning (c :: cs)
      else .text

/-- The words that older rules take for truth values. -/
def oldTruthValues : List (String × Bool) := [
  ("y", true), ("Y", true), ("yes", true), ("Yes", true), ("YES", true), ("on", true), ("On", true),
  ("ON", true), ("n", false), ("N", false), ("no", false), ("No", false), ("NO", false), ("off", false),
  ("Off", false), ("OFF", false)]

/-- Groups of base sixty, each after a colon, then a fraction. `found` tells that there was a group. -/
def isBaseSixtyTail (found : Bool) : List Char → Bool
  | [] => found
  | '.' :: rest => found && rest.all fun c => c.isDigit || c = '_'
  | ':' :: a :: b :: rest =>
    if a.isDigit && b.isDigit then a ≤ '5' && isBaseSixtyTail true rest
    else a.isDigit && isBaseSixtyTail true (b :: rest)
  | [':', a] => a.isDigit
  | _ => false

/-- The text is a number in base sixty, such as `12:30:45`. -/
def isBaseSixty (s : String) : Bool :=
  match (Text.splitSign s.toList).2 with
  | [] => false
  | c :: rest => c.isDigit && isBaseSixtyTail false (rest.dropWhile fun c => c.isDigit || c = '_')

/-- A plain scalar of this text is read as a text by all. -/
def isPlainText (s : String) : Bool :=
  meaning s = .text && !isBaseSixty s && (oldTruthValues.lookup s).isNone

end FlowTree.Yaml
