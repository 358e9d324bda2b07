import FlowTree.Text.Digits

/-!
Timestamps as plain scalars: a date, a date and a time with a zone, or a date and a time after blanks.
Only whether a text is one matters, so its parts are checked and not kept.
-/

namespace FlowTree.Yaml

/-- A number of one or two digits at the start, and what follows it. -/
def shortNumber? : List Char → Option (Nat × List Char)
  | a :: b :: rest =>
    if !a.isDigit then none
    else if b.isDigit then (Text.ofDigits? 10 [a, b]).map (·, rest)
    else (Text.ofDigits? 10 [a]).map (·, b :: rest)
  | [a] => if a.isDigit then (Text.ofDigits? 10 [a]).map (·, []) else none
  | [] => none

/-- What follows the given character at the start. -/
def after? (c : Char) : List Char → Option (List Char)
  | [] => none
  | d :: rest => if c = d then some rest else none

/-- The year has a 29 February. -/
def isLeapYear (year : Nat) : Bool := year % 4 = 0 && (year % 100 ≠ 0 || year % 400 = 0)

/-- The number of days in a month. -/
def daysIn (year month : Nat) : Nat :=
  if month = 2 then if isLeapYear year then 29 else 28
  else if month = 4 || month = 6 || month = 9 || month = 11 then 30
  else 31

/-- What follows a date such as `2006-1-2`: a year of four digits, then a month and a day. -/
def afterDate? (cs : List Char) : Option (List Char) := do
  let digits := cs.takeWhile Char.isDigit
  if digits.length ≠ 4 then none
  let year ← Text.ofDigits? 10 digits
  let (month, rest) ← shortNumber? (← after? '-' (cs.drop 4))
  let (day, rest) ← shortNumber? (← after? '-' rest)
  if 1 ≤ month && month ≤ 12 && 1 ≤ day && day ≤ daysIn year month then some rest else none

/-- What follows a fraction of a second, if there is one. -/
def afterFraction : List Char → List Char
  | mark :: d :: rest =>
    if (mark = '.' || mark = ',') && d.isDigit then rest.dropWhile Char.isDigit else mark :: d :: rest
  | cs => cs

/-- What follows a time such as `15:4:5.25`. -/
def afterTime? (cs : List Char) : Option (List Char) := do
  let (hour, rest) ← shortNumber? cs
  let (minute, rest) ← shortNumber? (← after? ':' rest)
  let (second, rest) ← shortNumber? (← after? ':' rest)
  if hour < 24 && minute < 60 && second < 60 then some (afterFraction rest) else none

/-- What follows a zone: `Z`, or an offset of hours and minutes such as `+07:00`. -/
def afterZone? : List Char → Option (List Char)
  | 'Z' :: rest => some rest
  | sign :: a :: b :: ':' :: c :: d :: rest => do
    let hours ← Text.ofDigits? 10 [a, b]
    let minutes ← Text.ofDigits? 10 [c, d]
    if (sign = '+' || sign = '-') && a.isDigit && b.isDigit && c.isDigit && d.isDigit &&
        hours ≤ 24 && minutes ≤ 60 then some rest else none
  | _ => none

/-- The text is a timestamp. -/
def isTimestamp (cs : List Char) : Bool :=
  match afterDate? cs with
  | none => false
  | some [] => true
  | some (c :: rest) =>
    if c = 'T' || c = 't' then ((afterTime? rest).bind afterZone?) = some []
    else if c = ' ' then afterTime? (rest.dropWhile (· = ' ')) = some []
    else false

end FlowTree.Yaml
