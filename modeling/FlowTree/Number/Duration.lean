import FlowTree.Number.Double

/-!
Durations in text: in the greatest unit that fits, down to whole nanoseconds.
-/

namespace FlowTree

/-- The number of nanoseconds in a microsecond, a millisecond, a second and a minute. -/
def microsecond : Nat := 1000
def millisecond : Nat := 1000 * microsecond
def second : Nat := 1000 * millisecond
def minute : Nat := 60 * second

/-- A count of nanoseconds in a greater unit: the whole units and the rest are each held as doubles
and added up. -/
def inUnit (unit nanoseconds : Nat) : Double :=
  (Double.ofQuotient (nanoseconds / unit) 1).add (Double.ofQuotient (nanoseconds % unit) unit)

/-- A duration in text. Seconds and minutes have two decimal places, milliseconds and microseconds
one. -/
def durationText (nanoseconds : Int) : String :=
  let n := nanoseconds.toNat
  if minute ≤ n then (inUnit minute n).fixed 2 ++ "min"
  else if second ≤ n then (inUnit second n).fixed 2 ++ "s"
  else if millisecond ≤ n then (Double.ofQuotient n millisecond).fixed 1 ++ "ms"
  else if microsecond ≤ n then (Double.ofQuotient n microsecond).fixed 1 ++ "μs"
  else toString nanoseconds ++ "ns"

end FlowTree
