import FlowTree.Diagnostic.Basic
import FlowTree.Text.Glyph

/-!
Terminal styles: the escape sequences that switch a style on and off around a text.
-/

namespace FlowTree

/-- A terminal style by the numbers that switch it on and off. -/
structure Style where
  on : String
  off : String
  deriving DecidableEq, Repr

namespace Style

def bold : Style := ⟨"1", "22"⟩
def faint : Style := ⟨"2", "22"⟩
def cyan : Style := ⟨"36", "0"⟩
def blue : Style := ⟨"34", "0"⟩
def green : Style := ⟨"32", "0"⟩
def red : Style := ⟨"31", "0"⟩
def boldRed : Style := ⟨"31;1", "0;22"⟩
def boldYellow : Style := ⟨"33;1", "0;22"⟩
def boldBlue : Style := ⟨"34;1", "0;22"⟩
def boldGreen : Style := ⟨"32;1", "0;22"⟩

/-- The style of a level's name. -/
def ofLevel : Level → Style
  | .error => boldRed
  | .warning => boldYellow
  | .note => boldBlue
  | .help => boldGreen
  | .other _ => boldRed

/-- The style of the marks under a line: only warnings differ from errors. -/
def ofMarker : Level → Style
  | .warning => boldYellow
  | _ => boldRed

/-- The text in a style, or as it is when colours are off. -/
def paint (style : Style) (color : Bool) (s : String) : String :=
  if color then "\x1b[" ++ style.on ++ "m" ++ s ++ "\x1b[" ++ style.off ++ "m" else s

end Style

end FlowTree
