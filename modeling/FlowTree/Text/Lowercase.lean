/-!
Lower case for comparing with names of ASCII letters. Beyond ASCII only those letters are changed whose
lower case takes another number of bytes: of all others, neither their number of bytes nor whether they
are ASCII letters depends on the case.
-/

namespace FlowTree.Text

/-- The letters beyond ASCII whose lower case takes another number of bytes, with their lower case. -/
def resizedLetters : List (Nat × Nat) := [
  (0x0130, 0x0069), (0x023A, 0x2C65), (0x023E, 0x2C66), (0x1E9E, 0x00DF), (0x2126, 0x03C9),
  (0x212A, 0x006B), (0x212B, 0x00E5), (0x2C62, 0x026B), (0x2C64, 0x027D), (0x2C6D, 0x0251),
  (0x2C6E, 0x0271), (0x2C6F, 0x0250), (0x2C70, 0x0252), (0x2C7E, 0x023F), (0x2C7F, 0x0240),
  (0xA78D, 0x0265), (0xA7AA, 0x0266), (0xA7AB, 0x025C), (0xA7AC, 0x0261), (0xA7AD, 0x026C),
  (0xA7AE, 0x026A), (0xA7B0, 0x029E), (0xA7B1, 0x0287), (0xA7B2, 0x029D), (0xA7C5, 0x0282),
  (0xA7CB, 0x0264), (0xA7DC, 0x019B)]

/-- The lower case of a letter. -/
def lowerChar (c : Char) : Char :=
  if c.toNat < 0x80 then c.toLower else ((resizedLetters.lookup c.toNat).map Char.ofNat).getD c

/-- The text in lower case. -/
def lowered (s : String) : String := s.map lowerChar

end FlowTree.Text
