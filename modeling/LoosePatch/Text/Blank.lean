import LoosePatch.Text.Basic

/-!
Blank characters: every code point with the White_Space property, and the four information
separators U+001C to U+001F.
-/

namespace LoosePatch

def isBlank (c : Char) : Bool :=
  let n := c.toNat
  (9 ≤ n && n ≤ 13) || (28 ≤ n && n ≤ 32) || n == 0x85 || n == 0xA0 || n == 0x1680 ||
    (0x2000 ≤ n && n ≤ 0x200A) || n == 0x2028 || n == 0x2029 || n == 0x202F || n == 0x205F ||
    n == 0x3000

/-- The two characters that indent a line. -/
def isIndent (c : Char) : Bool := c == ' ' || c == '\t'

namespace Text

def trimEnd (s : Text) : Text := s.trimEndBy isBlank

def trimStart (s : Text) : Text := s.dropWhile isBlank

def trim (s : Text) : Text := s.trimBy isBlank

/-- Blank text has nothing but blank characters, if anything. -/
def isBlankText (s : Text) : Bool := s.all isBlank

/-- The maximal runs of characters that are not blank. -/
def words (s : Text) : List Text := (s.splitOnP isBlank).filter (!·.isEmpty)

def withoutBlanks (s : Text) : Text := s.filter (!isBlank ·)

end Text
end LoosePatch
