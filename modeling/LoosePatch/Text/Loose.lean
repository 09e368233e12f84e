import LoosePatch.Text.Blank

/-!
Loose readings of a line. Typographic punctuation becomes ASCII, runs of spaces and tabs become
one space, and for the loosest reading all blanks go.
-/

namespace LoosePatch

/-- The ASCII spelling of a typographic dash, quote, space or ellipsis. -/
def plainChar (c : Char) : Text :=
  let n := c.toNat
  if n < 0xA0 then [c]
  else if (0x2010 ≤ n && n ≤ 0x2015) || n == 0x2212 then ['-']
  else if (0x2018 ≤ n && n ≤ 0x201B) || n == 0x2032 then ['\'']
  else if (0x201C ≤ n && n ≤ 0x201F) || n == 0x2033 then ['"']
  else if n == 0xA0 || (0x2002 ≤ n && n ≤ 0x200A) || n == 0x202F || n == 0x205F || n == 0x3000 then
    [' ']
  else if n == 0x2026 then ['.', '.', '.']
  else [c]

namespace Text

def plain (s : Text) : Text := s.flatMap plainChar

/-- Each run of spaces and tabs as one space. -/
def squeeze : Text → Text
  | [] => []
  | c :: s =>
    if isIndent c then (if s.head?.any isIndent then squeeze s else ' ' :: squeeze s)
    else c :: squeeze s

def collapse (s : Text) : Text := s.squeeze.trim

/-- The reading under which lines count as equal up to typography and spacing. -/
def loose (s : Text) : Text := s.plain.collapse

/-- The reading without any blank character. -/
def bare (s : Text) : Text := s.plain.withoutBlanks

end Text
end LoosePatch
