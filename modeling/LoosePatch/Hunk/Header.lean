import LoosePatch.Hunk.Basic
import LoosePatch.Refusal
import LoosePatch.Text.Case

/-!
Header lines of hunks. After `@@` a header gives a unified range, a loose line number, the top of
the file, or an anchor: text of a line that the hunk comes after.
-/

namespace LoosePatch

namespace Text

/-- What follows `lead`, if the text starts with it. -/
def readLead? (lead s : Text) : Option Text := lead.isPrefixOf? s

/-- What follows a non-empty run of blanks. -/
def readBlanks? (s : Text) : Option Text :=
  match s with
  | [] => none
  | c :: rest => if isBlank c then some (trimStart rest) else none

/-- Reads words in any case, in order, with blanks between them. -/
def readWords? : List Text → Text → Option Text
  | [], s => some s
  | [word], s => readWord? word s
  | word :: words, s => do readWords? words (← readBlanks? (← readWord? word s))

end Text

namespace Header

/-- The two characters that open a header. -/
def sign : Text := ['@', '@']

def opens (line : Text) : Bool := sign.isPrefixOf line

/-- Characters that an anchor may not hold: the control characters of ASCII but the tab and the
line breaks. -/
def isControl (c : Char) : Bool :=
  let n := c.toNat
  n ≤ 8 || n == 11 || n == 12 || (14 ≤ n && n ≤ 31) || n == 127

/-- An anchor without the blanks around it and without a closing sign. -/
def anchorOf (s : Text) : Outcome (Option Text) :=
  let s := s.trim
  let s := if sign.isSuffixOf s then Text.trimEnd (s.take (s.length - 2)) else s
  if s.any isControl then refuse .controlCharacters
  else .ok (if s.isEmpty then none else some s)

/-- A length after a comma, if there is one. -/
def readLength (s : Text) : Option Text × Text :=
  match s with
  | ',' :: rest =>
    match Text.readNumeral? rest with
    | some (digits, rest) => (some digits, rest)
    | none => (none, s)
  | _ => (none, s)

/-- The numerals of a range `-a,b +c,d`. -/
structure Numerals where
  oldStart : Text
  oldLength : Option Text
  newStart : Text
  newLength : Option Text

/-- The line numbers that numerals stand for. The two starts are read before the lengths. -/
def Numerals.hint (n : Numerals) : Outcome LineHint := do
  let oldStart ← readNumber n.oldStart
  let newStart ← readNumber n.newStart
  let oldLength ← n.oldLength.mapM readNumber
  let newLength ← n.newLength.mapM readNumber
  return { oldStart, oldLength, newStart := some newStart, newLength }

/-- The numerals of a range between two signs, and the text after it. -/
def readRange? (line : Text) : Option (Numerals × Text) := do
  let s ← Text.readLead? sign line.trimEnd
  let s ← Text.readLead? ['-'] s.trimStart
  let (oldStart, s) ← s.readNumeral?
  let (oldLength, s) := readLength s
  let s ← Text.readBlanks? s
  let s ← Text.readLead? ['+'] s
  let (newStart, s) ← s.readNumeral?
  let (newLength, s) := readLength s
  let s ← Text.readLead? sign s.trimStart
  let rest := s.trimStart
  if rest.contains '\n' then none
  else some ({ oldStart, oldLength, newStart, newLength }, rest)

/-- Line 0 is named only by an empty side. -/
def rangeIsInvalid (hint : LineHint) : Bool :=
  (hint.oldStart < 1 && hint.oldLength != some 0) ||
    (hint.newStart.any (· < 1) && hint.newLength != some 0)

/-- Whether a header starts like a range. -/
def looksLikeRange (line : Text) : Bool :=
  match (Text.readLead? sign line).map Text.trimStart with
  | some ('-' :: c :: _) => isDigit c
  | _ => false

/-- The end of a loose reference: nothing, or a closing sign. -/
def isClosed (s : Text) : Bool := s.isEmpty || s.trimStart == sign

/-- The numerals of the lines that `line N` or `lines N-M` names: the first, and the last if it is
given. -/
def readLineNumbers? (s : Text) : Option (Text × Option Text) := do
  let s ← Text.readWord? "line".toList s
  let s := (Text.readWord? ['s'] s).getD s
  let (first, s) ← (← Text.readBlanks? s).readNumeral?
  match Text.readLead? ['-'] s.trimStart with
  | some rest =>
    let (last, rest) ← rest.trimStart.readNumeral?
    if isClosed rest then some (first, some last) else none
  | none => if isClosed s then some (first, none) else none

def namesTop (s : Text) : Bool :=
  ["top".toList, "start".toList, "beginning".toList].any fun word =>
    (Text.readWords? [word, "of".toList, "file".toList] s).any isClosed

/-- The anchors of a header, at most one, and its line numbers. -/
def read (line : Text) : Outcome (List Text × Option LineHint) :=
  match readRange? line with
  | some (numerals, rest) => do
    let hint ← numerals.hint
    if rangeIsInvalid hint then refuse (.invalidRange line.trim)
    else do
      let anchor ← anchorOf rest
      return (anchor.toList, some hint)
  | none =>
    if looksLikeRange line then refuse (.malformedRange line.trim)
    else
      let rest := Text.trim (line.drop 2)
      let rest := match Text.readLead? sign rest with
        | some rest => rest.trim
        | none => rest
      if rest.isEmpty then .ok ([], none)
      else
        match readLineNumbers? rest with
        | some (first, last) => do
          let first ← readNumber first
          let last ← last.mapM readNumber
          if first < 1 || last.any (· < first) then refuse (.invalidLineReference rest)
          else .ok ([], some { oldStart := first, oldLength := last.map (· - first + 1) })
        | none =>
          if namesTop rest then .ok ([], some { oldStart := 1, newStart := some 1 })
          else do
            let anchor ← anchorOf rest
            return (anchor.toList, none)

end Header
end LoosePatch
