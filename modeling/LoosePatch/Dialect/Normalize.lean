import LoosePatch.Dialect.Marker

/-!
Diffs without what stands around their hunks, and the file text that a diff for a new file holds.
-/

namespace LoosePatch.Dialect

open Hunk (isMarked)

/-! ## Updates -/

def opensEnvelope (line : Text) : Bool := line.isBlankText || beginsPatch line.trim || isBareStars line

/-- A line that starts with a space is never dropped: a lone space is a blank context line. -/
def closesEnvelope (line : Text) : Bool :=
  line.head? != some ' ' && (line.isBlankText || endsPatch line.trim || isBareStars line)

/-- The lines without blank lines and envelope markers at both ends. -/
def trimEnvelope (lines : List Text) : List Text :=
  ((lines.dropWhile opensEnvelope).reverse.dropWhile closesEnvelope).reverse

def isOldFileLine (line : Text) : Bool := ['-', '-', '-', ' '].isPrefixOf line

def isNewFileLine (line : Text) : Bool := ['+', '+', '+', ' '].isPrefixOf line

/-- The lines without envelope lines, and without pairs of file lines before the first hunk. -/
def dropMarkers : (inHunk : Bool) → List Text → List Text
  | _, [] => []
  | inHunk, line :: rest =>
    if Header.opens line then line :: dropMarkers true rest
    else if isEnvelope line then dropMarkers inHunk rest
    else if !inHunk && isOldFileLine line then
      match rest with
      | [] => [line]
      | next :: rest' =>
        if isNewFileLine next then dropMarkers inHunk rest' else line :: dropMarkers inHunk (next :: rest')
    else line :: dropMarkers inHunk rest

/-- An update diff reduced to its hunks. -/
def normalize (diff : Text) : Text := Text.unlines (dropMarkers false (trimEnvelope diff.anyLines))

/-! ## New files -/

def opensNewFile (line : Text) : Bool := beginsPatch line.trim || (fileMarker? line).isSome

def dropLastEmpty (lines : List Text) : List Text :=
  if lines.getLast? = some [] then lines.dropLast else lines

/-- The lines of the body of a new file, between the markers around it. -/
def newFileBody (diff : Text) : List Text :=
  (((dropLastEmpty diff.anyLines).dropWhile opensNewFile).reverse.dropWhile fun l => endsPatch l.trim).reverse

def isPlus (line : Text) : Bool := line.head? == some '+'

/-- How many characters the add marks take up: none unless every non-empty line has one, and two
when a space follows each that has text after it. -/
def markWidth (lines : List Text) : Nat :=
  let full := lines.filter (!·.isEmpty)
  if full.isEmpty || !full.all isPlus then 0
  else
    let texts := full.filter (· ≠ ['+'])
    if !texts.isEmpty && texts.all (['+', ' '].isPrefixOf ·) then 2 else 1

/-- The text of a new file; it ends with a line break unless it is empty. -/
def newFileText (diff : Text) : Text :=
  let body := newFileBody diff
  let width := markWidth body
  let text := Text.unlines (body.map (·.drop width))
  if text.isEmpty || text.getLast? = some '\n' then text else text ++ ['\n']

end LoosePatch.Dialect
