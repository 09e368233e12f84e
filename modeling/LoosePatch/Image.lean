import LoosePatch.Text.Basic

/-!
The line image of a text file: its lines without terminators, and what is needed to write the
same bytes again.
-/

namespace LoosePatch

inductive LineEnd where
  | lf
  | crlf
  deriving DecidableEq, Repr

/-- A file as lines. `endsWithBreak` says whether the last line is terminated. -/
structure Image where
  lines : List Text
  lineEnd : LineEnd := .lf
  hasMark : Bool := false
  endsWithBreak : Bool := true
  deriving DecidableEq, Repr

namespace Image

/-- The byte order mark, which may open a file and is not part of its first line. -/
def mark : Char := '\uFEFF'

/-- The lines of `text`. Only when every line feed follows a carriage return do both together end
a line; otherwise carriage returns belong to their line. -/
def ofText (text : Text) (hasMark : Bool) : Image :=
  let pieces := text.lines
  let ended := pieces.dropLast
  let last := pieces.getLast?.getD []
  let crlf := !ended.isEmpty && ended.all fun l => l.getLast? == some '\r'
  let ended := if crlf then ended.map List.dropLast else ended
  { lines := if last.isEmpty then ended else ended ++ [last]
    lineEnd := if crlf then .crlf else .lf
    hasMark
    endsWithBreak := last.isEmpty }

/-- The image of the text, which may open with a byte order mark. -/
def ofMarkedText : Text → Image
  | [] => ofText [] false
  | c :: text => if c = mark then ofText text true else ofText (c :: text) false

/-- The image of a file, or nothing if its bytes are not valid UTF-8. -/
def ofBytes? (b : ByteArray) : Option Image := (Text.ofBytes? b).map ofMarkedText

def breakText : LineEnd → Text
  | .lf => ['\n']
  | .crlf => ['\r', '\n']

def toText (image : Image) : Text :=
  if image.lines.isEmpty then []
  else
    let text := Text.unlines image.lines ++ if image.endsWithBreak then ['\n'] else []
    match image.lineEnd with
    | .lf => text
    | .crlf => text.flatMap fun c => if c = '\n' then breakText .crlf else [c]

def toMarkedText (image : Image) : Text := if image.hasMark then mark :: image.toText else image.toText

def toBytes (image : Image) : ByteArray := image.toMarkedText.toBytes

/-- Other lines in a file of the same shape. -/
def withLines (image : Image) (lines : List Text) : Image := { image with lines }

end Image
end LoosePatch
