import LoosePatch.Hunk.Parser
import LoosePatch.Path
import LoosePatch.Text.Break
import LoosePatch.Text.Word

/-!
Marker lines: what stands around the hunks of a diff and names files, opens and closes an
envelope, or describes a change of the file as a whole.
-/

namespace LoosePatch.Dialect

open Hunk (isMarked isStarred)

/-! ## Envelopes -/

def beginsPatch (line : Text) : Bool := isStarred ["begin".toList, "patch".toList] line

def endsPatch (line : Text) : Bool := isStarred ["end".toList, "patch".toList] line

def isBareStars (line : Text) : Bool := isStarred [] line

/-! ## Names of files -/

def readStars? (line : Text) : Option Text := (Text.readLead? ['*', '*', '*'] line).map Text.trimStart

/-- The path in a line such as `*** Update File: path`. -/
def fileMarker? (line : Text) : Option Text := do
  let s ← readStars? line
  let rest ← ["update".toList, "add".toList, "delete".toList].findSome? fun word =>
    Text.readWords? [word, "file".toList] s
  return (← Text.readLead? [':'] rest).trim

def isMoveMarker (line : Text) : Bool :=
  ((readStars? line).bind fun s =>
    (Text.readWords? ["move".toList, "to".toList] s).bind (Text.readLead? [':'])).isSome

/-- A non-empty run of characters that are not blank, and the rest. -/
def readRun? (s : Text) : Option (Text × Text) :=
  let run : Text := s.takeWhile (!isBlank ·)
  if run.isEmpty then none else some (run, s.drop run.length)

/-- The second path in a line such as `diff --git a/path b/path`. -/
def gitHeader? (line : Text) : Option Text := do
  let s ← Text.readBlanks? (← Text.readLead? "diff".toList line)
  let s ← Text.readBlanks? (← Text.readLead? "--git".toList s)
  let (_, s) ← readRun? s
  let (path, _) ← readRun? (← Text.readBlanks? s)
  return path

/-! ## Changes of the file as a whole -/

/-- A line such as `index 12ab..34cd`. -/
def isIndexLine (line : Text) : Bool :=
  ((Text.readLead? "index".toList line).bind Text.readBlanks?).any fun s =>
    let old : Text := s.takeWhile isHexDigit
    !old.isEmpty && ((Text.readLead? ['.', '.'] (s.drop old.length)).any fun s => s.head?.any isHexDigit)

/-- Openings of lines about modes, similarity, renames, copies and binary files. -/
def metadataOpenings : List Text := [
  "new file mode".toList, "deleted file mode".toList, "old mode".toList, "new mode".toList,
  "similarity index".toList, "dissimilarity index".toList, "rename from".toList,
  "rename to".toList, "copy from".toList, "copy to".toList, "Binary files".toList]

def isMetadata (line : Text) : Bool :=
  isIndexLine line || metadataOpenings.any fun opening => (Text.readLead? opening line).any Text.wordEnds

def isNoNewlineNote (line : Text) : Bool := "\\ No newline at end of file".toList.isPrefixOf line

/-- Unmarked lines that are no part of a hunk. -/
def isEnvelope (line : Text) : Bool :=
  !isMarked line && ((fileMarker? line).isSome || isMoveMarker line || (gitHeader? line).isSome ||
    isMetadata line || isNoNewlineNote line || beginsPatch line.trim || endsPatch line.trim)

/-! ## The file that a diff is for -/

/-- A path without quotes around it, without an `a/` or `b/` in front, resolved. -/
def cleanPath (raw : Text) : Text :=
  let path := Path.forward (raw.trim.trimBy fun c => c == '"' || c == '\'')
  let path := if ['a', '/'].isPrefixOf path || ['b', '/'].isPrefixOf path then path.drop 2 else path
  let path := if path.isEmpty then path else Path.normalize path
  Text.dropLead ['.', '/'] path

/-- Whether two paths may name one file: they are equal, or one of them is the end of the other. -/
def sameFile (a b : Text) : Bool :=
  let a := cleanPath a
  let b := cleanPath b
  a == b || ('/' :: b).isSuffixOf a || ('/' :: a).isSuffixOf b

/-- The path that a line names as the diff's file. -/
def namedPath? (line : Text) : Option Text :=
  if isMarked line then none
  else
    match fileMarker? line with
    | some path => if path.isEmpty then none else some (cleanPath path)
    | none => (gitHeader? line).map cleanPath

/-- The distinct files that a diff names, in order. -/
def markerPaths (diff : Text) : List Text := (diff.anyLines.filterMap namedPath?).eraseDups

/-- Refuses a diff that names several files, or another file than the requested one. -/
def checkSingleFile (diff : Text) (requested : Option Text) : Outcome Unit :=
  match markerPaths diff, requested with
  | paths@(_ :: _ :: _), _ => refuse (.severalFiles paths)
  | [named], some path =>
    if path.isEmpty || sameFile named path then .ok () else refuse (.otherFile named path)
  | _, _ => .ok ()

end LoosePatch.Dialect
