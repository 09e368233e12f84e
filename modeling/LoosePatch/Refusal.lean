import LoosePatch.LineRef.Basic
import LoosePatch.Operation

/-!
Why a patch is refused: the causes with what they are about, the kind each belongs to, and the
wording of the message and of the hint that goes with it.
-/

namespace LoosePatch

/-- The stable classes that causes fall into. -/
inductive RefusalKind where
  | invalidAnchor
  | staleContent
  | ambiguousMatch
  | noMatch
  | invalidEnvelope
  | noOpChange
  | invalidRename
  | fileState
  deriving DecidableEq, Repr

def RefusalKind.tag : RefusalKind → String
  | invalidAnchor => "invalid_anchor"
  | staleContent => "stale_content"
  | ambiguousMatch => "ambiguous_match"
  | noMatch => "no_match"
  | invalidEnvelope => "invalid_envelope"
  | noOpChange => "no_op_change"
  | invalidRename => "invalid_rename"
  | fileState => "file_state"

/-- The causes. Hunks are numbered from 1; places are counted from 0 and shown from 1; `file` is
the lines of the file the patch was meant for. -/
inductive Refusal where
  -- headers and hunks
  | controlCharacters
  | invalidRange (header : Text)
  | malformedRange (header : Text)
  | invalidLineReference (given : Text)
  | emptyHunk (header : Text)
  -- several files
  | severalFiles (paths : List Text)
  | otherFile (named requested : Text)
  -- locating
  | ambiguousAnchor (hunk : Nat) (places : List Nat) (file : List Text)
  | anchorNotFound (hunk : Nat) (anchor : Text)
  | outsideFile (hunk : Nat) (line : Int) (total : Nat)
  | nothingLocates (hunk : Nat)
  | ambiguousPlace (hunk : Nat) (places : List Nat) (file : List Text)
  | stale (hunk place : Nat) (expected actual : List Text) (changed : List Nat) (file : List Text)
  | notFound (hunk : Nat) (expected : List Text) (near : Nat) (file : List Text)
  | conflict (first second line : Nat) (expected actual : List Text)
  -- line references
  | referenceHasBreak (src : Text)
  | referenceHasComma (src : Text)
  | insertBeforeForm (src : Text)
  | badReference (given : Text)
  | lineBelowOne (line : Nat) (given : Text)
  | backwardRange (first last : Nat)
  | nothingToInsert
  | missingLine (line total : Nat)
  | staleReferences (mismatches : List LineRef.Mismatch) (file : List Text)
  -- requests
  | renameUnsupported (op : Operation)
  | renameEmpty
  | renameSame
  | lineEditsUnsupported (op : Operation)
  | diffAndLineEdits
  | nulInDiff
  | binaryFile
  | undecodableFile
  | missingFile
  | noLineEdits
  | noHunks
  | unchangedByLineEdits
  | unchangedByPatch
  deriving DecidableEq

namespace Refusal

def kind : Refusal → RefusalKind
  | invalidRange .. | malformedRange .. | invalidLineReference .. | outsideFile ..
  | nothingLocates .. | insertBeforeForm .. | badReference .. | lineBelowOne ..
  | backwardRange .. | missingLine .. => .invalidAnchor
  | stale .. | conflict .. | staleReferences .. => .staleContent
  | ambiguousAnchor .. | ambiguousPlace .. => .ambiguousMatch
  | anchorNotFound .. | notFound .. => .noMatch
  | controlCharacters | emptyHunk .. | severalFiles .. | otherFile .. | referenceHasBreak ..
  | referenceHasComma .. | nothingToInsert | lineEditsUnsupported .. | diffAndLineEdits
  | nulInDiff | binaryFile | undecodableFile | noLineEdits | noHunks => .invalidEnvelope
  | unchangedByLineEdits | unchangedByPatch => .noOpChange
  | renameUnsupported .. | renameEmpty | renameSame => .invalidRename
  | missingFile => .fileState

/-! ## Previews of the file -/

def joinLines (ls : List String) : String := "\n".intercalate ls

/-- How many lines or places a preview shows. -/
def previewLength : Nat := 5

/-- The expected lines, and the file's lines from `near` on. -/
def contextPreview (expected file : List Text) (near : Nat) : String :=
  let wanted := (expected.take previewLength).map fun l => "  " ++ String.ofList l
  let more := expected.length - previewLength
  let wanted := if 0 < more then wanted ++ [s!"  ... ({more} more lines)"] else wanted
  let shown := ((file.zipIdx 1).drop near).take (previewLength + 3)
  let shown := shown.map fun (l, n) => s!"  {n}: " ++ String.ofList l
  s!"Expected context:\n" ++ joinLines wanted ++ s!"\n\nFile content near line {near + 1}:\n"
    ++ joinLines shown

def placesPreview (file : List Text) (places : List Nat) : String :=
  let shown := (places.take previewLength).map fun p =>
    s!"  - line {p + 1}: " ++ String.ofList ((file.getD p []).take 200)
  let more := places.length - previewLength
  joinLines (if 0 < more then shown ++ [s!"  ... and {more} more matches"] else shown)

/-- The numbers of the lines near stale references, in order and once each. -/
def shownNear (mismatches : List LineRef.Mismatch) (total : Nat) : List Nat :=
  (List.range' 1 total).filter fun n => mismatches.any fun m => n ≤ m.line + 2 && m.line ≤ n + 2

/-- Rows of the file with a mark at stale lines and dots where rows are left out. -/
def mismatchRows (stale : List Nat) (file : List Text) : (previous : Option Nat) → List Nat → List String
  | _, [] => []
  | previous, n :: ns =>
    let gap := if previous.any (· + 1 < n) then ["    ..."] else []
    let sign := if stale.contains n then ">>> " else "    "
    gap ++ (sign ++ String.ofList (LineRef.row n (file.getD (n - 1) []))) ::
      mismatchRows stale file (some n) ns

def mismatchPreview (mismatches : List LineRef.Mismatch) (file : List Text) : String :=
  let count := mismatches.length
  let verb := if 1 < count then "s have" else " has"
  joinLines ([s!"{count} line{verb} changed since last read. Re-read the file.", ""] ++
    mismatchRows (mismatches.map (·.line)) file none (shownNear mismatches file.length))

/-! ## Wording -/

def referenceHint : String :=
  "Use \"LINE:HASH\" exactly as shown by the hash-annotated read, e.g. \"5:3fa0\""

private def str (s : Text) : String := String.ofList s

private def quote (s : Text) : String := String.ofList s.quoted

def message : Refusal → String
  | controlCharacters => "Hunk header contains control characters"
  | invalidRange header => "Invalid line range in hunk header: " ++ str header
  | malformedRange header => "Malformed line range in hunk header: " ++ str header
  | invalidLineReference given => "Invalid line reference in hunk header: " ++ str given
  | emptyHunk header =>
    "Hunk has no body lines: " ++ if header.isEmpty then "(no header)" else str header
  | severalFiles _ => "Multi-file patches are not supported"
  | otherFile named requested =>
    "Diff targets '" ++ str named ++ "' but the request is for '" ++ str requested ++ "'"
  | ambiguousAnchor hunk places _ =>
    s!"Hunk {hunk}: ambiguous anchor, found {places.length} occurrences"
  | anchorNotFound hunk anchor => s!"Hunk {hunk}: anchor not found: " ++ quote anchor
  | outsideFile hunk line total => s!"Hunk {hunk}: line {line} is outside the file ({total} lines)"
  | nothingLocates hunk => s!"Hunk {hunk}: nothing locates the inserted lines"
  | ambiguousPlace hunk places _ =>
    s!"Hunk {hunk}: ambiguous match, found {places.length} occurrences"
  | stale hunk place expected _ changed _ =>
    s!"Hunk {hunk}: content at line {place + 1} does not match the hunk " ++
      s!"({changed.length} of {expected.length} lines differ)"
  | notFound hunk _ _ _ => s!"Hunk {hunk}: could not find the lines to change"
  | conflict first second line _ _ => s!"Hunks {first} and {second} both change line {line + 1}"
  | referenceHasBreak src => "Line reference must not contain newlines: " ++ quote src
  | referenceHasComma src => "Line reference must not contain commas: " ++ quote src
  | insertBeforeForm src =>
    "Invalid reference " ++ quote src ++ ": insert-before form is exactly '..LINE:HASH'"
  | badReference given => "Invalid line reference " ++ quote given
  | lineBelowOne line given => s!"Line number must be >= 1, got {line} in " ++ quote given
  | backwardRange first last => s!"Range start line {first} is after end line {last}"
  | nothingToInsert => "Insert edit has no lines to insert"
  | missingLine line total => s!"Line {line} does not exist (file has {total} lines)"
  | staleReferences mismatches _ => s!"{mismatches.length} line reference(s) are stale"
  | renameUnsupported op => "Rename is not supported for op '" ++ op.name ++ "'"
  | renameEmpty => "Rename target is empty"
  | renameSame => "Rename target is the same as the source path"
  | lineEditsUnsupported op => "Line edits cannot be used with op '" ++ op.name ++ "'"
  | diffAndLineEdits => "Request has both a diff and line edits"
  | nulInDiff => "Patch contains null bytes (binary content not allowed)"
  | binaryFile => "Cannot read file: appears to be binary (contains NUL bytes)"
  | undecodableFile => "Cannot read file: not valid UTF-8 text"
  | missingFile => "Cannot update file: does not exist"
  | noLineEdits => "No line edits given"
  | noHunks => "Patch contains no hunks"
  | unchangedByLineEdits => "Line edits make no changes"
  | unchangedByPatch => "Patch makes no changes"

/-- What whoever wrote the patch can do about it. -/
def hint : Refusal → String
  | controlCharacters => "Anchors must be plain text copied from the file"
  | invalidRange _ => "Line numbers in '@@ -a,b +c,d @@' are 1-based"
  | malformedRange _ => "Use '@@ -12,3 +12,4 @@' or drop the line numbers"
  | invalidLineReference _ => "Use '@@ line N' or '@@ lines N-M' with 1-based N <= M"
  | emptyHunk _ => "Follow each @@ header with ' ', '-' or '+' prefixed lines"
  | severalFiles paths =>
    s!"The diff names {paths.length} files (" ++ ", ".intercalate ((paths.take 3).map str) ++
      "); send one request per file"
  | otherFile _ _ => "Send the diff with the request for the file it edits"
  | ambiguousAnchor _ places file => "Use a more specific @@ anchor:\n" ++ placesPreview file places
  | anchorNotFound _ _ => "Copy the @@ anchor text exactly from a line of the file"
  | outsideFile _ _ _ => "Use a line number within the file or '*** End of File' to append"
  | nothingLocates _ =>
    "Add a context line, an @@ anchor, a line number, or '*** End of File' to append"
  | ambiguousPlace _ places file =>
    "Add more context lines or an @@ anchor to pick one:\n" ++ placesPreview file places
  | stale _ place expected _ _ file =>
    "The file may have changed since it was read. Re-read it and regenerate the hunk.\n\n" ++
      contextPreview expected file place
  | notFound _ expected near file => contextPreview expected file near
  | conflict _ _ _ _ _ => "Merge the two hunks into one, or make them touch different lines"
  | referenceHasBreak _ => "Give exactly one reference or range per edit"
  | referenceHasComma _ => "Split the references into separate edits"
  | insertBeforeForm _ | badReference _ | lineBelowOne _ _ => referenceHint
  | backwardRange _ _ => "Write ranges as 'FIRST:HASH..LAST:HASH'"
  | nothingToInsert => "Put the new lines in dst, or use a plain reference to delete"
  | missingLine _ _ => "Re-read the file to get current line references"
  | staleReferences mismatches file => mismatchPreview mismatches file
  | renameUnsupported _ =>
    "Only updates can rename a file; create the new path directly instead"
  | renameEmpty => "Give the new file path"
  | renameSame => "Omit rename to edit the file in place"
  | lineEditsUnsupported _ => "Line edits only modify an existing file; use op='update'"
  | diffAndLineEdits => "Send either a diff or line edits, not both"
  | nulInDiff => "Ensure the diff contains only text content"
  | binaryFile | undecodableFile => "Only UTF-8 text files can be patched"
  | missingFile => "Use op='create' to create new files"
  | noLineEdits => "Provide at least one \x7bsrc, dst\x7d edit"
  | noHunks => "Provide at least one hunk of ' ', '-' and '+' prefixed lines"
  | unchangedByLineEdits => "The referenced lines already have this content"
  | unchangedByPatch => "The file already has this content; there is nothing to apply"

/-! ## What stale and ambiguous reports add -/

/-- Expected lines, actual lines, and the numbers of the lines that changed. -/
def staleReport? : Refusal → Option (List Text × List Text × List Nat)
  | stale _ _ expected actual changed _ => some (expected, actual, changed)
  | conflict _ _ line expected actual => some (expected, actual, [line + 1])
  | staleReferences mismatches _ =>
    some (mismatches.map fun m => numeral m.line ++ ':' :: m.expected,
      mismatches.map fun m => numeral m.line ++ ':' :: m.actual,
      mismatches.map (·.line))
  | _ => none

/-- The numbers of the lines that could be meant. -/
def candidateLines? : Refusal → Option (List Nat)
  | ambiguousAnchor _ places _ | ambiguousPlace _ places _ => some (places.map (· + 1))
  | _ => none

end Refusal

/-! ## Failures -/

/-- A step that has no result: a line outside the list it is taken from, or a value that there is
none of, which is a choice among nothing or, with so many digits, a number too long to be read. -/
inductive Fault where
  | outsideList
  | emptyChoice {digits : Option Nat}
  deriving DecidableEq, Repr

namespace Fault

@[match_pattern] abbrev numberTooLong (digits : Nat) : Fault := @emptyChoice (some digits)

/-- What is said of a fault, if anything is. -/
def message? : Fault → Option String
  | numberTooLong digits =>
    some (s!"Exceeds the limit ({mostDigits} digits) for integer string conversion: " ++
      s!"value has {digits} digits; use sys.set_int_max_str_digits() to increase the limit")
  | _ => none

end Fault

/-- A refused patch, or a fault while it was being applied. -/
inductive Failure where
  | refused (why : Refusal)
  | fault (what : Fault)
  deriving DecidableEq

abbrev Outcome := Except Failure

def refuse {α : Type} (why : Refusal) : Outcome α := .error (.refused why)

/-- The entry at `i`, which has to exist. -/
def fetch {α : Type} (xs : List α) (i : Nat) : Outcome α :=
  match xs[i]? with
  | some x => .ok x
  | none => .error (.fault .outsideList)

/-- The result of a choice, which has to exist. -/
def chosen {α : Type} : Option α → Outcome α
  | some x => .ok x
  | none => .error (.fault (@Fault.emptyChoice none))

/-- The number that a numeral stands for, which must not be too long. -/
def readNumber (digits : Text) : Outcome Nat :=
  if mostDigits < digits.length then .error (.fault (.numberTooLong digits.length))
  else .ok digits.digitsValue

end LoosePatch
