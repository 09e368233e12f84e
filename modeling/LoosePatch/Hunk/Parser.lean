import LoosePatch.Hunk.Header
import LoosePatch.Hunk.Numbering

/-!
Hunks read from the lines of a diff. A hunk is a run of header lines and the body lines up to the
next header or to an end-of-file marker; a body may also come without a header.
-/

namespace LoosePatch.Hunk

/-! ## Single lines -/

def ellipses : List Text := [['.', '.', '.'], ['…']]

/-- The edit that a body line stands for. A line without a mark is kept as it is. -/
def editOf (line : Text) : Edit :=
  if ellipses.contains line.trim && !line.head?.any (fun c => c == '+' || c == '-') then ⟨.ellipsis, []⟩
  else
    match line with
    | ' ' :: text => ⟨.keep, text⟩
    | '+' :: text => ⟨.add, text⟩
    | '-' :: text => ⟨.remove, text⟩
    | _ => ⟨.keep, line⟩

/-- Lines that carry one of the three marks of a diff. -/
def isMarked (line : Text) : Bool := line.head?.any fun c => c == ' ' || c == '+' || c == '-'

/-- The words of a starred marker, with blanks between them and around them. -/
def isStarred (words : List Text) (line : Text) : Bool :=
  ((Text.readLead? ['*', '*', '*'] line).bind fun s => Text.readWords? words s.trimStart).any
    Text.isBlankText

def endsFileAt (line : Text) : Bool :=
  !isMarked line && isStarred ["end".toList, "of".toList, "file".toList] line.trim

/-- A header that says nothing: one or two signs and blanks. -/
def isBareHeader (line : Text) : Bool :=
  match Text.readLead? Header.sign line with
  | some s =>
    s.isBlankText || ((Text.readLead? Header.sign s.trimStart).any Text.isBlankText)
  | none => false

/-! ## Runs of lines -/

structure Headers where
  header : Text := []
  anchors : List Text := []
  hint : Option LineHint := none

/-- The header lines in front, read together, and the lines after them. -/
def readHeaders : List Text → Outcome (Headers × List Text)
  | [] => .ok ({}, [])
  | line :: rest =>
    if Header.opens line then do
      let (anchors, hint) ← Header.read line
      let (inner, rest) ← readHeaders rest
      return (⟨line, anchors ++ inner.anchors, hint <|> inner.hint⟩, rest)
    else .ok ({}, line :: rest)

/-- The next line that is not empty is a header. -/
def headerFollows (lines : List Text) : Bool :=
  (lines.dropWhile List.isEmpty).head?.any Header.opens

/-- The edits of a body, whether an end-of-file marker closes it, and the lines after it. Empty
lines between a begun body and a header belong to neither. -/
def readBody : (begun : Bool) → List Text → List Edit × Bool × List Text
  | _, [] => ([], false, [])
  | begun, line :: rest =>
    if line.isEmpty && begun && headerFollows rest then ([], false, rest.dropWhile List.isEmpty)
    else if Header.opens line then ([], false, line :: rest)
    else if endsFileAt line then ([], true, rest)
    else
      let (edits, endsFile, after) := readBody true rest
      (editOf line :: edits, endsFile, after)

/-- The hunk in front, and the lines after it. -/
def readHunk (lines : List Text) : Outcome (Hunk × List Text) := do
  let (heads, rest) ← readHeaders lines
  let (edits, endsFile, rest) := readBody false rest
  if edits.isEmpty then refuse (.emptyHunk heads.header.trim)
  return (⟨Numbering.strip edits, heads.anchors, heads.hint, endsFile, heads.header⟩, rest)

/-! ## Every hunk takes lines -/

theorem readHeaders_length {lines rest : List Text} {heads : Headers}
    (h : readHeaders lines = .ok (heads, rest)) : rest.length ≤ lines.length := by
  induction lines generalizing heads rest with
  | nil => simp only [readHeaders, Except.ok.injEq, Prod.mk.injEq] at h; simp [← h.2]
  | cons line lines ih =>
    simp only [readHeaders] at h
    split at h
    · cases hl : Header.read line with
      | error e => simp [hl, bind, Except.bind] at h
      | ok r =>
        cases hr : readHeaders lines with
        | error e => simp [hl, hr, bind, Except.bind] at h
        | ok r' =>
          obtain ⟨inner, after⟩ := r'
          simp only [hl, hr, bind, Except.bind, pure, Except.pure, Except.ok.injEq,
            Prod.mk.injEq] at h
          rw [← h.2]
          exact Nat.le_succ_of_le (ih hr)
    · simp only [Except.ok.injEq, Prod.mk.injEq] at h
      simp [← h.2]

theorem readBody_length (begun : Bool) (lines : List Text) :
    (readBody begun lines).2.2.length ≤ lines.length := by
  induction lines generalizing begun with
  | nil => simp [readBody]
  | cons line lines ih =>
    simp only [readBody]
    split
    · exact Nat.le_succ_of_le (List.dropWhile_suffix _).length_le
    · split
      · simp
      · split
        · simp
        · exact Nat.le_succ_of_le (ih true)

theorem readBody_length_lt {begun : Bool} {lines : List Text}
    (h : (readBody begun lines).1 ≠ []) : (readBody begun lines).2.2.length < lines.length := by
  cases lines with
  | nil => simp [readBody] at h
  | cons line lines =>
    simp only [readBody] at h ⊢
    split
    · rename_i hc; simp [hc] at h
    · split
      · rename_i hc hc'; simp [hc, hc'] at h
      · split
        · rename_i hc hc' hc''; simp [hc, hc', hc''] at h
        · exact Nat.lt_succ_of_le (readBody_length true lines)

theorem readHunk_length {lines rest : List Text} {hunk : Hunk}
    (h : readHunk lines = .ok (hunk, rest)) : rest.length < lines.length := by
  simp only [readHunk] at h
  cases hh : readHeaders lines with
  | error e => simp [hh, bind, Except.bind] at h
  | ok r =>
    obtain ⟨heads, after⟩ := r
    simp only [hh, bind, Except.bind, pure, Except.pure] at h
    split at h
    · simp [refuse] at h
    · rename_i hne
      simp only [Except.ok.injEq, Prod.mk.injEq] at h
      rw [← h.2]
      exact Nat.lt_of_lt_of_le (readBody_length_lt (by simpa using hne))
        (readHeaders_length hh)

/-! ## All hunks -/

/-- The hunks of a diff from some line on. Empty lines before a hunk are skipped, and a bare
header after the last hunk closes the diff. -/
def readAll (begun : Bool) (lines : List Text) : Outcome (List Hunk) :=
  match lines with
  | [] => .ok []
  | line :: rest =>
    if line.isEmpty then readAll begun rest
    else if begun && isBareHeader line && rest.all List.isEmpty then .ok []
    else
      match _h : readHunk (line :: rest) with
      | .error e => .error e
      | .ok (hunk, rest') => do return hunk :: (← readAll true rest')
termination_by lines.length
decreasing_by
  · simp
  · exact readHunk_length _h

/-- The hunks of a normalised diff, in order. -/
def parse (diff : Text) : Outcome (List Hunk) := readAll false diff.lines

end LoosePatch.Hunk
