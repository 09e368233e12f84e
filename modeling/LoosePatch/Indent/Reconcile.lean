import LoosePatch.Indent.Basic

/-!
Added lines at the depth and in the style of the lines they join. Each matched line of a hunk has
a spelling in the hunk and one in the file; what these differ by is applied to the added lines.
-/

namespace LoosePatch.Indent

/-- A matched line as the hunk has it and as the file has it. -/
structure Pair where
  diff : Text
  file : Text
  isRemove : Bool
  deriving DecidableEq, Repr

/-- The common value of a non-empty list without two different entries. -/
def common? {α : Type} [DecidableEq α] : List α → Option α
  | [] => none
  | x :: xs => if xs.all (· = x) then some x else none

/-- How many spaces of the file one tab of the hunk stands for, if the pairs agree. -/
def spacesPerTab (pairs : List Pair) (fallback : Nat) : Nat :=
  let ratios := pairs.filterMap fun p =>
    let d := width p.diff
    let f := width p.file
    if d ≠ 0 ∧ f ≠ 0 ∧ f % d = 0 then some (f / d) else none
  (common? ratios).getD (unitOr fallback usualUnit)

/-- How many spaces make a tab, for a hunk of this profile. -/
def tabWidth (profile : Profile) : Nat :=
  if profile.style = some .spaces ∧ 2 ≤ profile.unit then profile.unit else usualUnit

/-- Matched lines that are the same in the hunk and in the file leave the added lines alone, if
these are not indented in another style than the file. -/
def isVerbatim (pairs : List Pair) (added : List Text) (file : Profile) : Bool :=
  pairs.all (fun p => p.diff = p.file) &&
    (file.style.isNone || (profile added).style.isNone || (profile added).style == file.style)

/-- The shift that all pairs agree on, else the one that the removed lines agree on, else none. -/
def commonDelta (pairs : List Pair) : Int :=
  match common? (pairs.filterMap fun p => delta? p.diff p.file) with
  | some d => d
  | none =>
    (common? ((pairs.filter (·.isRemove)).filterMap fun p => delta? p.diff p.file)).getD 0

/-- The last step in a file of one style: no tab stays in front of a line of a file indented with
spaces, and whole runs of spaces become tabs in a file indented with tabs. -/
def settle (target : Option IndentStyle) (unit tabUnit : Nat) (line : Text) : Text :=
  match target with
  | some .spaces => if hasTab line then convert line .spaces unit else line
  | some .tabs => if !hasTab line && tabUnit ≤ width line then convert line .tabs tabUnit else line
  | none => line

/-- The added lines, shifted by `commonDelta` and in the style of the file. -/
def reindent (pairs : List Pair) (added : List Text) (file : Profile) : List Text :=
  let actual := profile (pairs.map (·.file))
  let target := actual.style <|> file.style
  let unit := unitOr actual.unit file.unit
  let written := profile (pairs.map (·.diff) ++ added)
  let converts := target.isSome && written.style.isSome && written.style != target && !written.mixed
  let style := target.getD .spaces
  let unit :=
    if converts then
      match style with
      | .spaces => spacesPerTab pairs unit
      | .tabs => tabWidth written
    else unit
  let pairs := if converts then pairs.map fun p => { p with diff := convert p.diff style unit } else pairs
  let added := if converts then added.map fun l => convert l style unit else added
  let delta := commonDelta pairs
  added.map fun l => settle target unit (tabWidth written) (shift l delta style)

/-- The added lines as they go into the file. -/
def reconcile (pairs : List Pair) (added : List Text) (file : Profile) : List Text :=
  let removed := (pairs.filter (·.isRemove)).map (·.diff)
  if isVerbatim pairs added file || isReindent removed added then added
  else reindent pairs added file

end LoosePatch.Indent
