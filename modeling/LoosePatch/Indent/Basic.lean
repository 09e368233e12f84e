import LoosePatch.Text.Blank

/-!
Indentation: the spaces and tabs in front of a line, the style that a set of lines agrees on, and
how one line is shifted or put in another style.
-/

namespace LoosePatch

inductive IndentStyle where
  | spaces
  | tabs
  deriving DecidableEq, Repr

def IndentStyle.char : IndentStyle → Char
  | spaces => ' '
  | tabs => '\t'

namespace Indent

/-! ## One line -/

def lead (line : Text) : Text := line.takeWhile isIndent

def body (line : Text) : Text := line.dropWhile isIndent

def width (line : Text) : Nat := (lead line).length

theorem lead_append_body (line : Text) : lead line ++ body line = line :=
  List.takeWhile_append_dropWhile

def hasTab (line : Text) : Bool := (lead line).contains '\t'

/-! ## Many lines -/

/-- The style of most indented lines, the greatest common divisor of their widths, and whether
both styles occur. Without indented lines there is no style. -/
structure Profile where
  style : Option IndentStyle := none
  unit : Nat := 0
  mixed : Bool := false
  deriving DecidableEq, Repr

/-- Lines that say something about indentation. -/
def isIndented (line : Text) : Bool := !line.isBlankText && !(lead line).isEmpty

def hasSpace (line : Text) : Bool := (lead line).contains ' '

/-- A line that is indented with both characters counts for both styles. -/
def profile (lines : List Text) : Profile :=
  let indented := lines.filter isIndented
  let spaces := indented.countP hasSpace
  let tabs := indented.countP hasTab
  if indented.isEmpty then {}
  else
    { style := some (if spaces < tabs then .tabs else .spaces)
      unit := indented.foldl (fun unit l => Nat.gcd unit (width l)) 0
      mixed := 0 < spaces && 0 < tabs }

/-! ## Changing one line -/

/-- How much deeper `fileLine` is indented than `diffLine`; blank lines do not tell. -/
def delta? (diffLine fileLine : Text) : Option Int :=
  if diffLine.isBlankText || fileLine.isBlankText then none
  else some ((width fileLine : Int) - width diffLine)

/-- Indents by `delta` more characters, or takes up to `-delta` of the indentation away. Blank
lines stay as they are. -/
def shift (line : Text) (delta : Int) (style : IndentStyle) : Text :=
  if line.isBlankText then line
  else
    match delta with
    | .ofNat n => List.replicate n style.char ++ line
    | .negSucc n => (lead line).drop (n + 1) ++ body line

/-- How many spaces a tab stands for when nothing else is known. -/
def usualUnit : Nat := 4

def unitOr (unit default : Nat) : Nat := if unit = 0 then default else unit

/-- Spells the indentation in one style, a tab standing for `unit` spaces. Spaces that do not
fill a tab stay. -/
def convert (line : Text) (style : IndentStyle) (unit : Nat) : Text :=
  let unit := unitOr unit usualUnit
  let indent := lead line
  match style with
  | .spaces => indent.flatMap (fun c => if c = '\t' then List.replicate unit ' ' else [c]) ++ body line
  | .tabs =>
    let spaces := indent.count ' '
    List.replicate (indent.count '\t' + spaces / unit) '\t' ++
      (List.replicate (spaces % unit) ' ' ++ body line)

/-- Whether the added lines are the removed ones up to blanks at both ends. -/
def isReindent (removed added : List Text) : Bool :=
  !removed.isEmpty && removed.map Text.trim == added.map Text.trim

end Indent
end LoosePatch
