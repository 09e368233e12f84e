import LoosePatch.Refusal

/-!
Replacement text that was copied from a view of the file: references and add marks in front of its
lines, lines around the replaced ones, and lines whose spacing got lost.
-/

namespace LoosePatch.LineRef

/-! ## Copied marks -/

/-- The line after a reference, a bar and a space, if it starts with them. -/
def afterReference? (line : Text) : Option Text := do
  let (_, rest) ← line.readNat?
  let rest ← [':'].isPrefixOf? rest
  let hash : Text := rest.takeWhile isHexDigit
  if hash.isEmpty || 16 < hash.length then none else ['|', ' '].isPrefixOf? (rest.drop hash.length)

/-- The line after a single plus sign, if it starts with one. -/
def afterPlus? (line : Text) : Option Text :=
  match line with
  | '+' :: rest => if rest.head? = some '+' then none else some rest
  | _ => none

/-- Whether a mark stands in front of at least half of the lines that are not empty. -/
def isUsual (mark? : Text → Option Text) (lines : List Text) : Bool :=
  let marked := lines.countP fun l => (mark? l).isSome
  0 < marked && lines.countP (!·.isEmpty) ≤ 2 * marked

def dropMark (mark? : Text → Option Text) (line : Text) : Text := (mark? line).getD line

/-- The lines without copied references, or else without copied add marks. -/
def dropCopied (lines : List Text) : List Text :=
  if isUsual afterReference? lines then lines.map (dropMark afterReference?)
  else if isUsual afterPlus? lines then lines.map (dropMark afterPlus?)
  else lines

/-! ## Lost spacing -/

/-- Whether two lines are the same up to blanks. -/
def sameShape (a b : Text) : Bool := a.withoutBlanks == b.withoutBlanks

/-- Another line of the same shape among the old ones. -/
def twin? (old : List Text) (line : Text) : Option Text := old.find? fun o => sameShape o line && o != line

/-- New lines that differ from an old one only in blanks get the old one's blanks back: line by
line if there are as many, else from the first such line. -/
def keepSpacing (old new : List Text) : List Text :=
  if old.length = new.length then
    List.zipWith (fun o n => if sameShape o n then o else n) old new
  else new.map fun line => (twin? old line).getD line

/-! ## Echoed surroundings -/

/-- The replacement for lines `first` to `last` without the lines that repeat those around them.
Only a replacement that is longer than what it replaces is cut. -/
def dropEcho (file : List Text) (first last : Nat) (new : List Text) : Outcome (List Text) :=
  if new.length ≤ 1 ∨ new.length ≤ last - first + 1 then .ok new
  else do
    let new ← if 2 ≤ first then do
        let above ← fetch file (first - 2)
        pure (if (new.head?.any (sameShape · above)) then new.drop 1 else new)
      else pure new
    return match file[last]?, new.getLast? with
      | some below, some echo => if sameShape echo below then new.dropLast else new
      | _, _ => new

end LoosePatch.LineRef
