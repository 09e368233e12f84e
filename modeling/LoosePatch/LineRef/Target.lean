import LoosePatch.Refusal
import LoosePatch.Text.Case

/-!
What a line edit names: one line, a range of lines, or the gap after or before a line. The forms
are `5:3fa0`, `5:3fa0..9:01bc`, `5:3fa0..` and `..5:3fa0`.
-/

namespace LoosePatch

inductive LineTarget where
  | single (ref : LineRef)
  | range (first last : LineRef)
  | after (ref : LineRef)
  | before (ref : LineRef)
  deriving DecidableEq, Repr

namespace LineRef

/-- The longest hash that is read as one. -/
def mostHashDigits : Nat := 16

def isHash (s : Text) : Bool := !s.isEmpty && s.length ≤ mostHashDigits && s.all isHexDigit

/-- Reads `NUMBER:HASH`; what was shown after a bar may still be there. -/
def read (given : Text) : Outcome LineRef :=
  let cleaned := Text.trim (given.takeWhile (· ≠ '|'))
  match Text.readNumeral? cleaned with
  | some (digits, ':' :: hash) =>
    if !isHash hash then refuse (.badReference given)
    else do
      let line ← readNumber digits
      if line < 1 then refuse (.lineBelowOne line given)
      else .ok ⟨line, hash.map Char.toLower⟩
  | _ => refuse (.badReference given)

end LineRef

namespace LineTarget

def dots : Text := ['.', '.']

def read (src : Text) : Outcome LineTarget :=
  if src.contains '\n' then refuse (.referenceHasBreak src)
  else if src.contains ',' then refuse (.referenceHasComma src)
  else
    let src := src.trim
    match dots.isPrefixOf? src with
    | some rest =>
      if dots.occursIn rest then refuse (.insertBeforeForm src)
      else do return .before (← LineRef.read rest)
    | none =>
      match Text.cutAt dots src with
      | none => do return .single (← LineRef.read src)
      | some (first, last) =>
        if last.isBlankText then do return .after (← LineRef.read first)
        else do return .range (← LineRef.read first) (← LineRef.read last)

def refs : LineTarget → List LineRef
  | single ref | after ref | before ref => [ref]
  | range first last => [first, last]

/-- The first line that is named. -/
def first : LineTarget → Nat
  | single ref | after ref | before ref | range ref _ => ref.line

/-- The last line that is named. -/
def last : LineTarget → Nat
  | single ref | after ref | before ref | range _ ref => ref.line

def isInsertion : LineTarget → Bool
  | after _ | before _ => true
  | single _ | range _ _ => false

/-- At one line, what goes in after it comes first, and what goes in before it last. -/
def rank : LineTarget → Nat
  | after _ => 0
  | single _ | range _ _ => 1
  | before _ => 2

end LineTarget
end LoosePatch
