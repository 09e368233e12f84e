/-!
Text as a sequence of code points, and how lines are cut out of it and joined again.
-/

namespace LoosePatch

/-- Text is its code points: every length, index and width counts them. They are the code points of
characters, so that a text holds no half of a surrogate pair and can always be encoded. -/
abbrev Text := List Char

namespace Text

/-! ## Lines -/

/-- The pieces between line feeds, one more than there are line feeds. -/
def lines (s : Text) : List Text := s.splitOn '\n'

def unlines (ls : List Text) : Text := ['\n'].intercalate ls

theorem unlines_lines (s : Text) : unlines (lines s) = s := List.intercalate_splitOn '\n'

theorem lines_unlines (ls : List Text) (h : ∀ l ∈ ls, '\n' ∉ l) (hne : ls ≠ []) :
    lines (unlines ls) = ls := List.splitOn_intercalate '\n' h hne

/-! ## Trimming -/

def trimEndBy (p : Char → Bool) (s : Text) : Text := (s.reverse.dropWhile p).reverse

def trimBy (p : Char → Bool) (s : Text) : Text := trimEndBy p (s.dropWhile p)

/-! ## Substrings -/

/-- Whether `part` stands somewhere in the text as a run of adjacent characters. -/
def occursIn (part : Text) : Text → Bool
  | [] => part.isEmpty
  | c :: s => part.isPrefixOf (c :: s) || occursIn part s

/-- The text before and after the first occurrence of `sep`. -/
def cutAt (sep : Text) : Text → Option (Text × Text)
  | [] => if sep.isEmpty then some ([], []) else none
  | c :: s =>
    if sep.isPrefixOf (c :: s) then some ([], (c :: s).drop sep.length)
    else (cutAt sep s).map fun (before, after) => (c :: before, after)

/-- Drops `lead` from the front, if it is there. -/
def dropLead (lead s : Text) : Text := if lead.isPrefixOf s then s.drop lead.length else s

/-! ## Size and bytes -/

def utf8Size (s : Text) : Nat := s.foldl (fun n c => n + c.utf8Size) 0

/-- The encoding of the text in UTF-8, which every text has. -/
def toBytes (s : Text) : ByteArray := (String.ofList s).toUTF8

/-- The text that the bytes encode, or nothing if they are not valid UTF-8. -/
def ofBytes? (b : ByteArray) : Option Text := (String.fromUTF8? b).map String.toList

end Text
end LoosePatch
