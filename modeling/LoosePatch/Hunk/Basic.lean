import LoosePatch.Text.Basic

/-!
Hunks: runs of line edits, with what their headers say about the place they belong to.
-/

namespace LoosePatch

inductive EditKind where
  | keep
  | add
  | remove
  | ellipsis
  deriving DecidableEq, Repr

/-- One line of a hunk without its mark. An ellipsis stands for any lines. -/
structure Edit where
  kind : EditKind
  text : Text := []
  deriving DecidableEq, Repr

namespace Edit

/-- A line that is in the file before the change. -/
def isOld (e : Edit) : Bool := e.kind == .keep || e.kind == .remove

/-- A line that is in the file after the change. -/
def isNew (e : Edit) : Bool := e.kind == .keep || e.kind == .add

def isAdd (e : Edit) : Bool := e.kind == .add

def isRemove (e : Edit) : Bool := e.kind == .remove

def isKeep (e : Edit) : Bool := e.kind == .keep

def isEllipsis (e : Edit) : Bool := e.kind == .ellipsis

end Edit

/-- Line numbers from a header, counted from 1. A length is absent when the header gives none. -/
structure LineHint where
  oldStart : Nat
  oldLength : Option Nat := none
  newStart : Option Nat := none
  newLength : Option Nat := none
  deriving DecidableEq, Repr

namespace LineHint

/-- Where the old lines are expected, counted from 0. -/
def oldIndex (hint : LineHint) : Int := (hint.oldStart : Int) - 1

/-- Where added lines are expected, counted from 0. -/
def insertIndex (hint : LineHint) : Int := ((hint.newStart.getD hint.oldStart : Nat) : Int) - 1

end LineHint

structure Hunk where
  edits : List Edit
  anchors : List Text := []
  hint : Option LineHint := none
  /-- The hunk is said to end the file. -/
  endsFile : Bool := false
  header : Text := []
  deriving DecidableEq, Repr

namespace Hunk

def oldLines (hunk : Hunk) : List Text := (hunk.edits.filter Edit.isOld).map Edit.text

def newLines (hunk : Hunk) : List Text := (hunk.edits.filter Edit.isNew).map Edit.text

def addedLines (hunk : Hunk) : List Text := (hunk.edits.filter Edit.isAdd).map Edit.text

def removedLines (hunk : Hunk) : List Text := (hunk.edits.filter Edit.isRemove).map Edit.text

def added (hunk : Hunk) : Nat := hunk.edits.countP Edit.isAdd

def removed (hunk : Hunk) : Nat := hunk.edits.countP Edit.isRemove

/-- The sum of a count over hunks. -/
def total (count : Hunk → Nat) : List Hunk → Nat
  | [] => 0
  | hunk :: hunks => count hunk + total count hunks

def hasContext (hunk : Hunk) : Bool := hunk.edits.any Edit.isKeep

def hasEllipsis (hunk : Hunk) : Bool := hunk.edits.any Edit.isEllipsis

/-- Nothing in the hunk has to be found in the file. -/
def isInsertion (hunk : Hunk) : Bool := !hunk.edits.any Edit.isOld

end Hunk
end LoosePatch
