import LoosePatch.Text.Blank

/-!
Slash-separated paths. A path is resolved by its text alone: empty and `.` components vanish, and
`..` takes back the component before it.
-/

namespace LoosePatch.Path

def here : Text := ['.']

def parent : Text := ['.', '.']

/-- The components of `path` as they are written. -/
def parts (path : Text) : List Text := path.splitOn '/'

/-- Appends one component to a resolved path, given with its last component first. -/
def push (rooted : Bool) (above : List Text) (part : Text) : List Text :=
  if part = [] ∨ part = here then above
  else if part = parent then
    match above with
    | [] => if rooted then [] else [parent]
    | last :: rest => if last = parent then parent :: above else rest
  else part :: above

/-- The resolved components, first component first. -/
def resolve (rooted : Bool) (components : List Text) : List Text :=
  (components.foldl (push rooted) []).reverse

/-- The slashes that stay in front: none, one, or exactly two as they were written. -/
def root : Text → Text
  | '/' :: '/' :: '/' :: _ => ['/']
  | '/' :: '/' :: _ => ['/', '/']
  | '/' :: _ => ['/']
  | _ => []

/-- The resolved form of a path; a path that names nothing becomes `.`. -/
def normalize (path : Text) : Text :=
  let lead := root path
  let body := ['/'].intercalate (resolve (!lead.isEmpty) (parts path))
  if lead.isEmpty && body.isEmpty then here else lead ++ body

/-- Forward slashes for backslashes. -/
def forward (path : Text) : Text := path.map fun c => if c = '\\' then '/' else c

/-- A path without empty and `.` components; `..` stays. -/
def tidy (path : Text) : Text :=
  let lead := root path
  let body := ['/'].intercalate ((parts path).filter fun part => part ≠ [] ∧ part ≠ here)
  if lead.isEmpty && body.isEmpty then here else lead ++ body

/-- A path as it is compared: without blanks around it, with forward slashes, resolved. -/
def plain (path : Text) : Text :=
  let path := forward path.trim
  if path.isEmpty then [] else normalize path

end LoosePatch.Path
