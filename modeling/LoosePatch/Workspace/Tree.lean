import LoosePatch.Path
import LoosePatch.Text.Quoted

/-!
A workspace: a tree of files, directories and symbolic links below one root.
-/

namespace LoosePatch

/-- What stands at a place. The mode of a file is its permission bits. -/
inductive Node where
  | file (content : ByteArray) (mode : Nat)
  | directory
  | link (target : Text)

/-- A place by its components: below the root of a workspace, or, as an absolute one, below the top
of all directories. -/
abbrev Place := List Text

/-- Where a workspace lies: the absolute path of its root, which leads through no links, and the links
outside of it by their absolute places. -/
structure Site where
  path : Text
  links : List (Place × Text) := []

/-- A site without links around it is known by its path. -/
instance : Coe Text Site := ⟨fun path => { path }⟩

/-- The entries below a root. -/
structure Workspace where
  root : Site
  entries : List (Place × Node) := []

namespace Workspace

/-! ## Looking -/

/-- What is at a place itself, links not followed. -/
def node? (ws : Workspace) (place : Place) : Option Node :=
  if place.isEmpty then some .directory else ws.entries.lookup place

/-- Something other than a link is there. -/
def holds (ws : Workspace) (place : Place) : Bool :=
  match ws.node? place with
  | some (.link _) | none => false
  | some _ => true

def isDirectory (ws : Workspace) (place : Place) : Bool :=
  match ws.node? place with
  | some .directory => true
  | _ => false

def file? (ws : Workspace) (place : Place) : Option (ByteArray × Nat) :=
  match ws.node? place with
  | some (.file content mode) => some (content, mode)
  | _ => none

/-- The full name of a place. -/
def fullName (ws : Workspace) (place : Place) : Text :=
  ['/'].intercalate (ws.root.path :: place)

/-- The longest name, in bytes. -/
def longestName : Nat := 255

/-- The longest path, in bytes. -/
def longestPath : Nat := 4095

/-- Whether a place cannot be looked up because its path is too long, or a name in a directory
that is there. -/
def isTooLong (ws : Workspace) (place : Place) : Bool :=
  longestPath < (ws.fullName place).utf8Size ||
    (List.range place.length).any fun i =>
      ws.isDirectory (place.take i) && longestName < Text.utf8Size (place.getD i [])

/-! ## Following links -/

/-- Where a path leads. -/
inductive Destination where
  | inside (place : Place)
  | outside
  | loop
  deriving DecidableEq, Repr

/-- The absolute place of the root. -/
def base (ws : Workspace) : Place := (Path.parts ws.root.path).filter fun part => part ≠ []

/-- What an absolute place is called below the root, if it is there. -/
def below? (ws : Workspace) (place : Place) : Option Place :=
  if ws.base.isPrefixOf place then some (place.drop ws.base.length) else none

theorem below?_eq_some {ws : Workspace} {place inner : Place} :
    ws.below? place = some inner ↔ ws.base ++ inner = place := by
  unfold below?
  split
  · rename_i prefixed
    obtain ⟨rest, rfl⟩ := List.isPrefixOf_iff_prefix.1 prefixed
    rw [List.drop_left, Option.some.injEq, List.append_cancel_left_eq, eq_comm]
  · rename_i apart
    exact ⟨nofun, fun joined => absurd (List.isPrefixOf_iff_prefix.2 ⟨inner, joined⟩) apart⟩

/-- The target of the link at an absolute place. The root is none, and no directory above it is. -/
def linkAt? (ws : Workspace) (place : Place) : Option Text :=
  match ws.below? place with
  | some inner =>
    match ws.node? inner with
    | some (.link target) => some target
    | _ => none
  | none => if place.isPrefixOf ws.base then none else ws.root.links.lookup place

/-- The absolute places where links may stand. -/
def linkPlaces (ws : Workspace) : List Place :=
  (ws.entries.map fun entry => ws.base ++ entry.1) ++ ws.root.links.map Prod.fst

theorem mem_linkPlaces {ws : Workspace} {place : Place} {target : Text}
    (found : ws.linkAt? place = some target) : place ∈ ws.linkPlaces := by
  unfold linkAt? at found
  split at found
  · rename_i inner below
    obtain rfl := below?_eq_some.1 below
    split at found
    · rename_i link
      unfold node? at link
      split at link
      · cases link
      · obtain ⟨before, after, split, -⟩ := List.lookup_eq_some_iff.1 link
        exact List.mem_append_left _ (List.mem_map.2 ⟨_, split ▸ List.mem_append_right before
          List.mem_cons_self, rfl⟩)
    · cases found
  · split at found
    · cases found
    · obtain ⟨before, after, split, -⟩ := List.lookup_eq_some_iff.1 found
      exact List.mem_append_right _ (List.mem_map.2 ⟨_, split ▸ List.mem_append_right before
        List.mem_cons_self, rfl⟩)

/-- How many of these places are none of the given ones. -/
def linksOutside (ws : Workspace) (places : List Place) : Nat :=
  (ws.linkPlaces.filter fun place => !places.contains place).length

theorem linksOutside_cons_lt {ws : Workspace} {places : List Place} {place : Place} {target : Text}
    (found : ws.linkAt? place = some target) (new : ¬places.contains place = true) :
    ws.linksOutside (place :: places) < ws.linksOutside places := by
  have member : place ∈ ws.linkPlaces.filter fun place => !places.contains place :=
    List.mem_filter.2 ⟨mem_linkPlaces found, by simpa using new⟩
  have fewer : ((ws.linkPlaces.filter fun place => !places.contains place).filter
      fun other => !(other == place)).length < ws.linksOutside places :=
    List.length_filter_lt_length_iff_exists.2 ⟨place, member, by simp⟩
  rw [List.filter_filter] at fewer
  simpa only [linksOutside, List.contains_cons, Bool.not_or] using fewer

/-- Where names lead from a place by their text alone. An empty name with others after it stands for
a slash in front, and so for the top. -/
def byText (place : Place) : List Text → Place
  | [] :: name :: names => Path.resolve true (name :: names)
  | names => (names.foldl (Path.push true) place.reverse).reverse

/-- Where the target of a link in a directory starts: there, or at the top. -/
def startOf (directory : Place) (target : Text) : Place :=
  if target.head? = some '/' then [] else directory

/-- Goes down from an absolute place, one name after the other, and follows the links on the way.
`active` are the places of the links that are being followed. Of a way that meets one of these again
the rest is not followed, and the place is where it leads by its text alone. -/
def walk (ws : Workspace) (active : List Place) (place : Place) : List Text → Except Place Place
  | [] => .ok place
  | name :: names =>
    if name = [] ∨ name = Path.here then walk ws active place names
    else if name = Path.parent then walk ws active place.dropLast names
    else
      match _found : ws.linkAt? (place ++ [name]) with
      | none => walk ws active (place ++ [name]) names
      | some target =>
        if _new : active.contains (place ++ [name]) then .error (byText (place ++ [name]) names)
        else
          match walk ws ((place ++ [name]) :: active) (startOf place target) (Path.parts target) with
          | .ok there => walk ws active there names
          | .error there => .error (byText there names)
termination_by names => (ws.linksOutside active, names.length)
decreasing_by
  all_goals first
    | exact Prod.Lex.right _ (Nat.lt_succ_self _)
    | exact Prod.Lex.left _ _ (linksOutside_cons_lt _found _new)

/-- Whether there is no link at an absolute place or above it. -/
def isClear (ws : Workspace) (place : Place) : Bool :=
  (List.range (place.length + 1)).all fun i => (ws.linkAt? (place.take i)).isNone

/-- An absolute place as a destination. -/
def destination (ws : Workspace) (place : Place) : Destination :=
  match ws.below? place with
  | some inner => .inside inner
  | none => .outside

/-- Where a path leads from the root. Only where it ends decides whether it is inside. -/
def resolve (ws : Workspace) (path : Text) : Destination :=
  match ws.walk [] ws.base (Path.parts path) with
  | .ok place => ws.destination place
  | .error place => if ws.isClear place then ws.destination place else .loop

/-! ## Changing -/

/-- Puts an entry at a place, instead of what was there. -/
def put (place : Place) (node : Node) : List (Place × Node) → List (Place × Node)
  | [] => [(place, node)]
  | (p, n) :: rest => if p = place then (place, node) :: rest else (p, n) :: put place node rest

def set (ws : Workspace) (place : Place) (node : Node) : Workspace :=
  { ws with entries := put place node ws.entries }

def remove (ws : Workspace) (place : Place) : Workspace :=
  { ws with entries := ws.entries.filter fun (p, _) => p ≠ place }

/-- The places above a place, the root left out, from the top down. -/
def above (place : Place) : List Place :=
  (List.range' 1 (place.length - 1)).map place.take

/-- Makes the missing directories above a place. -/
def makeAbove (ws : Workspace) (place : Place) : Workspace :=
  (above place).foldl (fun ws p => if (ws.node? p).isSome then ws else ws.set p .directory) ws

end Workspace
end LoosePatch
