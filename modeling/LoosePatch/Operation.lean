import LoosePatch.Text.Blank

/-!
What a request does to its file.
-/

namespace LoosePatch

inductive Operation where
  | create
  | update
  | delete
  deriving DecidableEq, Repr

namespace Operation

def name : Operation → String
  | create => "create"
  | update => "update"
  | delete => "delete"

/-- The operation that a word stands for in any case; an unknown word stands for an update. -/
def ofWord (word : Text) : Operation :=
  let word := String.ofList (word.trim.map Char.toLower)
  if ["create", "add", "new"].contains word then create
  else if ["delete", "remove"].contains word then delete
  else update

end Operation
end LoosePatch
