/-!
Values of log fields and of tool answers.
-/

namespace LoosePatch

inductive Value where
  | null
  | bool (b : Bool)
  | whole (n : Int)
  | real (x : Float)
  | text (s : String)
  | list (items : List Value)
  | record (fields : List (String × Value))

namespace Value

def isNull : Value → Bool
  | null => true
  | _ => false

/-- Whether the value counts as true: null, zero and everything empty does not. -/
def isTrue : Value → Bool
  | null => false
  | bool b => b
  | whole n => n ≠ 0
  | real x => !(x == 0.0)
  | text s => !s.isEmpty
  | list items => !items.isEmpty
  | record fields => !fields.isEmpty

end Value

/-- Named values in the order in which they were given. -/
abbrev Fields := List (String × Value)

namespace Fields

def get? (fields : Fields) (key : String) : Option Value := fields.lookup key

/-- Gives `key` the value, in its place if it is there and at the end otherwise. -/
def put (key : String) (value : Value) : Fields → Fields
  | [] => [(key, value)]
  | (k, v) :: rest => if k = key then (key, value) :: rest else (k, v) :: put key value rest

def drop (key : String) (fields : Fields) : Fields := fields.filter fun (k, _) => k ≠ key

/-- The fields with those of `top` laid over them. -/
def overlay (fields top : Fields) : Fields := top.foldl (fun acc (k, v) => put k v acc) fields

/-- The fields with those of `under` that have no value yet. -/
def underlay (fields under : Fields) : Fields :=
  under.foldl (fun acc (k, v) => if (acc.get? k).isSome then acc else put k v acc) fields

end Fields
end LoosePatch
