import LoosePatch.Text.Blank
import LoosePatch.Text.Break

/-!
Files of settings, one `KEY=value` a line. A line may start with `export`, a value may be quoted
with escapes, and `#` opens a comment. A key without a value unsets what was said before. A value
may name settings above it, as in `${KEY}`, or `${KEY:-other}` for when there is no such setting.
-/

namespace LoosePatch.DotEnv

private def isLineBlank (c : Char) : Bool := isBlank c && c != '\n'

/-! ## Values -/

/-- A value up to its closing quote, and the rest. A backslash keeps the next character in the
value. -/
def readQuoted? (quote : Char) : Text → Option (Text × Text)
  | [] => none
  | [c] => if c = quote then some ([], []) else none
  | c :: d :: s =>
    if c = quote then some ([], d :: s)
    else if c = '\\' then (readQuoted? quote s).map fun (value, rest) => (c :: d :: value, rest)
    else (readQuoted? quote (d :: s)).map fun (value, rest) => (c :: value, rest)

private def escapes (quote : Char) : List (Char × Char) :=
  if quote = '\'' then [('\\', '\\'), ('\'', '\'')]
  else [('\\', '\\'), ('\'', '\''), ('"', '"'), ('a', '\x07'), ('b', '\x08'), ('f', '\x0c'),
    ('n', '\n'), ('r', '\r'), ('t', '\t'), ('v', '\x0b')]

/-- Replaces the escapes that are known inside these quotes. -/
def unescape (quote : Char) : Text → Text
  | [] => []
  | [c] => [c]
  | c :: d :: s =>
    if c = '\\' then
      match (escapes quote).lookup d with
      | some e => e :: unescape quote s
      | none => c :: unescape quote (d :: s)
    else c :: unescape quote (d :: s)
termination_by s => s.length

/-- An unquoted value ends before a `#` that follows a blank. -/
private def dropComment (afterBlank : Bool) : Text → Text
  | [] => []
  | c :: s => if c == '#' && afterBlank then [] else c :: dropComment (isBlank c) s

private def readValue? (s : Text) : Option (Text × Text) :=
  match s with
  | [] => some ([], [])
  | c :: rest =>
    if c = '\'' || c = '"' then
      (readQuoted? c rest).map fun (value, rest) => (unescape c value, rest)
    else
      let part : Text := s.takeWhile (· ≠ '\n')
      some ((dropComment false part).trimEnd, s.drop part.length)

/-! ## Lines -/

private def readKey? (s : Text) : Option (Option Text × Text) :=
  match s with
  | '#' :: _ => some (none, s)
  | '\'' :: rest =>
    let key := rest.takeWhile (· ≠ '\'')
    match rest.drop key.length with
    | _ :: rest => if key.isEmpty then none else some (some key, rest)
    | [] => none
  | _ =>
    let key := s.takeWhile fun c => !(c == '=' || c == '#' || isBlank c)
    if key.isEmpty then none else some (some key, s.drop key.length)

/-- Drops the word `export` and the blanks after it, if both are there. -/
private def dropExport (s : Text) : Text :=
  let word := "export".toList
  if word.isPrefixOf s then
    let rest := s.drop word.length
    let body := rest.dropWhile isLineBlank
    if body.length < rest.length then body else s
  else s

/-- The rest of the line after a binding holds blanks and a comment, no more. -/
private def lineEnds (s : Text) : Bool :=
  match s.dropWhile isLineBlank with
  | [] => true
  | c :: _ => c == '\n' || c == '#'

private def afterLine (s : Text) : Text := (s.dropWhile (· ≠ '\n')).drop 1

/-- The key and value at the head of `s`, and what follows on the line. -/
private def readBinding? (s : Text) : Option (Option Text × Option Text × Text) := do
  let (key, rest) ← readKey? (dropExport s)
  match rest.dropWhile isLineBlank with
  | '=' :: rest =>
    let (value, rest) ← readValue? (rest.dropWhile isLineBlank)
    return (key, some value, rest)
  | rest => return (key, none, rest)

/-- Where a line that is no binding stops being read. -/
private def refusedAt (s : Text) : Text :=
  match readKey? (dropExport s) with
  | some (_, rest) => rest
  | none => s

private def bindingsFrom : (fuel : Nat) → Text → List (Text × Option Text)
  | 0, _ => []
  | fuel + 1, s =>
    match s.dropWhile isBlank with
    | [] => []
    | c :: s =>
      match readBinding? (c :: s) with
      | some (key, value, rest) =>
        let later := bindingsFrom fuel (afterLine rest)
        match key with
        | some key => if lineEnds rest then (key, value) :: later else later
        | none => later
      | none => bindingsFrom fuel (afterLine (refusedAt (c :: s)))

/-- A text without the byte order mark in front of it. -/
private def dropMark : Text → Text
  | '\uFEFF' :: s => s
  | s => s

/-- The settings of a file in order, as they are written there; each line is read at most once. -/
def bindings (s : Text) : List (Text × Option Text) :=
  let s := (dropMark s).unifyBreaks
  bindingsFrom (s.length + 1) s

/-! ## References -/

/-- The name and the other value of a reference whose opening brace was just read, and the rest. -/
private def readReference? (s : Text) : Option (Text × Option Text × Text) :=
  let isNamed : Char → Bool := fun c => c ≠ ':' ∧ c ≠ '\x7d'
  let name := s.takeWhile isNamed
  match s.dropWhile isNamed with
  | '\x7d' :: rest => some (name, none, rest)
  | ':' :: '-' :: rest =>
    match rest.dropWhile (· ≠ '\x7d') with
    | _ :: after => some (name, some (rest.takeWhile (· ≠ '\x7d')), after)
    | [] => none
  | _ => none

private def expandFrom (value? : Text → Option Text) : (fuel : Nat) → Text → Text
  | 0, s => s
  | _, [] => []
  | fuel + 1, c :: s =>
    match c, s with
    | '$', '\x7b' :: body =>
      match readReference? body with
      | some (name, other, rest) =>
        (value? name <|> other).getD [] ++ expandFrom value? fuel rest
      | none => c :: expandFrom value? fuel s
    | _, _ => c :: expandFrom value? fuel s

/-- A value with its references replaced. -/
def expand (value? : Text → Option Text) (s : Text) : Text := expandFrom value? s.length s

/-- Settings with their references replaced, by earlier settings first and then by `outer`. -/
def resolve (outer : Text → Option Text) (bs : List (Text × Option Text)) : List (Text × Option Text) :=
  bs.foldl (fun done (key, value) =>
    let known (name : Text) : Option Text :=
      match done.reverse.lookup name with
      | some value => some (value.getD [])
      | none => outer name
    done ++ [(key, value.map (expand known))]) []

/-- The value that the last line about `key` gives it, if that line gives one. -/
def value? (key : Text) (bs : List (Text × Option Text)) : Option Text :=
  (bs.reverse.lookup key).join

end LoosePatch.DotEnv
