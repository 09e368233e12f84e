import LoosePatch.Value

/-!
How the tools are announced: names, descriptions, and the parameters they take.
-/

namespace LoosePatch.Tool.Schema

def described (type description : String) : Value :=
  .record [("type", .text type), ("description", .text description)]

/-- A tool by its name, its description, and its parameters, of which `path` is required. -/
def tool (name description : String) (parameters : Fields) : Value :=
  .record [("name", .text name), ("description", .text description),
    ("input_schema", .record [("type", .text "object"), ("properties", .record parameters),
      ("required", .list [.text "path"])])]

def path : String × Value := ("path", described "string" "File path relative to the workspace root.")

def operation : Value := .record [
  ("type", .text "string"),
  ("enum", .list [.text "create", .text "update", .text "delete"]),
  ("description", .text "What to do with the file. Defaults to update.")]

def diff : Value := described "string" <|
  "For update: hunks of ' ', '-' and '+' lines, optionally headed by " ++
  "'@@ anchor' lines. For create: the file content, optionally '+' prefixed."

def lineEdits : Value := .record [
  ("type", .text "array"),
  ("description", .text <|
    "Update by line reference instead of a diff. src is 'LINE:HASH', " ++
    "'A:HASH..B:HASH', 'LINE:HASH..' (insert after) or '..LINE:HASH' " ++
    "(insert before), copied from read_file; dst is the new text, empty to delete."),
  ("items", .record [
    ("type", .text "object"),
    ("properties", .record [("src", .record [("type", .text "string")]),
      ("dst", .record [("type", .text "string")])]),
    ("required", .list [.text "src"])])]

def edit : Value := tool "edit"
  ("Create, update, delete or rename one file using a unified-diff style patch. " ++
    "Hunks locate their context and '-' lines in the current file, tolerating " ++
    "whitespace and indentation drift, but a match must be unambiguous.")
  [path, ("op", operation), ("diff", diff),
    ("rename", described "string" "New path for the file (update only)."),
    ("dry_run", described "boolean" "Validate without writing."), ("edits", lineEdits)]

def page : Value := tool "read_file"
  ("Read a text file with every line prefixed by 'LINE:HASH| '. " ++
    "Use the LINE:HASH references in edit's 'edits' input.")
  [path, ("start_line", described "integer" "1-based first line. Defaults to 1."),
    ("limit", described "integer" "Number of lines to return. Defaults to all.")]

end LoosePatch.Tool.Schema
