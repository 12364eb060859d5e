import ObjectSelect.Fault
import ObjectSelect.Interchange
import ObjectSelect.Query

/-!
# Settings from texts and files

The settings are a JSON record. A setting that is not given keeps its default.

A path leads to nothing, to a directory or to a file. Only a file whose bytes are UTF-8 text can
hold settings; every other case is a fault that names the path.
-/

set_option autoImplicit false
set_option relaxedAutoImplicit false

namespace ObjectSelect

namespace Config

/-- The settings, in order. -/
def fieldNames : List String :=
  ["deduplicate_selection_items", "deduplicate_subquery_selections"]

/-- A setting, or its default if it is not given. -/
def setting? (default : Bool) : Option Json → Option Bool
  | none => some default
  | some json => json.bool?

/-- The settings that a JSON value stands for. -/
def ofJson? (json : Json) : Option Config :=
  match json.fields? fieldNames with
  | some [selections, subqueries] => do
    let default : Config := {}
    return ⟨← setting? default.shareSelections selections,
      ← setting? default.shareSubquerySelections subqueries⟩
  | _ => none

/-- The settings that a JSON text stands for. -/
def ofJsonText (text : String) : Except Fault Config :=
  match (Json.ofText? text).bind ofJson? with
  | some config => .ok config
  | none => .error (.config "not a record of settings")

/-- The JSON text of the settings. -/
def toJsonText (config : Config) : String :=
  "\x7b\"deduplicate_selection_items\":" ++ toString config.shareSelections
    ++ ",\"deduplicate_subquery_selections\":" ++ toString config.shareSubquerySelections ++ "\x7d"

end Config

/-- What a path leads to. -/
inductive FileEntry where
  | absent
  | directory
  | file (bytes : ByteArray)

namespace FileEntry

/-- The text of a file. -/
def readText (path : String) : FileEntry → Except Fault String
  | absent => .error (.io (path ++ ": No such file or directory (os error 2)"))
  | directory => .error (.io (path ++ ": Is a directory (os error 21)"))
  | file bytes =>
    match String.fromUTF8? bytes with
    | some text => .ok text
    | none => .error (.io (path ++ ": stream did not contain valid UTF-8"))

end FileEntry

/-- The settings in the file at a path. -/
def Config.load (path : String) (entry : FileEntry) : Except Fault Config := do
  let text ← entry.readText path
  Config.ofJsonText text

end ObjectSelect
