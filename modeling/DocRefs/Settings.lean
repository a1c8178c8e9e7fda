import DocRefs.Assoc
import DocRefs.Files.Disk
import DocRefs.Input.Check
import DocRefs.Path.FilePath
import DocRefs.Text.Quoted

/-!
# Settings

How references are resolved: settings come from options, from variables of the environment, or from defaults, in that
order. What cannot be used is refused with its cause.
-/

namespace DocRefs

/-- Where the program runs: its working directory, the user's own home, the homes of other users by their names, and the
variables that are set. -/
structure Environment where
  cwd : String := "/"
  home : Option String := some "/"
  homes : Assoc String String := .empty
  vars : Assoc String String := .empty
deriving Repr

/-- The home of a user, if it is known. The empty name stands for the user who runs the program. -/
def Environment.homeOf? (env : Environment) (name : String) : Option String :=
  if name = "" then env.home else env.homes.get? name

/-- How references are resolved and documents watched. -/
structure Settings where
  rootDir : Option FilePath := none
  workspaceRoot : Option FilePath := none
  marker : String := "mkdocs.yml"
  debounce : Binary64 := .ofQuotient false 1 2
  suffixes : List String := [".md", ".markdown"]
deriving Repr

/-- Why there are no settings. -/
inductive SettingsError
  | notWhole (raw : String)
  | negative (millis : Int)
  | tooLarge
  | notDirectory (path : String)
  | badMarker (name : String)
  | noHome (e : FilePath.NoHome)
  | invalid (faults : List Fault)
deriving Repr

namespace Settings

/-- The variable for the root directory. -/
def rootVariable : String := "MDX_INCLUDE_ROOT_DIR"

/-- The variable for the directory that a relative root directory is taken from. -/
def workspaceVariable : String := "MDX_INCLUDE_WORKSPACE_ROOT"

/-- The variable for the marker. -/
def markerVariable : String := "MDX_INCLUDE_MARKER"

/-- The variable for the quiet interval, in milliseconds. -/
def debounceVariable : String := "MDX_INCLUDE_DEBOUNCE_MS"

end Settings

/-- Whether the settings are at fault, and not a part of the program below them. -/
def SettingsError.isRefusal : SettingsError → Bool
  | notWhole _ => true
  | negative _ => true
  | notDirectory _ => true
  | badMarker _ => true
  | _ => false

/-- The text of a refusal. -/
def SettingsError.message : SettingsError → String
  | notWhole raw => s!"{Settings.debounceVariable} must be an integer, got {quoted raw}"
  | negative millis => s!"{Settings.debounceVariable} must not be negative, got {millis}"
  | tooLarge => "integer division result too large for a float"
  | notDirectory path => s!"Root directory override is not a directory: {path}"
  | badMarker name => s!"Invalid root marker filename: {quoted name}"
  | noHome e => e.message
  | invalid _ => ""

namespace Settings

/-- A path, given as text. -/
def checkPath : Value → Checked FilePath
  | .text s => .ok (.ofString s)
  | _ => Checked.refuse .pathType

/-- Reads settings from a record; what is left out keeps its default. -/
def ofValue (v : Value) : Checked Settings :=
  let default : Settings := {}
  (Checked.both (Checked.optional "root_dir" none (Checked.nullable checkPath) v)
    (Checked.both (Checked.optional "workspace_root" none (Checked.nullable checkPath) v)
      (Checked.both (Checked.optional "marker_filename" default.marker Checked.text v)
        (Checked.both (Checked.optional "debounce_seconds" default.debounce Checked.number v)
          (Checked.optional "document_suffixes" default.suffixes (Checked.listOf .tupleType Checked.text) v))))).map
    fun (rootDir, workspaceRoot, marker, debounce, suffixes) => { rootDir, workspaceRoot, marker, debounce, suffixes }

/-- The absolute path of the root directory, if one is set. A relative one is taken from the workspace root, or else
from the working directory. -/
def resolvedRootDir (s : Settings) (env : Environment) : Except FilePath.NoHome (Option String) :=
  match s.rootDir with
  | none => .ok none
  | some dir => do
    let dir ← dir.expandHome env.homeOf?
    let base := s.workspaceRoot.getD (.ofString env.cwd)
    return some (Path.absolute env.cwd (base.append dir).toString)

/-- Whether a path names a document, by its suffix. -/
def isDocument (s : Settings) (p : FilePath) : Bool :=
  s.suffixes.contains (lowerCase p.suffix)

/-- A variable that is set and not empty, as the value of a field. -/
def fieldFrom (env : Environment) (name field : String) : List (String × Value) :=
  match env.vars.get? name with
  | some text => if text = "" then [] else [(field, .text text)]
  | none => []

/-- The quiet interval that the environment sets, unless the variable is blank. -/
def debounceFrom (env : Environment) : Except SettingsError (Option Binary64) :=
  match env.vars.get? debounceVariable with
  | none => .ok none
  | some raw =>
    if raw.toList.all isSpacing then .ok none
    else
      match Numeral.wholeNumber? raw.toList with
      | none => .error (.notWhole raw)
      | some millis =>
        if millis < 0 then .error (.negative millis)
        else
          match Binary64.ofQuotient false millis.natAbs 1000 with
          | .infinite _ => .error .tooLarge
          | seconds => .ok (some seconds)

/-- Whether a marker is a plain file name. -/
def isPlainName (name : String) : Bool :=
  name ≠ "" && !name.toList.contains '/'

/-- Builds settings from the environment and from options; an option that is not null wins. -/
def load (env : Environment) (disk : Disk) (options : List (String × Value)) : Except SettingsError Settings := do
  let debounce ← debounceFrom env
  let given := options.filter fun (_, v) => match v with
    | .null => false
    | _ => true
  let fields := fieldFrom env rootVariable "root_dir" ++ fieldFrom env workspaceVariable "workspace_root" ++
    fieldFrom env markerVariable "marker_filename" ++
    (debounce.map fun seconds => ("debounce_seconds", Value.number seconds)).toList ++ given
  let settings ← (ofValue (.object fields)).mapError .invalid
  let override ← (settings.resolvedRootDir env).mapError .noHome
  if let some dir := override then
    if !disk.isDirectory dir then throw (.notDirectory dir)
  if !isPlainName settings.marker then throw (.badMarker settings.marker)
  return settings

end Settings

end DocRefs
