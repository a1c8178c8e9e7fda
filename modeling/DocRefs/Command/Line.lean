import DocRefs.Number.Numeral
import DocRefs.Path.FilePath

/-!
# The command line

Arguments are read against the options that a command knows. An option takes the argument behind it as its value,
whatever that looks like; two dashes alone end the options. Commands come in groups, which have options of their own
before the command's name.
-/

namespace DocRefs

/-- What a command does. -/
inductive Command
  | help
  | lint (paths : List FilePath) (root : Option FilePath) (marker : Option String) (json : Bool)
  | refs (path : FilePath) (root : Option FilePath) (marker : Option String)
  | links (path : FilePath) (root : Option FilePath) (marker : Option String)
  | complete (path : FilePath) (line column : Int) (root : Option FilePath) (marker : Option String)
  | root (directory : FilePath) (marker : Option String)
  | watch (directory : FilePath) (root : Option FilePath) (marker : Option String)
  | serveHttp (host : String) (port : Int)
  | serveTools (transport : String)

/-- A command and whether everything is reported. -/
structure CommandLine where
  verbose : Bool
  command : Command

namespace CommandLine

/-- An option: its long and short spellings, and whether it takes a value. -/
structure OptionSpec where
  name : String
  spellings : List String
  takesValue : Bool

/-- An option that takes a value. -/
def valued (name : String) : OptionSpec :=
  ⟨name, ["--" ++ name], true⟩

/-- The options that ask for help. -/
def helpOption : OptionSpec :=
  ⟨"help", ["--help", "-h"], false⟩

/-- Arguments as they were read: options with their values, the others, and those behind the point where reading
ended. -/
structure Parsed where
  options : List (String × String) := []
  positional : List String := []
  rest : List String := []

/-- The option with a spelling. -/
def specOf? (specs : List OptionSpec) (spelling : String) : Option OptionSpec :=
  specs.find? fun s => s.spellings.contains spelling

/-- An argument cut at its first equals sign. -/
def cutValue (argument : List Char) : String × Option String :=
  let name := argument.takeWhile (· != '=')
  match argument.drop name.length with
  | _ :: value => (String.ofList name, some (String.ofList value))
  | [] => (String.ofList name, none)

/-- Reads one-letter options that stand together behind one dash. What follows one that takes a value is its value. -/
def readLetters (specs : List OptionSpec) (done : List (String × String)) (rest : List String) :
    List Char → Option (List (String × String) × List String)
  | [] => some (done, rest)
  | c :: cs =>
    (specOf? specs (String.ofList ['-', c])).bind fun spec =>
      if spec.takesValue then
        match cs, rest with
        | [], [] => none
        | [], value :: rest => some (done ++ [(spec.name, value)], rest)
        | _, _ => some (done ++ [(spec.name, String.ofList cs)], rest)
      else readLetters specs (done ++ [(spec.name, "")]) rest cs

/-- Reads one option and gives back the arguments behind it. -/
def readOption (specs : List OptionSpec) (argument : List Char) (rest : List String) :
    Option (List (String × String) × List String) :=
  let (name, value) := cutValue argument
  match (specOf? specs name).filter fun _ => name.length > 2 with
  | some spec =>
    match spec.takesValue, value, rest with
    | true, some value, rest => some ([(spec.name, value)], rest)
    | true, none, value :: rest => some ([(spec.name, value)], rest)
    | true, none, [] => none
    | false, none, rest => some ([(spec.name, "")], rest)
    | false, some _, _ => none
  | none =>
    match argument with
    | '-' :: '-' :: _ => none
    | _ :: letters => readLetters specs [] rest letters
    | [] => none

/-- Reads arguments. With `stopEarly`, the first one that is no option ends the reading. Every round takes an argument,
so their number is enough fuel. -/
def readArguments (specs : List OptionSpec) (stopEarly : Bool) : Nat → List String → Parsed → Option Parsed
  | 0, _, done => some done
  | _, [], done => some done
  | fuel + 1, argument :: rest, done =>
    if argument = "--" then
      some (if stopEarly then { done with rest } else { done with positional := done.positional ++ rest })
    else
      match argument.toList with
      | '-' :: _ :: _ =>
        match readOption specs argument.toList rest with
        | none => none
        | some (options, rest) =>
          readArguments specs stopEarly fuel rest { done with options := done.options ++ options }
      | _ =>
        if stopEarly then some { done with rest := argument :: rest }
        else readArguments specs stopEarly fuel rest { done with positional := done.positional ++ [argument] }

/-- Reads all arguments of a command. -/
def readAll (specs : List OptionSpec) (stopEarly : Bool) (arguments : List String) : Option Parsed :=
  readArguments (helpOption :: specs) stopEarly (arguments.length + 1) arguments {}

/-- The last value of an option. -/
def Parsed.value? (p : Parsed) (name : String) : Option String :=
  (p.options.reverse.find? (·.1 = name)).map (·.2)

/-- Whether an option is there. -/
def Parsed.has (p : Parsed) (name : String) : Bool :=
  (p.value? name).isSome

/-- A path, unless access to it is denied. -/
def path? (denied : FilePath → Bool) (s : String) : Option FilePath :=
  let path := FilePath.ofString s
  if denied path then none else some path

/-- An option whose value is a path. -/
def optionalPath? (denied : FilePath → Bool) (p : Parsed) (name : String) : Option (Option FilePath) :=
  match p.value? name with
  | none => some none
  | some s => (path? denied s).map some

/-- A whole number. -/
def whole? (s : String) : Option Int :=
  (Numeral.lenientWhole? s.toList).toOption

/-- An option whose value is a whole number above zero. -/
def counted? (p : Parsed) (name : String) : Option Int :=
  ((p.value? name).bind whole?).filter (1 ≤ ·)

/-- The one argument of a command, or what stands for it. -/
def single? (default : Option String) : List String → Option String
  | [] => default
  | [s] => some s
  | _ => none

/-- How the arguments of a command are read. -/
abbrev Reader := List String → Option Command

/-- Reads options and arguments, and makes a command of them, unless they call for help. -/
def reader (options : List OptionSpec) (make : Parsed → Option Command) : Reader := fun arguments =>
  (readAll options false arguments).bind fun p => if p.has "help" then some .help else make p

/-- Makes a command of the path of a document and the options that every such command has. -/
def withDocument (denied : FilePath → Bool)
    (make : Parsed → FilePath → Option FilePath → Option String → Option Command) (p : Parsed) : Option Command := do
  let path ← path? denied (← single? none p.positional)
  make p path (← optionalPath? denied p "root") (p.value? "marker")

/-- Reads a group of commands: its own options, and then a command by its name. What stands in the place of a name may
be an option behind two dashes; then the group's options are read once more from there on, but only a call for help is
heard. -/
def readGroup (options : List OptionSpec) (commands : List (String × Reader)) (arguments : List String) :
    Option (Parsed × Command) :=
  (readAll options true arguments).bind fun p =>
    if p.has "help" then some (p, .help)
    else
      match p.rest with
      | [] => none
      | name :: rest =>
        match commands.lookup name with
        | some read => (read rest).map (p, ·)
        | none => (readAll options true p.rest).bind fun again => if again.has "help" then some (p, .help) else none

/-- The commands that serve. -/
def servers : List (String × Reader) :=
  [("api", reader [valued "host", valued "port"] fun p =>
      if p.positional.isEmpty then
        (whole? ((p.value? "port").getD "8000")).map (.serveHttp ((p.value? "host").getD "127.0.0.1"))
      else none),
    ("mcp", reader [valued "transport"] fun p =>
      if p.positional.isEmpty then some (.serveTools ((p.value? "transport").getD "stdio")) else none)]

/-- All commands. `denied` says to which paths access is denied. -/
def commands (denied : FilePath → Bool) : List (String × Reader) :=
  [("lint", reader [valued "root", valued "marker", ⟨"json", ["--json"], false⟩] fun p => do
      if p.positional.isEmpty then none
      let paths ← p.positional.mapM (path? denied)
      return .lint paths (← optionalPath? denied p "root") (p.value? "marker") (p.has "json")),
    ("refs", reader [valued "root", valued "marker"] (withDocument denied fun _ path root marker =>
      some (.refs path root marker))),
    ("links", reader [valued "root", valued "marker"] (withDocument denied fun _ path root marker =>
      some (.links path root marker))),
    ("complete", reader [valued "line", valued "column", valued "root", valued "marker"]
      (withDocument denied fun p path root marker => do
        return .complete path (← counted? p "line") (← counted? p "column") root marker)),
    ("root", reader [valued "marker"] fun p => do
      return .root (← path? denied (← single? (some ".") p.positional)) (p.value? "marker")),
    ("watch", reader [valued "root", valued "marker"] fun p => do
      let directory ← path? denied (← single? (some ".") p.positional)
      return .watch directory (← optionalPath? denied p "root") (p.value? "marker")),
    ("serve", fun arguments => (readGroup [] servers arguments).map (·.2))]

/-- The options before a command. Those that set up a shell say something about the program and do nothing else, as the
call for help does. -/
def generalOptions : List OptionSpec :=
  [⟨"verbose", ["--verbose", "-v"], false⟩, ⟨"help", ["--install-completion", "--show-completion"], false⟩]

/-- Reads a command line. -/
def read? (denied : FilePath → Bool) (arguments : List String) : Option CommandLine :=
  (readGroup generalOptions (commands denied) arguments).map fun (p, command) => ⟨p.has "verbose", command⟩

end CommandLine

end DocRefs
