import WorkspaceBuild.Text

/-! # Arguments

What the arguments of a command ask for. An option is given at most once at each place, except
where it is repeatable, and its value never starts with a hyphen unless it is one.
-/

namespace WorkspaceBuild

/-- What the command line can do. -/
inductive Command where
  /-- Print the modules of the workspace. -/
  | graph
  /-- Print what a build would have to do. -/
  | delta
  | build
  /-- List the source files of the build before. -/
  | files
  deriving DecidableEq, Inhabited, Repr

namespace Command

def all : List Command := [.graph, .delta, .build, .files]

def name : Command → String
  | .graph => "graph"
  | .delta => "delta"
  | .build => "build"
  | .files => "files"

def shortName : Command → String
  | .graph => "g"
  | .delta => "d"
  | .build => "b"
  | .files => "f"

def ofName? (name : String) : Option Command :=
  all.find? fun command => command.name = name || command.shortName = name

/-- Whether the command can look into every folder. -/
def takesFull : Command → Bool
  | .delta | .build => true
  | .graph | .files => false

/-- Whether the command can be asked for categories. -/
def takesCategories (command : Command) : Bool := command = .files

end Command

/-- The options given at one place: before a command, or behind it. -/
structure Options where
  root : Option String := none
  verbose : Bool := false
  json : Bool := false
  /-- Whether every folder is looked into. -/
  full : Bool := false
  categories : List String := []
  deriving DecidableEq, Inhabited, Repr

/-- What arguments ask for. -/
inductive Request where
  /-- Do a command: in a workspace, or else in the current one. -/
  | run (root : Option String) (command : Command) (options : Options)
  /-- Print the version, of a command if one is named. -/
  | version (command : Option Command)
  /-- Print how the command line is used. -/
  | usage
  deriving DecidableEq, Inhabited, Repr

namespace Options

/-- What one argument comes to. -/
inductive Reading where
  | options (options : Options)
  | categoryNext (options : Options)
  | rootNext (options : Options)
  | version
  | usage
  deriving DecidableEq, Inhabited, Repr

def withRoot? (o : Options) (value : String) : Option Options :=
  if o.root.isSome then none else some { o with root := some value }

def withVerbose? (o : Options) : Option Options :=
  if o.verbose then none else some { o with verbose := true }

def withCategory (o : Options) (value : String) : Options :=
  { o with categories := o.categories ++ [value] }

/-- Whether a value that was given apart is one that the option takes. -/
def isComplete (o : Options) : Bool := o.root ≠ some ""

/-- A long option with its value, behind the two hyphens. -/
def readLong? (command : Option Command) (o : Options) (name : String) :
    Option String → Option Reading
  | some value =>
      if name = "root" then
        if value = "" then none else (o.withRoot? value).map .options
      else if name = "category" && command.any Command.takesCategories then
        some (.options (o.withCategory value))
      else none
  | none =>
      if name = "root" then if o.root.isSome then none else some (.rootNext o)
      else if name = "verbose" then o.withVerbose?.map .options
      else if name = "version" then some .version
      else if name = "help" then some .usage
      else if name = "json" && command.isSome then
        if o.json then none else some (.options { o with json := true })
      else if name = "full" && command.any Command.takesFull then
        if o.full then none else some (.options { o with full := true })
      else if name = "category" && command.any Command.takesCategories then
        some (.categoryNext o)
      else none

def readShort? (command : Option Command) (o : Options) : List Char → Option Reading
  | [] => some (.options o)
  | 'v' :: rest => o.withVerbose?.bind fun o => readShort? command o rest
  | 'V' :: _ => some .version
  | 'h' :: _ => some .usage
  | 'c' :: rest =>
      if command.any Command.takesCategories then
        match rest with
        | [] => some (.categoryNext o)
        | '=' :: value => some (.options (o.withCategory (String.ofList value)))
        | value => some (.options (o.withCategory (String.ofList value)))
      else none
  | _ => none

/-- An argument that starts with a hyphen and is not one. -/
def readOption? (command : Option Command) (o : Options) (argument : String) : Option Reading :=
  match argument.toList with
  | '-' :: '-' :: long =>
      match Text.cut? '=' (String.ofList long) with
      | some (name, value) => readLong? command o name (some value)
      | none => readLong? command o (String.ofList long) none
  | '-' :: short => readShort? command o short
  | _ => none

end Options

namespace Request

def isOption (argument : String) : Bool := Text.beginsWith argument "-" && argument ≠ "-"

def jsonVariable : String := "LOOM_JSON"

/-- Whether JSON is asked for, by option or by variable, which has to be `true` or `false`. -/
def wantsJson? (environment : List (String × String)) (o : Options) : Option Bool :=
  if o.json then some true
  else
    match environment.lookup jsonVariable with
    | none => some false
    | some "true" => some true
    | some "false" => some false
    | some _ => none

/-- Take an option with its value from the arguments, if it is well formed. -/
def takeOption? (command : Option Command) (o : Options) (argument : String)
    (rest : List String) : Option (Options.Reading × List String) :=
  if !o.isComplete then none
  else
    match o.readOption? command argument with
    | some (.categoryNext o) =>
        match rest with
        | value :: rest =>
            if isOption value then none else some (.options (o.withCategory value), rest)
        | [] => none
    | some (.rootNext o) =>
        match rest with
        | value :: rest =>
            if isOption value then none else (o.withRoot? value).map fun o => (.options o, rest)
        | [] => none
    | some reading => some (reading, rest)
    | none => none

/-- The options behind a command, with as many rounds as there are arguments. -/
def readCommand? (environment : List (String × String)) (command : Command) (outer : Options) :
    Nat → Options → List String → Option Request
  | _, o, [] => do
      let json ← wantsJson? environment o
      if o.isComplete && outer.isComplete then
        some (.run (o.root.or outer.root) command { o with json })
      else none
  | 0, _, _ :: _ => none
  | rounds + 1, o, argument :: rest =>
      if argument = "--" then
        if rest.isEmpty then readCommand? environment command outer rounds o [] else none
      else if isOption argument then
        match takeOption? (some command) o argument rest with
        | some (.options o, rest) => readCommand? environment command outer rounds o rest
        | some (.version, _) => some (.version (some command))
        | some (.usage, _) => some .usage
        | _ => none
      else none

/-- The options before a command, and the command. -/
def readOuter? (environment : List (String × String)) :
    Nat → Options → List String → Option Request
  | _, _, [] => none
  | 0, _, _ :: _ => none
  | rounds + 1, o, argument :: rest =>
      if argument = "--" then none
      else if isOption argument then
        match takeOption? none o argument rest with
        | some (.options o, rest) => readOuter? environment rounds o rest
        | some (.version, _) => some (.version none)
        | some (.usage, _) => some .usage
        | _ => none
      else
        match Command.ofName? argument with
        | some command => readCommand? environment command o rest.length {} rest
        | none =>
            if argument = "help" && rest.length ≤ 1 && rest.all fun name =>
                name = "help" || (Command.ofName? name).isSome then some .usage
            else none

/-- What arguments ask for; none when they are wrong. -/
def parse? (environment : List (String × String)) (arguments : List String) : Option Request :=
  readOuter? environment arguments.length {} arguments

end Request

end WorkspaceBuild
