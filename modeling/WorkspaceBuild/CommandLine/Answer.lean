import WorkspaceBuild.Builder
import WorkspaceBuild.CommandLine.Arguments
import WorkspaceBuild.Package.Graph.Json

/-! # Answers

What the command line prints: as lines to read or as JSON, and what it says when it fails.
-/

namespace WorkspaceBuild

/-- What a command has found or done. -/
inductive Answer where
  | version (command : Option Command)
  /-- How the command line is used. -/
  | usage
  | graph (nodes : List GraphNode)
  /-- What a build would have to do. -/
  | delta (delta : Delta)
  /-- What a build has done, and where its manifest is. -/
  | build (report : BuildReport) (manifest : Path)
  /-- The source files of the build before, under active profiles. -/
  | files (files : List IndexedFile) (profiles : List String)
  deriving DecidableEq, Inhabited, Repr

/-- Why a command failed: what it was about, and the causes, outermost first. -/
structure Failure where
  context : String
  causes : List String
  deriving DecidableEq, Inhabited, Repr

namespace Failure

/-- A text behind a mark, with its further lines under each other. -/
def marked (mark : String) (margin : Nat) (text : String) : String :=
  mark ++ Text.joined ("\n" ++ String.ofList (List.replicate margin ' ')) (Text.pieces '\n' text)

def number (n : Nat) : String :=
  let digits := Text.ofNat n
  String.ofList (List.replicate (5 - digits.length) ' ') ++ digits

def numbered : Nat → List String → List String
  | _, [] => []
  | n, cause :: rest => marked (number n ++ ": ") 7 cause :: numbered (n + 1) rest

def text (f : Failure) : String :=
  let causes :=
    match f.causes with
    | [] => []
    | [cause] => ["", "Caused by:", marked "    " 4 cause]
    | causes => ["", "Caused by:"] ++ numbered 0 causes
  Text.joined "\n" (("Error: " ++ f.context) :: causes) ++ "\n"

end Failure

namespace Answer

def toolVersion : String := "0.1.0"

def toolName : String := "loom"

def lines (all : List String) : String :=
  String.ofList (all.flatMap fun line => line.toList ++ ['\n'])

def counted (n : Nat) (things : String) : String := Text.ofNat n ++ " " ++ things

def flagsOf (node : GraphNode) : List String :=
  [(node.main, "main"), (node.workspace, "workspace"), (node.internal, "internal"),
    (node.prod, "prod")].filterMap fun (holds, name) => if holds then some name else none

def nodeLine (node : GraphNode) : String :=
  node.name ++ "@" ++ node.version ++ " [" ++ Text.listed (flagsOf node) ++ "] roles: " ++
    Text.listed (node.roles.map Role.name) ++
    (if node.parents.isEmpty then "" else " <- " ++ Text.listed node.parents)

def graphLines (nodes : List GraphNode) (size : Nat) : List String :=
  nodes.map nodeLine ++ ["", counted size "modules"]

/-- A text at the right of a column. -/
def atRight (width : Nat) (text : String) : String :=
  String.ofList (List.replicate (width - text.length) ' ') ++ text

def eventLine (event : DeltaEvent) : String :=
  "  " ++ atRight 8 event.action.name ++ " " ++ event.path

/-- The lines of events, under the modules that have any. -/
def deltaLines (delta : Delta) : List String :=
  delta.flatMap fun (name, events) =>
    if events.isEmpty then [] else name :: events.map eventLine

/-- The lines of sources that are left to the compiler. -/
def pendingLines (pending : List Path) : List String :=
  if pending.isEmpty then []
  else ["", "Pending compilation:"] ++ pending.map fun path => "  " ++ path.text

def seconds (milliseconds : Nat) : String :=
  let hundredths := (milliseconds + 5) / 10
  let rest := Text.ofNat (hundredths % 100)
  Text.ofNat (hundredths / 100) ++ "." ++ (if rest.length < 2 then "0" ++ rest else rest)

/-- The lines of a build that took some milliseconds. -/
def buildLines (report : BuildReport) (manifest : Path) (elapsed : Nat) : List String :=
  deltaLines report.delta ++ pendingLines report.pending ++
    ["", "Built " ++ Text.listed [counted report.totalModules "modules",
        counted report.copied.length "copied", counted report.removed.length "removed",
        counted report.pending.length "pending"] ++ " (" ++ seconds elapsed ++ "s)",
      "Manifest: " ++ manifest.text]

def fileLines (files : List IndexedFile) (profiles : List String) : List String :=
  (files.map fun file => file.id ++ " " ++ file.source.text) ++
    ["", counted files.length "source files" ++
      (if profiles.isEmpty then "" else " (profiles: " ++ Text.listed profiles ++ ")")]

def durationJson (milliseconds : Nat) : Json :=
  .object [("secs", .whole (milliseconds / 1000 : Nat)),
    ("nanos", .whole (milliseconds % 1000 * 1000000 : Nat))]

def pathsJson (paths : List Path) : Json := namesJson (paths.map Path.text)

/-- A build that took some milliseconds, as JSON. -/
def reportJson (report : BuildReport) (elapsed : Nat) : Json :=
  .object [("delta", report.delta.toJson), ("transformed", pathsJson report.transformed),
    ("copied", pathsJson report.copied), ("removed", pathsJson report.removed),
    ("pending", pathsJson report.pending),
    ("stats", .object [("total_modules", .whole report.totalModules),
      ("events", .whole report.events), ("planning_time", durationJson 0),
      ("output_time", durationJson elapsed)])]

def fileJson (file : IndexedFile) : Json :=
  .object [("category", .string file.category.name), ("id", .string file.id),
    ("module", .string file.moduleName), ("output", .string file.output.text),
    ("source", .string file.source.text)]

def usageLines : List String :=
  ["Usage: " ++ toolName ++ " [--root <ROOT>] [-v] <COMMAND>", "", "Commands:"] ++
    Command.all.map fun command => "  " ++ command.name ++ ", " ++ command.shortName

def versionLine (command : Option Command) : String :=
  toolName ++ (command.map fun c => "-" ++ c.name).getD "" ++ " " ++ toolVersion

/-- The text of an answer that took some milliseconds. -/
def text (json : Bool) (elapsed : Nat) : Answer → String
  | .version command => lines [versionLine command]
  | .usage => lines usageLines
  | .graph nodes =>
      lines (if json then [(Json.array (nodes.map GraphNode.toJson)).pretty]
        else graphLines nodes nodes.length)
  | .delta changes =>
      lines (if json then [changes.toJson.pretty]
        else deltaLines changes ++ ["", counted changes.eventCount "events across " ++
          counted changes.length "modules"])
  | .build report manifest =>
      lines (if json then [(reportJson report elapsed).pretty]
        else buildLines report manifest elapsed)
  | .files found profiles =>
      lines (if json then [(Json.array (found.map fileJson)).pretty]
        else fileLines found profiles)

end Answer

end WorkspaceBuild
