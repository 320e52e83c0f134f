import ApexTidy.Command.Range
import ApexTidy.Command.World
import ApexTidy.Comment.Plan
import ApexTidy.Indent.Layout
import ApexTidy.Settings.Reader

/-!
Running the program. A run is a function of its arguments, of the world it sees and of the limits that it
meets there; what it prints and the files it leaves are its outcome.
-/

namespace ApexTidy.Command

open Text

structure Outcome where
  exit : Nat
  printed : Text
  failure : Option Failure
  warnings : List Warning
  world : World

namespace Outcome

def done (w : World) (printed : Text) (warnings : List Warning) : Outcome :=
  ⟨0, printed, none, warnings, w⟩

/-- What was printed before a failure stays printed. -/
def failed (w : World) (failure : Failure) (printed : Text) (warnings : List Warning) : Outcome :=
  ⟨1, printed, some failure, warnings, w⟩

end Outcome

def standardSettings : Text := "./apexdoc.toml".toList

def loadSettings (w : World) (named : Option Text) : Except Failure Settings :=
  let path? := named <|> if w.listing.hasFile standardSettings then some standardSettings else none
  match path? with
  | none => .ok .standard
  | some path =>
    match w.read? path with
    | none => .error (.settingsUnreadable path)
    | some text =>
      match Settings.read text with
      | .ok settings => .ok settings
      | .error _ => .error (.settingsRefused path)

/-- The unit to lay out with. What the arguments say counts before the settings. -/
def formatUnit (a : FormatArguments) (settings : Settings) : Except Failure IndentUnit :=
  match a.indentSize with
  | some size => if Settings.isWidth size then .ok (.spaces size) else .error .indentSize
  | none => .ok (if a.tabs then .tab else settings.unit)

structure FormatRun where
  printed : Text
  /-- Some file that was only checked is not laid out. -/
  differs : Bool
  failure : Option Failure
  world : World

/-- Lays out files one after the other, up to one that cannot be read or written. -/
def formatPaths (limits : Limits) (unit : IndentUnit) (mode : FormatMode) : World → List Text → FormatRun
  | w, [] => ⟨[], false, none, w⟩
  | w, path :: rest =>
    match w.read? path with
    | none => ⟨[], false, some (.unreadable path), w⟩
    | some text =>
      let laidOut := text.layout unit
      match mode with
      | .print =>
        let later := formatPaths limits unit mode w rest
        { later with printed := laidOut ++ later.printed }
      | .check =>
        let later := formatPaths limits unit mode w rest
        if laidOut = text then later
        else { later with printed := path ++ '\n' :: later.printed, differs := true }
      | .write =>
        if laidOut = text then formatPaths limits unit mode w rest
        else
          match w.write limits path laidOut with
          | .ok after => formatPaths limits unit mode after rest
          | .error after => ⟨[], false, some (.unwritable path), after⟩

def Failure.ofProblem : Listing.Problem → Failure
  | .badPattern operand => .badPattern operand
  | .closedFolder operand => .folderUnreadable operand

def formatFiles (limits : Limits) (w : World) (a : FormatArguments) (unit : IndentUnit) : Outcome :=
  let (unmatched, files) := (limits.listing w).expandAll a.files
  let warnings := unmatched.map .unmatched
  match files with
  | .error problem => .failed w (.ofProblem problem) [] warnings
  | .ok paths =>
    let run := formatPaths limits unit a.mode w (Path.sorted paths)
    match run.failure with
    | some failure => .failed run.world failure run.printed warnings
    | none => ⟨if run.differs then 1 else 0, run.printed, none, warnings, run.world⟩

def formatInput (w : World) (a : FormatArguments) (unit : IndentUnit) : Outcome :=
  if a.mode = .write then .failed w .nothingToWrite [] []
  else
    match w.input.text? with
    | none => .failed w .inputUnreadable [] []
    | some text =>
      let laidOut := text.layout unit
      if a.mode = .print then .done w laidOut []
      else if laidOut = text then .done w [] []
      else ⟨1, "<stdin>\n".toList, none, [], w⟩

def format (limits : Limits) (w : World) (settings : Settings) (a : FormatArguments) : Outcome :=
  match formatUnit a settings with
  | .error failure => .failed w failure [] []
  | .ok unit => if a.files = [] then formatInput w a unit else formatFiles limits w a unit

def commentRequest (limits : Limits) (w : World) (settings : Settings) (a : CommentArguments) :
    Except Failure (Selection × CommentOptions) := do
  let selection ← a.target.selection
  let modifiers ← match limits.modifiers? settings.extraModifiers with
    | some modifiers => pure modifiers
    | none => throw .badModifiers
  let today ← match a.date with
    | none => pure w.today
    | some written =>
      match Date.parse? written with
      | some date => pure date
      | none => throw (.badDate (trim written))
  let style ← match Style.ofName? a.style with
    | some style => pure style
    | none => throw (.badStyle (Style.unknown a.style))
  return (selection, ⟨modifiers, style, today⟩)

def commentText (w : World) (a : CommentArguments) : Except Failure Text :=
  match a.file with
  | none =>
    match w.input.text? with
    | some text => .ok text
    | none => .error .inputUnreadable
  | some path =>
    match w.read? path with
    | some text => .ok text
    | none => .error (.unreadable path)

/-- The document after the request, and whether there was something to document. -/
def commentResult (limits : Limits) (w : World) (settings : Settings) (a : CommentArguments) :
    Except Failure (Text × Bool) := do
  let (selection, options) ← commentRequest limits w settings a
  let text ← commentText w a
  let reply := Document.comment ⟨text⟩ selection options
  match reply.result with
  | .ok inserted => return (reply.document.text, inserted)
  | .error _ => throw .notInserted

/-- Writes a document back to the file that it was read from. -/
def writeBack (limits : Limits) (w : World) (path text : Text) : Outcome :=
  match w.write limits path text with
  | .ok after => .done after [] []
  | .error after => .failed after (.unwritable path) [] []

def comment (limits : Limits) (w : World) (settings : Settings) (a : CommentArguments) : Outcome :=
  match commentResult limits w settings a with
  | .error failure => .failed w failure [] []
  | .ok (text, inserted) =>
    let warnings := if inserted then [] else [.nothingToDocument]
    match a.file, a.write with
    | some path, true => if inserted then writeBack limits w path text else .done w [] warnings
    | _, _ => .done w text warnings

def versionText : Text := "apexdoc 0.1.0\n".toList

def helpText : Text :=
  ("Re-indent Apex source and generate documentation comments\n\n" ++
    "Usage: apexdoc [--config <CONFIG>] [--verbose] <COMMAND>\n\n" ++
    "Commands:\n" ++
    "  format [FILES]...  Re-indent files, or stdin when none are given\n" ++
    "         [--write | --check] [--indent-size <N> | --tabs]\n" ++
    "  comment [FILE]     Insert or refresh the documentation block of a declaration\n" ++
    "         (--line <N> [--end-line <N>] | --selection <LINE:COL-LINE:COL>)\n" ++
    "         [--write] [--format <text|snippet>] [--date <DATE>]\n").toList

/-- Runs the program, with nothing in its way unless limits are given. -/
def run (w : World) (arguments : List Text) (limits : Limits := {}) : Outcome :=
  match Invocation.parse arguments with
  | .error .usage => ⟨2, [], some .usage, [], w⟩
  | .error .version => .done w versionText []
  | .error .help => .done w helpText []
  | .ok invocation =>
    match loadSettings w invocation.config with
    | .error failure => .failed w failure [] []
    | .ok settings =>
      match invocation.action with
      | .format arguments => format limits w settings arguments
      | .comment arguments => comment limits w settings arguments

end ApexTidy.Command
