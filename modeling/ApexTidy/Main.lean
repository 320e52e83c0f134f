import ApexTidy.Command.Run
import Std.Time.Zoned

/-!
The program itself. It looks at the files that its arguments name, runs, prints what the run prints and
writes the files that the run changes.
-/

namespace ApexTidy.Program

open Command

def entry (path : Text) : IO.FS.DirEntry := ⟨".", String.ofList path⟩

def kind? (path : Text) : IO (Option IO.FS.FileType) := do
  match ← (entry path).path.metadata.toBaseIO with
  | .ok found => return some found.type
  | .error _ => return none

def content (bytes : ByteArray) : Content :=
  match String.fromUTF8? bytes with
  | some text => .text text.toList
  | none => .binary bytes.toList

/-- A file that cannot be read counts as one that holds no text. -/
def load (path : Text) : IO Content := do
  match ← (IO.FS.readBinFile (String.ofList path)).toBaseIO with
  | .ok bytes => return content bytes
  | .error _ => return .binary []

def children (folder : Text) : IO (List Text) := do
  match ← (entry folder).path.readDir.toBaseIO with
  | .ok entries => return entries.toList.map fun found => Path.join folder found.fileName.toList
  | .error _ => return []

/-- The paths that are anywhere below a folder. Links are not followed. -/
partial def descendants (folder : Text) : IO (List Text) := do
  let below ← (← children folder).mapM fun path => do
    match ← (entry path).path.symlinkMetadata.toBaseIO with
    | .ok found => if found.type == .dir then return path :: (← descendants path) else return [path]
    | .error _ => return [path]
  return below.flatten

def around (operand : Text) : IO (List Text) := do
  match ← kind? operand with
  | some .dir => children operand
  | some _ => return []
  | none => descendants (PathPattern.anchor operand)

def onTheWay (path : Text) : List Text :=
  (Listing.beginnings (path.splitOn '/')).map ['/'].intercalate

def today : IO Date := do
  let now ← Std.Time.PlainDate.now
  match Date.of? now.year now.month.val.toNat now.day.val.toNat with
  | some date => return date
  | none => throw (IO.userError "the clock shows a date that is not in the calendar")

def world (settings : Text) (operands : List Text) : IO World := do
  let named := settings :: operands
  let known := named.flatMap onTheWay ++ (← operands.mapM around).flatten
  let kinds ← known.mapM fun path => return (path, ← kind? path)
  let files := kinds.filterMap fun (path, kind) => if kind == some .file then some path else none
  let folders := kinds.filterMap fun (path, kind) => if kind == some .dir then some path else none
  let listing : Listing := ⟨files.map Place.ofPath, folders.map Place.ofPath, []⟩
  let wanted := named ++ (listing.expandAll operands).2.toOption.getD []
  let loaded ← files.mapM fun path => do
    let place := Place.ofPath path
    return (place, ← if wanted.any (Place.ofPath · == place) then load path else pure (.binary []))
  let input ← if operands.isEmpty then (← IO.getStdin).readBinToEnd else pure .empty
  return ⟨content input, loaded, listing.folders, ← today⟩

/-- Opening a file to be written leaves what it holds alone. -/
def canWrite (path : Text) : IO Bool := do
  match ← (IO.FS.Handle.mk (entry path).path .readWrite).toBaseIO with
  | .ok _ => return true
  | .error _ => return false

def canList (folder : Text) : IO Bool := do
  match ← (entry folder).path.readDir.toBaseIO with
  | .ok _ => return true
  | .error _ => return false

/-- What stands in the way of a run. Any modifiers can be looked for. -/
def limits (w : World) : IO Limits := do
  let unwritable ← w.files.filterM fun (place, _) => return !(← canWrite place.toPath)
  let closed ← w.folders.filterM fun place => return !(← canList place.toPath)
  return { unwritable := unwritable, closed := closed }

def store (before after : World) : IO Unit := do
  for (old, place, new) in before.files.zip after.files do
    match new with
    | .text text => if old.2 != new then IO.FS.writeFile (String.ofList place.toPath) (String.ofList text)
    | .binary _ => pure ()

def report (outcome : Outcome) : IO Unit := do
  IO.print (String.ofList outcome.printed)
  for warning in outcome.warnings do
    IO.eprintln ("WARN " ++ String.ofList warning.message)
  match outcome.failure with
  | some .usage => IO.eprint (String.ofList helpText)
  | some failure => IO.eprintln ("Error: " ++ String.ofList failure.message)
  | none => pure ()

end ApexTidy.Program

open ApexTidy in
def main (arguments : List String) : IO UInt32 := do
  let arguments := arguments.map String.toList
  let before ← match Command.Invocation.parse arguments with
    | .ok invocation =>
      Program.world (invocation.config.getD Command.standardSettings) invocation.action.operands
    | .error _ => pure ⟨.text [], [], [], ← Program.today⟩
  let outcome := Command.run before arguments (← Program.limits before)
  Program.store before outcome.world
  Program.report outcome
  return outcome.exit.toUInt32
