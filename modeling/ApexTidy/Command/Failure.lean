import ApexTidy.Settings.Basic

/-!
Why a run fails, what it warns of, and the wording of both.
-/

namespace ApexTidy.Command

open Text

inductive Failure where
  | usage
  | settingsUnreadable (path : Text)
  | settingsRefused (path : Text)
  | indentSize
  | nothingToWrite
  | inputUnreadable
  | unreadable (path : Text)
  | unwritable (path : Text)
  | badPattern (operand : Text)
  | folderUnreadable (operand : Text)
  | lineZero
  | linesReversed (first last : Nat)
  | badSelection (written : Text)
  | badPosition (written : Text)
  | badLine (written : Text)
  | badColumn (written : Text)
  | positionZero (written : Text)
  | badModifiers
  | badDate (written : Text)
  | badStyle (message : Text)
  | notInserted
deriving DecidableEq, Repr

namespace Failure

def message : Failure → Text
  | usage => "usage".toList
  | settingsUnreadable path => "failed to read config ".toList ++ path
  | settingsRefused path => "in ".toList ++ path
  | indentSize => "--indent-size must be between 1 and ".toList ++ decimal IndentUnit.maxWidth
  | nothingToWrite => "--write needs at least one file".toList
  | inputUnreadable => "failed to read stdin".toList
  | unreadable path => "failed to read ".toList ++ path
  | unwritable path => "failed to write ".toList ++ path
  | badPattern operand => "invalid glob pattern: ".toList ++ operand
  | folderUnreadable operand => "failed to read directory: ".toList ++ operand
  | lineZero => "line numbers start at 1".toList
  | linesReversed first last =>
    "--end-line ".toList ++ decimal last ++ " is before --line ".toList ++ decimal first
  | badSelection written =>
    "invalid selection: ".toList ++ written ++ " (expected LINE:COL-LINE:COL)".toList
  | badPosition written => "invalid position: ".toList ++ written ++ " (expected LINE:COL)".toList
  | badLine written => "invalid line number: ".toList ++ written
  | badColumn written => "invalid column: ".toList ++ written
  | positionZero written => "positions start at 1:1, got ".toList ++ written
  | badModifiers => "invalid extra_modifiers in configuration".toList
  | badDate written =>
    "invalid date: ".toList ++ written ++ " (expected \"5 March 2024\" or 2024-03-05)".toList
  | badStyle message => message
  | notInserted => "failed to insert documentation comment".toList

end Failure

inductive Warning where
  | unmatched (operand : Text)
  | nothingToDocument
deriving DecidableEq, Repr

namespace Warning

def message : Warning → Text
  | unmatched operand => "no files matched: ".toList ++ operand
  | nothingToDocument =>
    "selection is not a class or method declaration, nothing to document".toList

end Warning

end ApexTidy.Command
