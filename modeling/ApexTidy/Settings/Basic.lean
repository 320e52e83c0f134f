import ApexTidy.Indent.Unit
import ApexTidy.Text.Number

/-!
What a project can set: how its files are indented, and which further words count as modifiers.
-/

namespace ApexTidy

structure Settings where
  /-- Spaces per level, unless tabs are used. -/
  indentSize : Nat
  useTabs : Bool
  extraModifiers : List Text
deriving DecidableEq, Repr

namespace Settings

def standard : Settings := ⟨4, false, []⟩

def unit (s : Settings) : IndentUnit := if s.useTabs then .tab else .spaces s.indentSize

def isWidth (n : Nat) : Bool := 1 ≤ n && n ≤ IndentUnit.maxWidth

inductive Problem where
  | malformed
  | indentSize (given : Nat)
deriving DecidableEq, Repr

namespace Problem

def message : Problem → Text
  | malformed => "invalid configuration".toList
  | indentSize given =>
    "indent_size must be between 1 and ".toList ++ Text.decimal IndentUnit.maxWidth
      ++ ", got ".toList ++ Text.decimal given

end Problem

end Settings

end ApexTidy
