import ApexTidy.Declaration.Modifiers
import ApexTidy.Declaration.Parameters

/-!
Method headers. What stands before the first parenthesis is read word by word: the last word is the
name, the others are the type, and a constructor stands for its own type. The parameters run up to the
parenthesis that closes the list.
-/

namespace ApexTidy

structure Signature where
  name : Text
  returnType : Text
  parameters : Parameters
deriving DecidableEq

namespace Signature

open Text

/-- Words that stand before a parenthesis without naming a method. -/
def controlWords : List Text :=
  ["if".toList, "else".toList, "for".toList, "while".toList, "do".toList, "switch".toList,
    "when".toList, "catch".toList, "try".toList, "finally".toList, "return".toList, "new".toList,
    "throw".toList]

def isControl (word : Text) : Bool := controlWords.contains (word.map Char.toLower)

def areBrackets : Text → Bool
  | [] => true
  | '[' :: ']' :: rest => areBrackets rest
  | _ => false

def areDimensions (t : Text) : Bool :=
  areBrackets (t.filter (!isSpace ·)) && !t.getLast?.any isSpace

/-- Type arguments in angle brackets up to the last closing one, then dimensions. -/
def areArguments (t : Text) : Bool :=
  match trimStart t with
  | '<' :: inside =>
    match breakAtLast? ['>'] inside with
    | some (_, rest) => areDimensions rest
    | none => false
  | _ => false

def isType : Text → Bool
  | [] => false
  | c :: t =>
    let rest := t.dropWhile fun c => isWord c || c == '.'
    (c.isAlpha || c == '_') && (areDimensions rest || areArguments rest)

def leadingWord (t : Text) : Text := t.takeWhile fun c => isAlphanumeric c || c == '_'

/-- What stands before the parenthesis that closes a list of which `depth` inner parentheses are open;
everything, if there is none. -/
def upToClose : Nat → Text → Text
  | _, [] => []
  | depth, '(' :: t => '(' :: upToClose (depth + 1) t
  | 0, ')' :: _ => []
  | depth + 1, ')' :: t => ')' :: upToClose depth t
  | depth, c :: t => c :: upToClose depth t

/-- How deep brackets are nested after a character; a bracket that closes nothing counts for nothing. -/
def nesting (depth : Nat) (c : Char) : Nat :=
  if c = '(' ∨ c = '<' ∨ c = '[' then depth + 1
  else if c = ')' ∨ c = '>' ∨ c = ']' then depth - 1
  else depth

def piecesFrom : Nat → Text → List Text
  | _, [] => [[]]
  | depth, c :: t =>
    if c = ',' ∧ depth = 0 then [] :: piecesFrom 0 t
    else (piecesFrom (nesting depth c) t).modifyHead (c :: ·)

def pieces (t : Text) : List Text := piecesFrom 0 t

def parameter? (piece : Text) : Option Parameter :=
  match lastWord? piece with
  | some (type, name) => if type ≠ [] ∧ isIdentifier name then some ⟨name, type⟩ else none
  | none => none

/-- The parameters that a list declares. Pieces that are none are passed over. -/
def parametersOf (list : Text) : Parameters := .ofList ((pieces list).filterMap parameter?)

def ofParts? (head list : Text) : Option Signature :=
  match lastWord? head with
  | none => none
  | some (type, name) =>
    let returnType := if type = [] then name else type
    if isIdentifier name && !isControl name && isType returnType
        && !isControl (leadingWord returnType) then
      some ⟨name, returnType, parametersOf (upToClose 0 list)⟩
    else
      none

end Signature

def Modifiers.signature? (m : Modifiers) (header : Text) : Option Signature :=
  match Text.breakAt? ['('] (Text.trim (m.strip header)) with
  | none => none
  | some (head, list) => Signature.ofParts? head list

end ApexTidy
