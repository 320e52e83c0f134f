import ApexTidy.Text.Basic

/-!
Taking a command line apart into options and operands. An option is written out after two hyphens, or
as a letter after one; letters can be put together. A value follows its option directly, after an
equals sign, or as the next argument, which then must not look like an option. After two hyphens alone
everything is an operand.
-/

namespace ApexTidy.Command

open Text

structure OptionSpec where
  long : Text
  letter : Option Char
  /-- Which values it takes; an option that takes none is a flag. -/
  value : Option (Text → Bool)

inductive Item where
  | flag (long : Text)
  | valued (long value : Text)
  | operand (t : Text)
  /-- No option, or an option with a value too many or too few. -/
  | bad
deriving DecidableEq, Repr

def endOfOptions : Text := ['-', '-']

/-- A hyphen alone is an operand. -/
def looksLikeOption (argument : Text) : Bool := startsWith ['-'] argument && argument != ['-']

structure Taken where
  items : List Item
  usedNext : Bool

def takeNext (long : Text) (next : Option Text) : Taken :=
  match next with
  | some value => if looksLikeOption value then ⟨[.bad], false⟩ else ⟨[.valued long value], true⟩
  | none => ⟨[.bad], false⟩

def takeLong (specs : List OptionSpec) (body : Text) (next : Option Text) : Taken :=
  let (name, attached) :=
    match breakAt? ['='] body with
    | some (name, value) => (name, some value)
    | none => (body, none)
  match specs.find? (·.long = name) with
  | none => ⟨[.bad], false⟩
  | some { value := none, .. } => ⟨[if attached.isSome then .bad else .flag name], false⟩
  | some { value := some _, .. } =>
    match attached with
    | some value => ⟨[.valued name value], false⟩
    | none => takeNext name next

def takeLetters (specs : List OptionSpec) (next : Option Text) : Text → Taken
  | [] => ⟨[], false⟩
  | c :: rest =>
    match specs.find? (·.letter = some c) with
    | none => ⟨[.bad], false⟩
    | some { long := name, value := none, .. } =>
      let others := takeLetters specs next rest
      ⟨.flag name :: others.items, others.usedNext⟩
    | some { long := name, value := some _, .. } =>
      if rest = [] then takeNext name next
      else ⟨[.valued name ((afterStart? ['='] rest).getD rest)], false⟩

def takeOption (specs : List OptionSpec) (argument : Text) (next : Option Text) : Taken :=
  match afterStart? endOfOptions argument with
  | some body => takeLong specs body next
  | none => takeLetters specs next (argument.drop 1)

def items (specs : List OptionSpec) : List Text → List Item
  | [] => []
  | argument :: rest =>
    if argument = endOfOptions then rest.map .operand
    else if looksLikeOption argument then
      match rest with
      | [] => (takeOption specs argument none).items
      | next :: others =>
        let taken := takeOption specs argument (some next)
        taken.items ++ if taken.usedNext then items specs others else items specs (next :: others)
    else
      .operand argument :: items specs rest

/-- The items before the first operand, this operand, and the arguments after it. -/
def itemsToOperand (specs : List OptionSpec) : List Text → List Item × Option (Text × List Text)
  | [] => ([], none)
  | argument :: rest =>
    if argument = endOfOptions then ([.bad], none)
    else if looksLikeOption argument then
      match rest with
      | [] => ((takeOption specs argument none).items, none)
      | next :: others =>
        let taken := takeOption specs argument (some next)
        let (more, operand) :=
          if taken.usedNext then itemsToOperand specs others
          else itemsToOperand specs (next :: others)
        (taken.items ++ more, operand)
    else
      ([], some (argument, rest))

end ApexTidy.Command
