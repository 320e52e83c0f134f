import ApexTidy.Command.Options
import ApexTidy.Text.Number

/-!
The command line of the program: which commands there are, what they take, and what they cannot take
together.
-/

namespace ApexTidy.Command

open Text

inductive Stop where
  | usage
  | version
  | help
deriving DecidableEq, Repr

/-- The options given and the operands, in order. A flag has the empty text as its value. -/
structure Given where
  options : List (Text × Text)
  operands : List Text
deriving DecidableEq, Repr

namespace Given

def value? (g : Given) (long : String) : Option Text := g.options.lookup long.toList

def has (g : Given) (long : String) : Bool := (g.value? long).isSome

def count? (g : Given) (long : String) : Option Nat := (g.value? long).bind readCount?

end Given

structure Takes where
  options : List OptionSpec
  limit : Option Nat
  acceptsOperand : Text → Bool

/-- Takes in one item after the other. Nothing can be given twice. -/
def collect (takes : Takes) : Given → List Item → Except Stop Given
  | g, [] => .ok g
  | _, .bad :: _ => .error .usage
  | g, .flag long :: rest =>
    if long = "help".toList then .error .help
    else if long = "version".toList then .error .version
    else if (g.options.lookup long).isSome then .error .usage
    else collect takes ⟨g.options ++ [(long, [])], g.operands⟩ rest
  | g, .valued long value :: rest =>
    let accepted := takes.options.any fun spec => spec.long = long && spec.value.any (· value)
    if accepted && (g.options.lookup long).isNone then
      collect takes ⟨g.options ++ [(long, value)], g.operands⟩ rest
    else
      .error .usage
  | g, .operand t :: rest =>
    if takes.limit.all (g.operands.length < ·) && takes.acceptsOperand t then
      collect takes ⟨g.options, g.operands ++ [t]⟩ rest
    else
      .error .usage

def flag (long : String) (letter : Option Char) : OptionSpec := ⟨long.toList, letter, none⟩

def textOption (long : String) (letter : Option Char) : OptionSpec :=
  ⟨long.toList, letter, some fun _ => true⟩

def countOption (long : String) : OptionSpec :=
  ⟨long.toList, none, some fun value => (readCount? value).isSome⟩

def pathOption (long : String) : OptionSpec := ⟨long.toList, none, some fun value => !value.isEmpty⟩

/-- Options that stand before or after the name of a command. -/
def sharedOptions : List OptionSpec :=
  [pathOption "config", flag "verbose" (some 'v'), flag "help" (some 'h')]

def programTakes : Takes := ⟨flag "version" (some 'V') :: sharedOptions, some 0, fun _ => false⟩

def formatTakes : Takes :=
  ⟨[flag "write" none, flag "check" none, countOption "indent-size", flag "tabs" none]
    ++ sharedOptions, none, fun _ => true⟩

def commentTakes : Takes :=
  ⟨[countOption "line", countOption "end-line", textOption "selection" none, flag "write" none,
    textOption "format" (some 'f'), textOption "date" none] ++ sharedOptions, some 1, (!·.isEmpty)⟩

inductive FormatMode where
  | print
  | check
  | write
deriving DecidableEq, Repr

structure FormatArguments where
  files : List Text
  mode : FormatMode
  indentSize : Option Nat
  tabs : Bool
deriving DecidableEq, Repr

inductive Target where
  | lines (first : Nat) (last : Option Nat)
  | range (written : Text)
deriving DecidableEq, Repr

structure CommentArguments where
  file : Option Text
  target : Target
  write : Bool
  style : Text
  date : Option Text
deriving DecidableEq, Repr

inductive Action where
  | format (arguments : FormatArguments)
  | comment (arguments : CommentArguments)
deriving DecidableEq, Repr

/-- The operands that name files. The input is read if there are none. -/
def Action.operands : Action → List Text
  | format arguments => arguments.files
  | comment arguments => arguments.file.toList

structure Invocation where
  config : Option Text
  action : Action
deriving DecidableEq, Repr

/-- Writing and checking exclude each other, and so do spaces and tabs. -/
def formatArguments (g : Given) : Except Stop FormatArguments :=
  if g.has "write" && g.has "check" || g.has "indent-size" && g.has "tabs" then .error .usage
  else
    .ok
      { files := g.operands
        mode := if g.has "write" then .write else if g.has "check" then .check else .print
        indentSize := g.count? "indent-size"
        tabs := g.has "tabs" }

/-- Either a line or a range is given. The last line goes unused with a range. Only a file can be
written. -/
def commentArguments (g : Given) : Except Stop CommentArguments :=
  let target? : Option Target :=
    match g.count? "line", g.value? "selection" with
    | some first, none => some (.lines first (g.count? "end-line"))
    | none, some written => some (.range written)
    | _, _ => none
  match target? with
  | none => .error .usage
  | some target =>
    if g.has "write" && g.operands.isEmpty then .error .usage
    else
      .ok
        { file := g.operands.head?
          target := target
          write := g.has "write"
          style := (g.value? "format").getD "text".toList
          date := g.value? "date" }

def helpOn : List Text → Stop
  | [] => .help
  | [name] =>
    if ["format".toList, "comment".toList, "help".toList].contains name then .help else .usage
  | _ => .usage

/-- Reads the arguments of the program. A settings file named after the command counts before one named
ahead of it. -/
def Invocation.parse (arguments : List Text) : Except Stop Invocation :=
  let (ahead, command) := itemsToOperand programTakes.options arguments
  match collect programTakes ⟨[], []⟩ ahead with
  | .error stop => .error stop
  | .ok shared =>
    match command with
    | none => .error .usage
    | some (name, rest) =>
      let config (g : Given) : Option Text := g.value? "config" <|> shared.value? "config"
      if name = "format".toList then do
        let g ← collect formatTakes ⟨[], []⟩ (items formatTakes.options rest)
        return ⟨config g, .format (← formatArguments g)⟩
      else if name = "comment".toList then do
        let g ← collect commentTakes ⟨[], []⟩ (items commentTakes.options rest)
        return ⟨config g, .comment (← commentArguments g)⟩
      else if name = "help".toList then .error (helpOn rest)
      else .error .usage

end ApexTidy.Command
