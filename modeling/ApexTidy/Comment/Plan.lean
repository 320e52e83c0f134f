import ApexTidy.Calendar.Date
import ApexTidy.Comment.Basic
import ApexTidy.Comment.Block
import ApexTidy.Edit.Document

/-!
Documenting a selected declaration. A plan only reads the document; it holds the edits that replace the
block found, if there was one, and put the new block above the declaration.
-/

namespace ApexTidy

structure CommentOptions where
  modifiers : Modifiers
  style : Style
  /-- Written into a block that has no date yet. -/
  today : Date

structure CommentPlan where
  declaration : Declaration
  previous : Option ExistingComment
  comment : DocComment
  rendered : List Text
  /-- The deletion of the previous block, if there is one, and the insertion. -/
  edits : List Edit
deriving DecidableEq

namespace CommentPlan

open Text

/-- The part of a selection that declares something: what follows a block at its start, or all of it. -/
def declared (r : Region) : Option ExistingComment → Region
  | some { region := block, placement := .leading, .. } =>
    let taken := block.before.length + block.inside.length - r.before.length
    ⟨r.before ++ r.inside.take taken, r.inside.drop taken, r.after⟩
  | _ => r

def pastLineComments (r : Region) : Region :=
  let rest := Declaration.skipLineComments r.inside
  ⟨r.before ++ r.inside.take (r.inside.length - rest.length), rest, r.after⟩

def ending (t : Text) : Text := if occursIn ['\r', '\n'] t then ['\r', '\n'] else ['\n']

/-- Puts the lines of a block before the place that `before` leads up to: on the line above if nothing
but blanks precedes the place on its line, and otherwise in between, on lines of its own. -/
def insertion (before indent ending : Text) (lines : List Text) : Edit :=
  let block := DocComment.toText ending lines
  if isBlank (lastRow before) then .insertion (size (aboveLastRow before)) block
  else .insertion (size before) (ending ++ block ++ indent)

def ofRegion? (options : CommentOptions) (r : Region) : Option CommentPlan :=
  if isBlank r.inside then none
  else
    let previous := ExistingComment.of? r
    let declaring := declared r previous
    let declaration := options.modifiers.classify declaring.inside
    let before := (pastLineComments declaring).before
    let indent := leadingSpace (lastRow before)
    match DocComment.merge declaration (previous.map (·.tags)) indent options.today.format with
    | none => none
    | some comment =>
      let rendered := comment.lines options.style
      let anchor := (previous.map (·.region.before)).getD before
      let deletions := previous.toList.map fun old => .deletion old.region.start old.region.stop
      some
        { declaration := declaration
          previous := previous
          comment := comment
          rendered := rendered
          edits := deletions ++ [insertion anchor indent (ending r.whole) rendered] }

end CommentPlan

/-- The plan for a selection of a text. An empty selection needs no place in the text. -/
def Text.planComment (t : Text) (selection : Selection) (options : CommentOptions) :
    Except Fault (Option CommentPlan) :=
  if selection.isEmpty then .ok none
  else (selection.region t).map (CommentPlan.ofRegion? options)

def Document.comment (d : Document) (selection : Selection) (options : CommentOptions) :
    Document.Reply Bool :=
  match d.text.planComment selection options with
  | .error fault => ⟨.error fault, d⟩
  | .ok none => ⟨.ok false, d⟩
  | .ok (some plan) =>
    let reply := d.apply plan.edits
    ⟨reply.result.map fun _ => true, reply.document⟩

end ApexTidy
