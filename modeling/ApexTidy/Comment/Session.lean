import ApexTidy.Comment.Plan
import ApexTidy.Indent.Layout

/-!
Working on a document request by request. Whatever a request asks for, a refused one leaves the
document as it was.
-/

namespace ApexTidy.Document

inductive Request where
  | apply (batch : List Edit)
  | format (unit : IndentUnit)
  | comment (selection : Selection) (options : CommentOptions)

inductive Answer where
  | applied
  /-- The number of lines that changed. -/
  | formatted (changed : Nat)
  /-- Whether there was something to document. -/
  | commented (inserted : Bool)
deriving DecidableEq

namespace Reply

def map {α β : Type} (f : α → β) (r : Reply α) : Reply β := ⟨r.result.map f, r.document⟩

end Reply

def perform (d : Document) : Request → Reply Answer
  | .apply batch => (d.apply batch).map fun _ => .applied
  | .format unit => (d.format unit).map .formatted
  | .comment selection options => (d.comment selection options).map .commented

def performAll : Document → List Request → List (Reply Answer)
  | _, [] => []
  | d, request :: rest =>
    let reply := d.perform request
    reply :: performAll reply.document rest

end ApexTidy.Document
