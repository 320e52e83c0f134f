import ApexTidy.Calendar.Date
import ApexTidy.Declaration.Modifiers
import ApexTidy.Files.Listing

/-!
What a run can see: its input, the files, and the date. And what stands in its way: a file that can be
read need not let itself be written, a folder need not tell what is in it, and a matcher for very many
modifiers cannot be built.
-/

namespace ApexTidy

/-- What a file holds: a text, or bytes that are the UTF-8 form of none. -/
inductive Content where
  | text (t : Text)
  | binary (bytes : List UInt8)
deriving DecidableEq, Repr

def Content.text? : Content → Option Text
  | text t => some t
  | binary _ => none

structure World where
  input : Content
  files : List (Place × Content)
  /-- Folders that may hold no file. -/
  folders : List Place
  today : Date

structure Limits where
  /-- Files that cannot be written, with what trying leaves in them. -/
  unwritable : List (Place × Content) := []
  /-- Folders that do not tell what is in them. -/
  closed : List Place := []
  /-- Whether a matcher for the modifiers can be built. -/
  admits : Modifiers → Bool := fun _ => true

namespace World

def listing (w : World) : Listing := ⟨w.files.map (·.1), w.folders, []⟩

def read? (w : World) (path : Text) : Option Text :=
  match w.listing.place? path with
  | some place => (w.files.lookup place).bind Content.text?
  | none => none

def put (w : World) (path : Text) (content : Content) : World :=
  match w.listing.place? path with
  | some place =>
    { w with files := w.files.map fun (other, held) =>
        (other, if other = place then content else held) }
  | none => w

/-- What trying to write leaves in the file that a path leads to, if that file cannot be written. -/
def remnant? (w : World) (limits : Limits) (path : Text) : Option Content :=
  match w.listing.place? path with
  | some place => limits.unwritable.lookup place
  | none => none

/-- Writes a text to the file that a path leads to. The world after a failure is told as well. -/
def write (w : World) (limits : Limits) (path text : Text) : Except World World :=
  match w.remnant? limits path with
  | none => .ok (w.put path (.text text))
  | some left => .error (w.put path left)

end World

namespace Limits

def listing (limits : Limits) (w : World) : Listing := { w.listing with closed := limits.closed }

def modifiers? (limits : Limits) (extra : List Text) : Option Modifiers :=
  let modifiers := .withExtra extra
  if limits.admits modifiers then some modifiers else none

end Limits

end ApexTidy
