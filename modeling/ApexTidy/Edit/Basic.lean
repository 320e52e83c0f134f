import ApexTidy.Source.Fault

/-!
Edits of a text. A batch of edits names offsets of the text it is applied to, whatever the other edits
of the batch do. The batch is checked as a whole before anything is replaced.
-/

namespace ApexTidy

structure Edit where
  start : Nat
  stop : Nat
  text : Text
deriving DecidableEq, Repr

namespace Edit

open Text

def insertion (place : Nat) (text : Text) : Edit := ⟨place, place, text⟩

def deletion (start stop : Nat) : Edit := ⟨start, stop, []⟩

def isInsertion (e : Edit) : Bool := e.start == e.stop

/-- By start, then by stop: an insertion comes before a replacement that starts at the same place. -/
def atOrBefore (a b : Edit) : Bool :=
  a.start < b.start || a.start == b.start && a.stop ≤ b.stop

/-- A batch in the order in which it is carried out. Insertions at one place keep their order. -/
def inOrder (batch : List Edit) : List Edit := batch.mergeSort atOrBefore

def fault? (t : Text) (e : Edit) : Option Fault :=
  if e.stop < e.start then some (.inverted e.start e.stop)
  else if size t < e.stop then some (.outOfBounds e.start e.stop (size t))
  else if isBoundary t e.start && isBoundary t e.stop then none
  else some (.splitsCharacter e.start e.stop)

/-- The first thing wrong with edits in order, of which none may start before `reached`. -/
def firstFault? (t : Text) : Nat → List Edit → Option Fault
  | _, [] => none
  | reached, e :: rest =>
    match e.fault? t with
    | some fault => some fault
    | none =>
      if e.start < reached then some (.overlapping e.start) else firstFault? t e.stop rest

/-- Carries out edits in order on the text that follows the offset `reached`. -/
def splice : Text → Nat → List Edit → Text
  | t, _, [] => t
  | t, reached, e :: rest =>
    takeSize (e.start - reached) t ++ e.text ++ splice (dropSize (e.stop - reached) t) e.stop rest

end Edit

def Text.applyEdits (t : Text) (batch : List Edit) : Except Fault Text :=
  let edits := Edit.inOrder batch
  match Edit.firstFault? t 0 edits with
  | some fault => .error fault
  | none => .ok (Edit.splice t 0 edits)

end ApexTidy
