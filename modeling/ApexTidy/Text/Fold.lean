import ApexTidy.Text.Foldings
import ApexTidy.Text.Basic

/-!
Comparison without regard to case. Two characters are the same letter when they have the same simple
case folding, so the long s reads as `s` and the kelvin sign as `k`.
-/

namespace ApexTidy.Text

namespace Folding

def covers (f : Folding) (n : Nat) : Bool :=
  f.first ≤ n && n ≤ f.last && (n - f.first) % f.step == 0

def apply (f : Folding) (n : Nat) : Nat := f.image + (n - f.first)

end Folding

def fold (c : Char) : Char :=
  if c.toNat < 128 then c.toLower
  else
    match foldings.find? (·.covers c.toNat) with
    | some f => Char.ofNat (f.apply c.toNat)
    | none => c

def sameFolded (a b : Text) : Bool := a.map fold == b.map fold

def splitFolded? (mark t : Text) : Option (Text × Text) :=
  let head := t.take mark.length
  if sameFolded mark head then some (head, t.drop mark.length) else none

end ApexTidy.Text
