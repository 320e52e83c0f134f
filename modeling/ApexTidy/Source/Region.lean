import ApexTidy.Source.Line

/-!
A region of a document: the text inside it together with the text on either side. Its offsets are the
sizes of these parts, so a region can never lie outside its document or cut through a character.
-/

namespace ApexTidy

structure Region where
  before : Text
  inside : Text
  after : Text
deriving DecidableEq, Repr

namespace Region

open Text

def whole (r : Region) : Text := r.before ++ r.inside ++ r.after

def start (r : Region) : Nat := size r.before

def stop (r : Region) : Nat := size r.before + size r.inside

/-- The region between two offsets, if they are in order and the text can be cut at both. -/
def ofOffsets? (t : Text) (start stop : Nat) : Option Region :=
  if start ≤ stop then do
    let (before, rest) ← splitAt? t start
    let (inside, after) ← splitAt? rest (stop - start)
    return ⟨before, inside, after⟩
  else
    none

theorem of_ofOffsets? {t : Text} {start stop : Nat} {r : Region}
    (found : ofOffsets? t start stop = some r) :
    r.whole = t ∧ r.start = start ∧ r.stop = stop := by
  unfold ofOffsets? at found
  split at found
  · rename_i ordered
    simp only [Option.bind_eq_bind, Option.bind_eq_some_iff, Prod.exists] at found
    obtain ⟨before, rest, first, inside, after, second, same⟩ := found
    obtain ⟨rfl, measured⟩ := eq_append_of_splitAt? first
    obtain ⟨rfl, length⟩ := eq_append_of_splitAt? second
    cases same
    refine ⟨by simp [whole], measured, ?_⟩
    show size before + size inside = stop
    omega
  · simp at found

end Region

/-- The region that a selection covers. The start is looked up before the stop. -/
def Selection.region (s : Selection) (t : Text) : Except Fault Region := do
  let before ← t.before s.start
  let upToStop ← t.before s.stop
  return ⟨before, upToStop.drop before.length, t.drop upToStop.length⟩

end ApexTidy
