import ApexTidy.Comment.Tags
import ApexTidy.Source.Region
import ApexTidy.Text.Row

/-!
The documentation block of a selection. It is the first thing inside the selection, or stands directly
above it with nothing but blanks between.
-/

namespace ApexTidy

inductive Placement where
  | leading
  | preceding
deriving DecidableEq, Repr

structure Block where
  region : Region
  placement : Placement
deriving DecidableEq, Repr

namespace Block

open Text Tags

def leading? (r : Region) : Option Region :=
  match afterStart? blockOpen (trimStart r.inside) with
  | none => none
  | some rest =>
    match breakAt? blockClose rest with
    | none => none
    | some (body, tail) =>
      some ⟨r.before ++ leadingSpace r.inside, blockOpen ++ body ++ blockClose, tail ++ r.after⟩

/-- The block above the selection. What stands between its marks must not close a comment. -/
def preceding? (r : Region) : Option Region :=
  match beforeEnd? blockClose (trimEnd r.before) with
  | none => none
  | some opened =>
    match breakAtLast? blockOpen opened with
    | none => none
    | some (before, body) =>
      if occursIn blockClose body then none
      else
        some ⟨before, blockOpen ++ body ++ blockClose,
          trailingSpace r.before ++ r.inside ++ r.after⟩

/-- The block of a selection. One inside it counts before one above it. -/
def locate (r : Region) : Option Block :=
  match leading? r with
  | some region => some ⟨region, .leading⟩
  | none => (preceding? r).map (⟨·, .preceding⟩)

theorem whole_leading? {r block : Region} (found : leading? r = some block) :
    block.whole = r.whole := by
  unfold leading? at found
  split at found
  · simp at found
  · rename_i rest opened
    split at found
    · simp at found
    · rename_i body tail closed
      have start := afterStart?_eq_some_iff.1 opened
      have parts := eq_append_of_breakAt? closed
      have blanks := leadingSpace_append_trimStart r.inside
      cases found
      simp only [Region.whole]
      conv => rhs; rw [← blanks, start, parts]
      simp

theorem whole_preceding? {r block : Region} (found : preceding? r = some block) :
    block.whole = r.whole := by
  unfold preceding? at found
  split at found
  · simp at found
  · rename_i opened ended
    split at found
    · simp at found
    · rename_i before body begun
      split at found
      · simp at found
      · have stop := beforeEnd?_eq_some_iff.1 ended
        have parts := eq_append_of_breakAtLast? begun
        have blanks := trimEnd_append_trailingSpace r.before
        cases found
        simp only [Region.whole]
        conv => rhs; rw [← blanks, stop, parts]
        simp

end Block

namespace Text

/-- What stays before something that takes in the blanks in front of it. They are taken in if nothing
else precedes it on its line. -/
def beforeBlanks (before : Text) : Text :=
  if isBlank (lastRow before) then aboveLastRow before else before

theorem beforeBlanks_append_drop (before : Text) :
    beforeBlanks before ++ before.drop (beforeBlanks before).length = before := by
  suffices ∃ rest, before = beforeBlanks before ++ rest by
    obtain ⟨rest, whole⟩ := this
    conv => lhs; rhs; rhs; rw [whole]
    rw [List.drop_left, ← whole]
  unfold beforeBlanks
  split
  · exact ⟨lastRow before, (aboveLastRow_append_lastRow before).symm⟩
  · exact ⟨[], (List.append_nil before).symm⟩

/-- The blanks that something takes in behind it: the rest of its line with the line feed if nothing
else follows there, and only the spaces and tabs otherwise. -/
def blanksAfter (after : Text) : Text :=
  if isBlank (firstRow after) then firstRow after
  else after.takeWhile fun c => c == ' ' || c == '\t'

def widenOffsets? (t : Text) (start stop : Nat) : Option (Nat × Nat) := do
  let (before, _) ← splitAt? t start
  let (_, after) ← splitAt? t stop
  return (size (beforeBlanks before), stop + size (blanksAfter after))

end Text

namespace Region

open Text

/-- Takes in the rest of the lines on which a region starts and stops if they hold nothing else. Where
something follows on the last line, only the spaces and tabs before it are taken in. -/
def widen (r : Region) : Region where
  before := beforeBlanks r.before
  inside := r.before.drop (beforeBlanks r.before).length ++ r.inside ++ blanksAfter r.after
  after := r.after.drop (blanksAfter r.after).length

/-- The offsets of a region widen as the region does. -/
theorem widenOffsets?_whole (r : Region) :
    widenOffsets? r.whole r.start r.stop = some (r.widen.start, r.widen.stop) := by
  have first : splitAt? r.whole r.start = some (r.before, r.inside ++ r.after) := by
    rw [whole, start, List.append_assoc, splitAt?_size_append]
  have second : splitAt? r.whole r.stop = some (r.before ++ r.inside, r.after) := by
    rw [whole, stop, ← size_append, splitAt?_size_append]
  have kept := congrArg size (beforeBlanks_append_drop r.before)
  simp only [size_append] at kept
  rw [widenOffsets?, first, second]
  simp only [widen, start, stop, size_append, Option.bind_eq_bind, Option.bind_some, Option.pure_def,
    Option.some.injEq, Prod.mk.injEq, true_and]
  omega

end Region

structure ExistingComment where
  tags : Tags
  region : Region
  placement : Placement
deriving DecidableEq, Repr

def ExistingComment.of? (r : Region) : Option ExistingComment :=
  (Block.locate r).map fun block =>
    ⟨Tags.read block.region.inside, block.region.widen, block.placement⟩

end ApexTidy
