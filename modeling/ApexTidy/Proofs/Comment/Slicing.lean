import ApexTidy.Proofs.Comment.Landing
import ApexTidy.Proofs.Declaration.Slicing

/-!
Planning on offsets. Every piece of the document is cut out of it at two offsets, which come from adding
and subtracting sizes, and a cut that cannot be made leaves no result at all. None is ever missing: each
offset turns out to be the size of a beginning of the document, and the plan is the one for the region of
the selection.
-/

namespace ApexTidy

open Text Tags Declaration

namespace Text

theorem takeWhile_firstRow {p : Char → Bool} (feed : p '\n' = false) (t : Text) :
    (firstRow t).takeWhile p = t.takeWhile p := by
  induction t with
  | nil => rfl
  | cons c t ih =>
    rw [firstRow]
    split
    · rename_i same
      rw [same, List.takeWhile_cons_of_neg (by simp [feed]), List.takeWhile_cons_of_neg (by simp [feed])]
    · rw [List.takeWhile_cons, List.takeWhile_cons, ih]

end Text

theorem Region.stop_widen (r : Region) : r.widen.stop = r.stop + size (blanksAfter r.after) := by
  have kept := congrArg size (beforeBlanks_append_drop r.before)
  simp only [widen, stop, size_append] at kept ⊢
  omega

/-- A block by the offsets between which it stands. -/
structure Span where
  start : Nat
  stop : Nat
  placement : Placement

namespace Span

def ofBlock (block : Block) : Span := ⟨block.region.start, block.region.stop, block.placement⟩

def leading? (t : Text) (start stop : Nat) : Option (Option Span) := do
  let selected ← t.slice? start stop
  let opening := start + (size selected - size (trimStart selected))
  let full ← t.slice? opening stop
  if startsWith blockOpen full then
    let inner ← t.slice? (opening + size blockOpen) stop
    return (find? blockClose inner).map fun length =>
      ⟨opening, opening + size blockOpen + length + size blockClose, .leading⟩
  else
    return none

def preceding? (t : Text) (start : Nat) : Option (Option Span) := do
  let above ← t.slice? 0 start
  let ended := trimEnd above
  match beforeEnd? blockClose ended with
  | none => return none
  | some opened =>
    let searched ← ended.slice? 0 (size opened)
    match findLast? blockOpen searched with
    | none => return none
    | some opening =>
      let body ← ended.slice? (opening + size blockOpen) (size opened)
      if occursIn blockClose body then return none
      else return some ⟨opening, size ended, .preceding⟩

def locate? (t : Text) (start stop : Nat) : Option (Option Span) := do
  match ← leading? t start stop with
  | some span => return some span
  | none => preceding? t start

def widen? (t : Text) (start stop : Nat) : Option (Nat × Nat) := do
  let above ← t.slice? 0 start
  let lead ← t.slice? (lastRowStart above) start
  let below ← t.slice? stop (size t)
  let trail ← t.slice? stop (stop + firstRowStop below)
  let full := trail.dropWhile fun c => c == ' ' || c == '\t'
  return (if isBlank lead then lastRowStart above else start,
    if isBlank trail then stop + firstRowStop below else stop + size trail - size full)

theorem leading?_whole (r : Region) :
    leading? r.whole r.start r.stop = some ((Block.leading? r).map fun b => ofBlock ⟨b, .leading⟩) := by
  have blanks := leadingSpace_append_trimStart r.inside
  have sizes := congrArg size blanks
  rw [size_append] at sizes
  have opening : r.start + (size r.inside - size (trimStart r.inside)) =
      size (r.before ++ leadingSpace r.inside) := by
    rw [size_append, Region.start]
    omega
  have stop : r.stop = size (r.before ++ leadingSpace r.inside ++ trimStart r.inside) := by
    rw [List.append_assoc, blanks, size_append, Region.stop]
  have whole : r.whole = r.before ++ leadingSpace r.inside ++ trimStart r.inside ++ r.after := by
    rw [List.append_assoc r.before, blanks, Region.whole]
  have full := slice?_eq_some whole rfl stop
  rw [leading?, slice?_whole]
  simp only [Option.bind_eq_bind, Option.bind_some, opening, full]
  rw [startsWith, Block.leading?]
  cases opened : afterStart? blockOpen (trimStart r.inside) with
  | none => rfl
  | some inner =>
    have shape := afterStart?_eq_some_iff.1 opened
    rw [shape, ← List.append_assoc] at whole stop
    have cut := slice?_eq_some whole rfl stop
    rw [size_append] at cut
    simp only [Option.isSome_some, if_true, cut, Option.bind_some]
    rw [find?]
    cases closed : breakAt? blockClose inner with
    | none => rfl
    | some parts =>
      simp only [Option.map_some, ofBlock, Region.start, Region.stop, size_append, Nat.add_assoc]
      rfl

theorem preceding?_whole (r : Region) :
    preceding? r.whole r.start = some ((Block.preceding? r).map fun b => ofBlock ⟨b, .preceding⟩) := by
  rw [preceding?]
  simp only [Option.bind_eq_bind, slice?_before, Option.bind_some]
  rw [Block.preceding?]
  cases ended : beforeEnd? blockClose (trimEnd r.before) with
  | none => rfl
  | some opened =>
    have shape := beforeEnd?_eq_some_iff.1 ended
    have searched := slice?_beginning opened blockClose
    rw [← shape] at searched
    simp only [searched, Option.bind_some]
    rw [findLast?]
    cases opening : breakAtLast? blockOpen opened with
    | none => rfl
    | some parts =>
      obtain ⟨before, body⟩ := parts
      have marked := eq_append_of_breakAtLast? opening
      have inner : (trimEnd r.before).slice? (size before + size blockOpen) (size opened) =
          some body := by
        refine @slice?_eq_some _ (before ++ blockOpen) body blockClose _ _ ?_ ?_ ?_
        · rw [shape, marked]
        · rw [size_append]
        · rw [marked]
      simp only [Option.map_some, inner, Option.bind_some]
      split
      · rfl
      · rw [shape, marked]
        simp only [Option.map_some, ofBlock, Region.start, Region.stop, size_append, Nat.add_assoc]
        rfl

theorem locate?_whole (r : Region) :
    locate? r.whole r.start r.stop = some ((Block.locate r).map ofBlock) := by
  rw [locate?, leading?_whole, Block.locate]
  simp only [Option.bind_eq_bind, Option.bind_some]
  cases Block.leading? r with
  | some region => rfl
  | none =>
    simp only [Option.map_none, preceding?_whole]
    cases Block.preceding? r with
    | none => rfl
    | some region => rfl

theorem widen?_whole (r : Region) :
    widen? r.whole r.start r.stop = some (r.widen.start, r.widen.stop) := by
  have lead : r.whole.slice? (lastRowStart r.before) r.start = some (lastRow r.before) := by
    refine @slice?_eq_some _ (aboveLastRow r.before) (lastRow r.before) (r.inside ++ r.after) _ _ ?_
      (lastRowStart_eq r.before) ?_
    · rw [aboveLastRow_append_lastRow, ← List.append_assoc]
      rfl
    · rw [aboveLastRow_append_lastRow]
      rfl
  have trail : r.whole.slice? r.stop (r.stop + firstRowStop r.after) = some (firstRow r.after) := by
    refine @slice?_eq_some _ (r.before ++ r.inside) (firstRow r.after) (belowFirstRow r.after) _ _ ?_
      (size_append ..).symm ?_
    · rw [List.append_assoc _ (firstRow r.after), firstRow_append_belowFirstRow]
      rfl
    · rw [size_append, size_append, firstRowStop_eq]
      rfl
  have first : (if isBlank (lastRow r.before) then lastRowStart r.before else r.start) =
      r.widen.start := by
    rw [Region.start, Region.widen, beforeBlanks, lastRowStart_eq]
    split
    · rfl
    · rfl
  have last : (if isBlank (firstRow r.after) then r.stop + firstRowStop r.after
      else r.stop + size (firstRow r.after)
        - size ((firstRow r.after).dropWhile fun c => c == ' ' || c == '\t')) = r.widen.stop := by
    rw [r.stop_widen, blanksAfter]
    split
    · rw [firstRowStop_eq]
    · have parts := congrArg size (@List.takeWhile_append_dropWhile _
        (fun c => c == ' ' || c == '\t') (firstRow r.after))
      rw [size_append] at parts
      rw [← takeWhile_firstRow rfl r.after]
      omega
  rw [widen?]
  simp only [Option.bind_eq_bind, slice?_before, slice?_after, lead, trail, Option.bind_some, first, last]
  rfl

end Span

namespace CommentPlan

def extract? (t : Text) (start stop : Nat) : Option (Option ExistingComment) := do
  match ← Span.locate? t start stop with
  | none => return none
  | some span =>
    let block ← t.slice? span.start span.stop
    let (first, last) ← Span.widen? t span.start span.stop
    let region ← Region.ofOffsets? t first last
    return some ⟨Tags.read block, region, span.placement⟩

theorem extract?_whole (r : Region) :
    extract? r.whole r.start r.stop = some (ExistingComment.of? r) := by
  rw [extract?, Span.locate?_whole, ExistingComment.of?]
  simp only [Option.bind_eq_bind, Option.bind_some]
  cases located : Block.locate r with
  | none => rfl
  | some block =>
    have widened := block.region.widen.ofOffsets?_whole
    rw [Region.whole_widen] at widened
    rw [← Block.whole_of_locate located]
    simp only [Option.map_some, Span.ofBlock, slice?_whole, Span.widen?_whole, widened,
      Option.bind_some]
    rfl

/-- The offset of what a selection declares, past a block at its start but not past the selection. -/
def declaredFrom (previous : Option ExistingComment) (start stop : Nat) : Nat :=
  match previous with
  | some { region := block, placement := .leading, .. } => min block.stop stop
  | _ => start

theorem size_take_of_append {a b x y : Text} (same : a ++ x = b ++ y) :
    size (b.take a.length) = min (size a) (size b) := by
  rcases List.append_eq_append_iff.1 same with ⟨more, rfl, -⟩ | ⟨more, rfl, -⟩
  · rw [List.take_left, size_append]
    omega
  · rw [List.take_of_length_le (by simp), size_append]
    omega

theorem start_declared (r : Region) :
    (declared r (ExistingComment.of? r)).start =
      declaredFrom (ExistingComment.of? r) r.start r.stop := by
  rw [ExistingComment.of?, Block.locate]
  cases leads : Block.leading? r with
  | none =>
    cases Block.preceding? r with
    | none => rfl
    | some block => rfl
  | some block =>
    have whole := Block.whole_leading? leads
    obtain ⟨body, tail, rfl, -, -⟩ := Block.of_leading? leads
    let block : Region := ⟨r.before ++ leadingSpace r.inside, Block.written body, tail ++ r.after⟩
    obtain ⟨lead, trail, inside, before, -, -⟩ := block.widen_spec
    -- the part of the document up to the end of the block starts with what precedes the selection
    have reach : block.widen.before ++ block.widen.inside =
        r.before ++ (leadingSpace r.inside ++ Block.written body ++ trail) := by
      rw [inside, ← List.append_assoc, ← List.append_assoc, ← before]
      simp [block]
    have same : leadingSpace r.inside ++ Block.written body ++ trail ++ block.widen.after =
        r.inside ++ r.after := by
      apply @List.append_cancel_left _ r.before
      rw [← List.append_assoc, ← reach, ← List.append_assoc]
      exact block.whole_widen.trans whole
    have sizes := congrArg size reach
    have lengths := congrArg List.length reach
    simp only [size_append, List.length_append] at sizes lengths
    have shared := size_take_of_append same
    show size (r.before ++ r.inside.take (block.widen.before.length + block.widen.inside.length
      - r.before.length)) = min (size block.widen.before + size block.widen.inside)
        (size r.before + size r.inside)
    rw [show block.widen.before.length + block.widen.inside.length - r.before.length =
        (leadingSpace r.inside ++ Block.written body ++ trail).length by
      simp only [List.length_append]; omega, size_append, shared]
    simp only [size_append]
    omega

def indentAt? (t : Text) (place : Nat) : Option Text := do
  let line := t.lineAt place
  let lead ← t.slice? line.start place
  if isBlank lead then return lead
  else line.raw.slice? 0 (size line.raw - size (trimStart line.raw))

theorem indentAt?_append (a b : Text) :
    indentAt? (a ++ b) (size a) = some (leadingSpace (lastRow a)) := by
  rw [indentAt?]
  simp only [Option.bind_eq_bind, slice?_lineAt, Option.bind_some, slice?_leadingSpace]
  split
  · rename_i blank
    rw [leadingSpace_of_isBlank blank]
    rfl
  · rename_i full
    rw [Bool.not_eq_true] at full
    exact congrArg some (indentation_lineAt_append full b)

def insertionAt? (t : Text) (place : Nat) (indent : Text) (lines : List Text) : Option Edit := do
  let row := (t.lineAt place).start
  let lead ← t.slice? row place
  let block := DocComment.toText (ending t) lines
  if isBlank lead then return .insertion row block
  else return .insertion place (ending t ++ block ++ indent)

theorem insertionAt?_append (a b indent : Text) (lines : List Text) :
    insertionAt? (a ++ b) (size a) indent lines =
      some (insertion a indent (ending (a ++ b)) lines) := by
  have row := (exists_lineAt_append a b).1
  have lead := slice?_lineAt a b
  rw [row] at lead
  rw [insertionAt?, insertion]
  simp only [Option.bind_eq_bind, row, lead, Option.bind_some]
  split
  · rfl
  · rfl

/-- The plan for the selection between two offsets. -/
def between? (options : CommentOptions) (t : Text) (start stop : Nat) :
    Option (Option CommentPlan) := do
  let selected ← t.slice? start stop
  if isBlank selected then return none
  else
    let previous ← extract? t start stop
    let first := declaredFrom previous start stop
    let declaring ← t.slice? first stop
    let declaration ← options.modifiers.classify? declaring
    let rest ← skip? declaring
    let place := first + (size declaring - size rest)
    let indent ← indentAt? t place
    match DocComment.merge declaration (previous.map (·.tags)) indent options.today.format with
    | none => return none
    | some comment =>
      -- the line that is logged
      let _ ← t.position? place
      let rendered := comment.lines options.style
      let anchor := (previous.map (·.region.start)).getD place
      let written ← insertionAt? t anchor indent rendered
      let deletions := previous.toList.map fun old => .deletion old.region.start old.region.stop
      return some
        { declaration := declaration
          previous := previous
          comment := comment
          rendered := rendered
          edits := deletions ++ [written] }

section

variable (r : Region)

theorem slice?_declared :
    r.whole.slice? (declaredFrom (ExistingComment.of? r) r.start r.stop) r.stop =
      some (declared r (ExistingComment.of? r)).inside := by
  have stop : (declared r (ExistingComment.of? r)).stop = r.stop := by
    rw [Region.stop, ← size_append, ← before_append_inside_pastLineComments]
    exact (congrArg size (before_append_inside_heading r _)).trans (size_append ..)
  have cut := slice?_whole (declared r (ExistingComment.of? r))
  rwa [whole_declared, start_declared, stop] at cut

theorem start_heading :
    declaredFrom (ExistingComment.of? r) r.start r.stop
      + (size (declared r (ExistingComment.of? r)).inside
        - size (skipLineComments (declared r (ExistingComment.of? r)).inside)) =
      size (heading r (ExistingComment.of? r)).before := by
  have sizes := congrArg size
    (before_append_inside_pastLineComments (declared r (ExistingComment.of? r)))
  rw [size_append, size_append] at sizes
  obtain ⟨passed, skipped⟩ := skipLineComments_suffix (declared r (ExistingComment.of? r)).inside
  have parts := congrArg size skipped
  rw [size_append] at parts
  rw [← start_declared, Region.start]
  show _ = size (pastLineComments (declared r (ExistingComment.of? r))).before
  change _ + size (skipLineComments (declared r (ExistingComment.of? r)).inside) = _ at sizes
  omega

theorem whole_eq_heading (previous : Option ExistingComment) :
    r.whole = (heading r previous).before ++ ((heading r previous).inside ++ r.after) := by
  rw [← List.append_assoc, ← after_heading r previous]
  exact (whole_heading r previous).symm

theorem insertionAt?_anchor (indent : Text) (lines : List Text) :
    insertionAt? r.whole (((ExistingComment.of? r).map (·.region.start)).getD
        (size (heading r (ExistingComment.of? r)).before)) indent lines =
      some (insertion (anchor r (ExistingComment.of? r)) indent (ending r.whole) lines) := by
  cases found : ExistingComment.of? r with
  | none =>
    rw [whole_eq_heading r none]
    exact insertionAt?_append ..
  | some old =>
    rw [← ExistingComment.whole_of_of? found, Region.whole, List.append_assoc]
    exact insertionAt?_append ..

theorem between?_whole (options : CommentOptions) :
    between? options r.whole r.start r.stop = some (ofRegion? options r) := by
  have indent := indentAt?_append (heading r (ExistingComment.of? r)).before
    ((heading r (ExistingComment.of? r)).inside ++ r.after)
  obtain ⟨logged, position⟩ := exists_position (heading r (ExistingComment.of? r)).before
    ((heading r (ExistingComment.of? r)).inside ++ r.after)
  rw [← whole_eq_heading] at indent position
  rw [between?, slice?_whole, ofRegion?]
  simp only [Option.bind_eq_bind, Option.bind_some]
  split
  · rfl
  · have same : pastLineComments (declared r (ExistingComment.of? r)) =
        heading r (ExistingComment.of? r) := rfl
    simp only [extract?_whole, Option.bind_some, slice?_declared, Modifiers.classify?_eq_some,
      skip?_eq_some, start_heading, indent, same]
    cases DocComment.merge (options.modifiers.classify (declared r (ExistingComment.of? r)).inside)
      ((ExistingComment.of? r).map (·.tags))
      (leadingSpace (lastRow (heading r (ExistingComment.of? r)).before)) options.today.format with
    | none => rfl
    | some comment =>
      simp only [position, Option.bind_some, insertionAt?_anchor]
      rfl

end

end CommentPlan

end ApexTidy
