import ApexTidy.Comment.Block
import ApexTidy.Proofs.Text.Blanks
import ApexTidy.Proofs.Text.Search

/-!
How far the block of a selection reaches. The block found is an opening mark, a body that does not hold
the closing mark, and the closing mark. The comment that starts with the block ends with it too, unless
the block begins with a comment of its own that the opening mark and the closing mark share an asterisk
in: then the block runs on to a closing mark that ends another comment.
-/

namespace ApexTidy

open Text Tags

theorem Tags.blockClose_infix_append_star {t : Text} :
    blockClose <:+: t ++ ['*'] ↔ blockClose <:+: t := by
  rw [List.infix_concat_iff]
  constructor
  · intro found
    rcases found with ending | inside
    · have last := List.suffix_iff_eq_append.1 ending
      have chars := congrArg List.getLast? last
      simp [blockClose] at chars
    · exact inside
  · exact Or.inr

namespace Block

def written (body : Text) : Text := blockOpen ++ body ++ blockClose

theorem of_leading? {r block : Region} (found : leading? r = some block) :
    ∃ body tail, block = ⟨r.before ++ leadingSpace r.inside, written body, tail ++ r.after⟩ ∧
      r.inside = leadingSpace r.inside ++ written body ++ tail ∧ ¬ blockClose <:+: body := by
  unfold leading? at found
  split at found
  · simp at found
  · rename_i rest opened
    split at found
    · simp at found
    · rename_i body tail closed
      cases found
      refine ⟨body, tail, rfl, ?_, ?_⟩
      · have start := afterStart?_eq_some_iff.1 opened
        rw [eq_append_of_breakAt? closed] at start
        conv => lhs; rw [← leadingSpace_append_trimStart r.inside, start]
        simp [written]
      · have first := not_infix_of_breakAt? (by decide) closed
        exact fun inside => first (List.infix_append_of_infix_left inside)

theorem of_preceding? {r block : Region} (found : preceding? r = some block) :
    ∃ before body, block = ⟨before, written body, trailingSpace r.before ++ r.inside ++ r.after⟩ ∧
      r.before = before ++ written body ++ trailingSpace r.before ∧ ¬ blockClose <:+: body := by
  unfold preceding? at found
  split at found
  · simp at found
  · rename_i opened ended
    split at found
    · simp at found
    · rename_i before body begun
      split at found
      · simp at found
      · rename_i clean
        cases found
        refine ⟨before, body, rfl, ?_, fun inside => clean (occursIn_iff.2 inside)⟩
        have stop := beforeEnd?_eq_some_iff.1 ended
        rw [eq_append_of_breakAtLast? begun] at stop
        conv => lhs; rw [← trimEnd_append_trailingSpace r.before, stop]
        simp [written]

theorem leading?_written {lead body : Text} (blank : isBlank lead = true)
    (closes : ¬ blockClose <:+: body) (before tail after : Text) :
    leading? ⟨before, lead ++ written body ++ tail, after⟩ =
      some ⟨before ++ lead, written body, tail ++ after⟩ := by
  have shape : lead ++ written body ++ tail = lead ++ (blockOpen ++ (body ++ blockClose ++ tail)) := by
    simp [written]
  have start : StartsFull (blockOpen ++ (body ++ blockClose ++ tail)) := by rfl
  have first : ¬ blockClose <:+: body ++ blockClose.dropLast := by
    show ¬ blockClose <:+: body ++ ['*']
    rwa [blockClose_infix_append_star]
  rw [leading?]
  dsimp only
  rw [shape, trimStart_append_of_isBlank blank, trimStart_eq_self start, afterStart?_append]
  dsimp only
  rw [breakAt?_append (by decide) first, leadingSpace_append blank start]
  rfl

/-- An opening mark cannot begin with the asterisks that end another one. -/
theorem blockOpen_infix_tail_append {body : Text} :
    blockOpen <:+: blockOpen.tail ++ body ↔ blockOpen <:+: body := by
  show blockOpen <:+: '*' :: '*' :: body ↔ _
  rw [List.infix_cons_iff, List.infix_cons_iff]
  simp [blockOpen, List.cons_prefix_cons]

theorem preceding?_written {body gap : Text} (blank : isBlank gap = true)
    (opens : ¬ blockOpen <:+: body) (closes : ¬ blockClose <:+: body) (before rest after : Text) :
    preceding? ⟨before ++ written body ++ gap, rest, after⟩ =
      some ⟨before, written body, gap ++ rest ++ after⟩ := by
  have full : EndsFull (before ++ blockOpen ++ body ++ blockClose) :=
    EndsFull.append (by decide) (by decide) _
  have shape : before ++ written body ++ gap = before ++ blockOpen ++ body ++ blockClose ++ gap := by
    simp [written]
  have kept : occursIn blockClose body = false := by
    rw [← Bool.not_eq_true, occursIn_iff]
    exact closes
  rw [preceding?, shape, trimEnd_append_of_isBlank _ blank, trimEnd_eq_self full, beforeEnd?_append]
  dsimp only
  rw [breakAtLast?_append (by decide) (by rwa [blockOpen_infix_tail_append])]
  dsimp only
  rw [kept, trailingSpace_append full blank]
  rfl

theorem locate_cases {r : Region} {block : Block} (found : locate r = some block) :
    block.placement = .leading ∧ leading? r = some block.region ∨
      block.placement = .preceding ∧ leading? r = none ∧ preceding? r = some block.region := by
  unfold locate at found
  split at found
  · rename_i region leads
    cases found
    exact Or.inl ⟨rfl, leads⟩
  · rename_i absent
    obtain ⟨region, above, rfl⟩ := Option.map_eq_some_iff.1 found
    exact Or.inr ⟨rfl, absent, above⟩

theorem whole_of_locate {r : Region} {block : Block} (found : locate r = some block) :
    block.region.whole = r.whole := by
  rcases locate_cases found with ⟨-, leads⟩ | ⟨-, -, above⟩
  · exact whole_leading? leads
  · exact whole_preceding? above

theorem exists_body_of_locate {r : Region} {block : Block} (found : locate r = some block) :
    ∃ body, block.region.inside = written body ∧ ¬ blockClose <:+: body := by
  rcases locate_cases found with ⟨-, leads⟩ | ⟨-, -, above⟩
  · obtain ⟨body, tail, same, -, clean⟩ := of_leading? leads
    exact ⟨body, by rw [same], clean⟩
  · obtain ⟨before, body, same, -, clean⟩ := of_preceding? above
    exact ⟨body, by rw [same], clean⟩

/-- Past the slash and the first asterisk of a block, the closing mark comes too early exactly if a slash
follows the opening mark. -/
theorem blockClose_infix_star_iff {body : Text} (clean : ¬ blockClose <:+: body) :
    blockClose <:+: '*' :: body ++ ['*'] ↔ ['/'] <+: body := by
  rw [blockClose_infix_append_star, List.infix_cons_iff, or_iff_left clean]
  show '*' :: ['/'] <+: '*' :: body ↔ _
  rw [List.cons_prefix_cons, and_iff_right rfl]

/-- The exact extent of the comment that a located block starts. -/
theorem locate_ends_comment_iff {t : Text} {start stop : Nat} {r : Region} {block : Block}
    (cut : Region.ofOffsets? t start stop = some r) (found : locate r = some block) :
    StandsAt blockOpen t block.region.start ∧
      (IsFirstFrom blockClose t (block.region.start + 2) (block.region.stop - 2) ↔
        ¬ StandsAt "/**/".toList t block.region.start) := by
  obtain ⟨body, holds, clean⟩ := exists_body_of_locate found
  have whole : t = block.region.before ++ (written body ++ block.region.after) := by
    rw [← (Region.of_ofOffsets? cut).1, ← whole_of_locate found, Region.whole, holds,
      List.append_assoc]
  have shape : t = block.region.before ++ ['/', '*']
      ++ ('*' :: body ++ blockClose ++ block.region.after) := by
    rw [whole]
    simp [written, blockOpen]
  have least : block.region.start + 2 = size (block.region.before ++ ['/', '*']) := by
    rw [size_append]
    rfl
  have place : block.region.stop - 2 =
      size (block.region.before ++ ['/', '*']) + size ('*' :: body) := by
    have sizes : size (written body) = 3 + size body + 2 := by
      rw [written, size_append, size_append]
      rfl
    have star : size ('*' :: body) = 1 + size body := rfl
    rw [← least, star, Region.start, Region.stop, holds, sizes]
    omega
  refine ⟨?_, ?_⟩
  · rw [whole, Region.start, standsAt_size_iff, written, List.append_assoc, List.append_assoc]
    exact List.prefix_append ..
  · rw [least, place, shape, isFirstFrom_iff (by decide), ← shape, whole, Region.start,
      standsAt_size_iff]
    show ¬ blockClose <:+: '*' :: body ++ ['*'] ↔ _
    rw [blockClose_infix_star_iff clean]
    apply not_congr
    show _ ↔ blockOpen ++ ['/'] <+: _
    rw [written, List.append_assoc, List.append_assoc, List.prefix_append_right_inj]
    cases body with
    | nil => simp [blockClose]
    | cons c body => simp [List.cons_prefix_cons]

theorem locate_three_asterisks :
    let t := "/***/ void f() { } /* x */".toList
    let block : Block := ⟨⟨[], "/***/".toList, " void f() { } /* x */".toList⟩, .leading⟩
    Region.ofOffsets? t 0 26 = some ⟨[], t, []⟩ ∧ locate ⟨[], t, []⟩ = some block ∧
      ¬ StandsAt "/**/".toList t block.region.start ∧
      IsFirstFrom blockClose t (block.region.start + 2) (block.region.stop - 2) := by
  intro t block
  have cut : Region.ofOffsets? t 0 26 = some ⟨[], t, []⟩ := by decide
  have found : locate ⟨[], t, []⟩ = some block := by decide
  have apart : ¬ StandsAt "/**/".toList t block.region.start := by decide
  exact ⟨cut, found, apart, (locate_ends_comment_iff cut found).2.2 apart⟩

/-- After two asterisks with a slash the block runs on past the declaration that follows. -/
theorem locate_two_asterisks :
    let t := "/**/ void f() { } /* x */ void g() { }".toList
    let block : Block :=
      ⟨⟨[], "/**/ void f() { } /* x */".toList, " void g() { }".toList⟩, .leading⟩
    Region.ofOffsets? t 0 38 = some ⟨[], t, []⟩ ∧ locate ⟨[], t, []⟩ = some block ∧
      ¬ IsFirstFrom blockClose t (block.region.start + 2) (block.region.stop - 2) := by
  decide

end Block

end ApexTidy
