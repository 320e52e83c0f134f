import ApexTidy.Proofs.Comment.Declared

/-!
The two ways of finding a block. A selection may start in front of a block and take it in, or behind it,
so that the block is found above; blanks between the start and the block make no difference. Up to the
same place, both selections lead to the same plan.
-/

namespace ApexTidy

open Text Tags Declaration

/-- A body without marks of its own, blanks around its block, and no other block behind. -/
structure Block.StandsAlone (lead body gap rest : Text) : Prop where
  front : isBlank lead = true
  back : isBlank gap = true
  opens : ¬ blockOpen <:+: body
  closes : ¬ blockClose <:+: body
  single : ¬ blockOpen <+: trimStart rest

namespace CommentPlan

/-- The plans are the same, but for the side of the selection that the old block was found on. -/
structure Agrees (p q : CommentPlan) : Prop where
  declaration : p.declaration = q.declaration
  previous : p.previous.map (fun old => (old.tags, old.region)) =
    q.previous.map fun old => (old.tags, old.region)
  comment : p.comment = q.comment
  rendered : p.rendered = q.rendered
  edits : p.edits = q.edits

section

variable (before lead body gap rest after : Text)

def inFront : Region := ⟨before, lead ++ Block.written body ++ (gap ++ rest), after⟩

def behind : Region := ⟨before ++ lead ++ Block.written body ++ gap, rest, after⟩

def foundAs (placement : Placement) : ExistingComment :=
  ⟨Tags.read (Block.written body),
    Region.widen ⟨before ++ lead, Block.written body, gap ++ rest ++ after⟩, placement⟩

theorem upToStop_inFront :
    (inFront before lead body gap rest after).before ++ (inFront before lead body gap rest after).inside =
      (behind before lead body gap rest after).before
        ++ (behind before lead body gap rest after).inside := by
  simp [inFront, behind]

theorem whole_behind :
    (behind before lead body gap rest after).whole = (inFront before lead body gap rest after).whole := by
  rw [Region.whole, ← upToStop_inFront]
  rfl

end

section

variable (before after : Text) {lead body gap rest : Text}
  (alone : Block.StandsAlone lead body gap rest)

include alone

theorem of?_inFront :
    ExistingComment.of? (inFront before lead body gap rest after) =
      some (foundAs before lead body gap rest after .leading) := by
  rw [ExistingComment.of?, Block.locate, inFront, Block.leading?_written alone.front alone.closes]
  rfl

theorem of?_behind :
    ExistingComment.of? (behind before lead body gap rest after) =
      some (foundAs before lead body gap rest after .preceding) := by
  have unopened : Block.leading? (behind before lead body gap rest after) = none := by
    rw [Block.leading?, behind, afterStart?_eq_none_iff.2 alone.single]
  rw [ExistingComment.of?, Block.locate, unopened, behind,
    Block.preceding?_written alone.back alone.opens alone.closes]
  rfl

theorem undocumented_inFront :
    Block.undocumented (inFront before lead body gap rest after).inside = gap ++ rest := by
  have tail := Block.after_of_leading?
    (Block.leading?_written alone.front alone.closes before (gap ++ rest) after)
  exact (List.append_cancel_right tail).symm

theorem undocumented_behind :
    Block.undocumented (behind before lead body gap rest after).inside = rest := by
  rw [behind, Block.undocumented, afterStart?_eq_none_iff.2 alone.single]

theorem skipLineComments_undocumented :
    skipLineComments (Block.undocumented (inFront before lead body gap rest after).inside) =
      skipLineComments (Block.undocumented (behind before lead body gap rest after).inside) := by
  rw [undocumented_inFront before after alone, undocumented_behind before after alone,
    skipLineComments_append alone.back]

theorem inside_heading_inFront :
    (heading (inFront before lead body gap rest after)
        (some (foundAs before lead body gap rest after .leading))).inside =
      (heading (behind before lead body gap rest after)
        (some (foundAs before lead body gap rest after .preceding))).inside := by
  have first := skipLineComments_declared (inFront before lead body gap rest after)
  have second := skipLineComments_declared (behind before lead body gap rest after)
  rw [of?_inFront before after alone, skipLineComments_undocumented before after alone] at first
  rw [of?_behind before after alone] at second
  exact first.trans second.symm

theorem indentation_inFront :
    indentation (inFront before lead body gap rest after)
        (some (foundAs before lead body gap rest after .leading)) =
      indentation (behind before lead body gap rest after)
        (some (foundAs before lead body gap rest after .preceding)) := by
  have first := before_append_inside_heading (inFront before lead body gap rest after)
    (some (foundAs before lead body gap rest after .leading))
  have second := before_append_inside_heading (behind before lead body gap rest after)
    (some (foundAs before lead body gap rest after .preceding))
  rw [inside_heading_inFront before after alone, upToStop_inFront, ← second] at first
  rw [indentation, indentation, List.append_cancel_right first]

theorem follows_behind {options : CommentOptions} {plan : CommentPlan}
    (follows : Follows options (inFront before lead body gap rest after) plan) :
    Follows options (behind before lead body gap rest after)
      { plan with previous := some (foundAs before lead body gap rest after .preceding) } := by
  have found := follows.previous.trans (of?_inFront before after alone)
  have same := inside_heading_inFront before after alone
  have indent := indentation_inFront before after alone
  constructor
  · have declares := follows.heading_ne_nil
    rw [found, same] at declares
    exact isBlank_eq_false_of_suffix (skipLineComments_suffix rest) (startsFull_skipLineComments rest)
      declares
  · exact (of?_behind before after alone).symm
  · rw [follows.declaration, found]
    exact options.modifiers.classify_congr same
  · have merged := follows.comment
    rw [found, indent] at merged
    exact merged
  · exact follows.rendered
  · rw [follows.edits, found, indent, whole_behind]
    rfl

theorem rel_ofRegion? (options : CommentOptions) :
    Option.Rel Agrees (ofRegion? options (inFront before lead body gap rest after))
      (ofRegion? options (behind before lead body gap rest after)) := by
  cases planned : ofRegion? options (inFront before lead body gap rest after) with
  | none =>
    -- the block itself is not blank, so it is the declaration that is missing
    have full : isBlank (inFront before lead body gap rest after).inside = false := by
      have mark : isBlank blockOpen = false := by decide
      simp [inFront, Block.written, mark]
    have missing := ofRegion?_eq_none_iff.1 planned
    rw [full, or_iff_right (by decide),
      options.modifiers.classify_congr (skipLineComments_undocumented before after alone)] at missing
    rw [ofRegion?_eq_none_iff.2 (Or.inr missing)]
    exact .none
  | some plan =>
    have follows := ofRegion?_eq_some_iff.1 planned
    rw [ofRegion?_eq_some_iff.2 (follows_behind before after alone follows)]
    refine .some ⟨rfl, ?_, rfl, rfl, rfl⟩
    rw [follows.previous, of?_inFront before after alone]
    rfl

end

end CommentPlan

open CommentPlan

/-- A text that starts no block, once its blanks are skipped, starts none up to some place. -/
theorem Block.StandsAlone.upTo {lead body gap rest after : Text}
    (alone : StandsAlone lead body gap (rest ++ after)) : StandsAlone lead body gap rest := by
  refine { alone with single := fun opened => alone.single (opened.trans ?_) }
  by_cases none : trimStart rest = []
  · rw [none]
    exact List.nil_prefix
  · rw [trimStart, trimStart, List.dropWhile_append, if_neg (by simpa [trimStart] using none)]
    exact List.prefix_append ..

/-- Of two selections with one end, the first starts in front of a block and the second behind it: they
lead to the same plan, or both to none. -/
theorem Text.planComment_agrees {t before lead body gap rest : Text}
    (whole : t = before ++ lead ++ Block.written body ++ gap ++ rest)
    (alone : Block.StandsAlone lead body gap rest) {first second : Selection} {stop : Nat}
    (front : t.offset first.start = .ok (size before))
    (back : t.offset second.start = .ok (size (before ++ lead ++ Block.written body ++ gap)))
    (stops : t.offset first.stop = .ok stop ∧ t.offset second.stop = .ok stop)
    (options : CommentOptions) :
    ∃ p q, t.planComment first options = .ok p ∧ t.planComment second options = .ok q ∧
      Option.Rel Agrees p q := by
  subst whole
  -- the end that both selections have lies in what follows the second start
  obtain ⟨head, upTo, rfl⟩ := offset_eq_ok_iff.1 stops.2
  obtain ⟨inside, rfl⟩ := Line.before?_mono second.ordered (before_eq_ok_iff.1 (before_of_offset back))
    (before_eq_ok_iff.1 upTo)
  obtain ⟨after, cut⟩ := before_prefix_whole upTo
  rw [List.append_assoc, List.append_cancel_left_eq] at cut
  subst cut
  have whole : before ++ lead ++ Block.written body ++ gap ++ (inside ++ after) =
      (behind before lead body gap inside after).whole := by
    rw [← List.append_assoc]
    rfl
  have size : size (before ++ lead ++ Block.written body ++ gap ++ inside) =
      (behind before lead body gap inside after).stop := size_append ..
  rw [whole, size] at stops
  rw [whole] at front back ⊢
  have taken : first.region (behind before lead body gap inside after).whole =
      .ok (inFront before lead body gap inside after) := by
    have same : (inFront before lead body gap inside after).stop =
        (behind before lead body gap inside after).stop := by
      rw [Region.stop, ← size_append, upToStop_inFront, size_append]
      rfl
    rw [whole_behind] at front stops ⊢
    exact Selection.region_of_offsets front (same ▸ stops.1)
  exact ⟨_, _, planComment_of_region taken,
    planComment_of_region (Selection.region_of_offsets back stops.2),
    rel_ofRegion? before after alone.upTo options⟩

theorem Text.planComment_agrees_across_lines :
    let t : Text := "x;\n\n /** @description é */\r\n\n void f() \x7b\n\x7d".toList
    let options : CommentOptions := ⟨.standard, .text, ⟨2024, 3, 5, by decide⟩⟩
    ∃ p q, t.planComment (.between ⟨1, 0⟩ ⟨5, 1⟩) options = .ok (some p) ∧
      t.planComment (.between ⟨3, 0⟩ ⟨5, 1⟩) options = .ok (some q) ∧ p.Agrees q := by
  intro t options
  have alone : Block.StandsAlone "\n ".toList " @description é ".toList "\r\n".toList
      "\n void f() \x7b\n\x7d".toList :=
    ⟨by decide, by decide, by decide +kernel, by decide +kernel, by decide⟩
  have places : ∀ p head, Line.before? t.lines p = some head → t.offset p = .ok (size head) :=
    fun p head found => offset_eq_ok_iff.2 ⟨head, before_eq_ok_iff.2 found, rfl⟩
  obtain ⟨p, q, first, second, same⟩ := @planComment_agrees t "x;\n".toList _ _ _ _ (by decide +kernel)
    alone (.between ⟨1, 0⟩ ⟨5, 1⟩) (.between ⟨3, 0⟩ ⟨5, 1⟩) (size t) (places _ _ (by decide +kernel))
    (places _ _ (by decide +kernel)) ⟨places _ _ (by decide +kernel), places _ _ (by decide +kernel)⟩
    options
  have planned : (t.planComment (.between ⟨1, 0⟩ ⟨5, 1⟩) options).toOption.any Option.isSome = true := by
    decide +kernel
  rw [first] at planned
  cases same with
  | none => cases planned
  | some agrees => exact ⟨_, _, first, second, agrees⟩

end ApexTidy
