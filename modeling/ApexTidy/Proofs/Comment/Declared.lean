import ApexTidy.Proofs.Comment.Landing

/-!
What a selection leaves to be read as a declaration. A block at its start is passed over with blanks that
follow it, and as blanks in front of a declaration do not count, it does not matter how many of them are
passed over. So whether there is a plan is told by the selected text alone.
-/

namespace ApexTidy

open Text Tags Declaration

theorem Declaration.skipLineComments_drop {t after blanks rest : Text} (blank : isBlank blanks = true)
    (whole : t ++ after = blanks ++ rest) :
    skipLineComments (t.drop blanks.length) = skipLineComments t := by
  rcases List.append_eq_append_iff.1 whole with ⟨more, longer, -⟩ | ⟨more, shorter, -⟩
  · rw [longer, isBlank_append, Bool.and_eq_true] at blank
    have none := skipLineComments_append blank.1 []
    rw [List.append_nil] at none
    rw [longer, List.drop_of_length_le (by simp), none]
  · rw [shorter, List.drop_left, skipLineComments_append blank]

namespace Block

/-- A selected text without the block that it starts with. -/
def undocumented (selected : Text) : Text :=
  match afterStart? blockOpen (trimStart selected) with
  | none => selected
  | some rest => ((breakAt? blockClose rest).map (·.2)).getD selected

theorem after_of_leading? {r block : Region} (found : leading? r = some block) :
    block.after = undocumented r.inside ++ r.after := by
  unfold leading? at found
  unfold undocumented
  cases opened : afterStart? blockOpen (trimStart r.inside) with
  | none =>
    rw [opened] at found
    cases found
  | some rest =>
    rw [opened] at found
    dsimp only at found ⊢
    cases closed : breakAt? blockClose rest with
    | none =>
      rw [closed] at found
      cases found
    | some parts =>
      rw [closed] at found
      cases found
      rfl

theorem undocumented_of_leading?_none {r : Region} (absent : leading? r = none) :
    undocumented r.inside = r.inside := by
  unfold leading? at absent
  unfold undocumented
  cases opened : afterStart? blockOpen (trimStart r.inside) with
  | none => rfl
  | some rest =>
    rw [opened] at absent
    dsimp only at absent ⊢
    cases closed : breakAt? blockClose rest with
    | none => rfl
    | some parts =>
      rw [closed] at absent
      cases absent

end Block

namespace CommentPlan

theorem skipLineComments_declared_leading {r block : Region} (leads : Block.leading? r = some block)
    (tags : Tags) :
    skipLineComments (declared r (some ⟨tags, block.widen, .leading⟩)).inside =
      skipLineComments (Block.undocumented r.inside) := by
  have after := Block.after_of_leading? leads
  obtain ⟨body, tail, rfl, inside, -⟩ := Block.of_leading? leads
  obtain ⟨lead, trail, widened, before, behind, -, -, blank⟩ :=
    Region.widen_spec ⟨r.before ++ leadingSpace r.inside, Block.written body, tail ++ r.after⟩
  simp only at widened before behind after
  obtain rfl := List.append_cancel_right after
  have lengths := congrArg List.length before
  have sizes := congrArg List.length widened
  simp only [List.length_append] at lengths sizes
  have taken : r.inside.drop ((leadingSpace r.inside ++ Block.written body).length + trail.length) =
      (Block.undocumented r.inside).drop trail.length := by
    conv => lhs; arg 2; rw [inside]
    rw [List.drop_length_add_append]
  rw [← skipLineComments_drop blank behind, ← taken]
  simp only [declared, List.length_append]
  congr 2
  omega

theorem skipLineComments_declared (r : Region) :
    skipLineComments (declared r (ExistingComment.of? r)).inside =
      skipLineComments (Block.undocumented r.inside) := by
  rw [ExistingComment.of?, Block.locate]
  cases leads : Block.leading? r with
  | some block => exact skipLineComments_declared_leading leads _
  | none =>
    rw [Block.undocumented_of_leading?_none leads]
    cases Block.preceding? r with
    | none => rfl
    | some block => rfl

/-- There is no plan exactly if the selected text is blank or declares nothing behind its block. -/
theorem ofRegion?_eq_none_iff {options : CommentOptions} {r : Region} :
    ofRegion? options r = none ↔ isBlank r.inside = true ∨
      options.modifiers.classify (Block.undocumented r.inside) = .unrecognized := by
  rw [← options.modifiers.classify_congr (skipLineComments_declared r)]
  unfold ofRegion?
  split
  · rename_i blank
    simp [blank]
  · rename_i full
    rw [or_iff_right full]
    dsimp only
    cases options.modifiers.classify (declared r (ExistingComment.of? r)).inside with
    | unrecognized => simp [DocComment.merge]
    | ofClass => simp [DocComment.merge]
    | method s => simp [DocComment.merge]

end CommentPlan

theorem Text.planComment_of_region {t : Text} {selection : Selection} {options : CommentOptions}
    {r : Region} (covered : selection.region t = .ok r) :
    t.planComment selection options = .ok (CommentPlan.ofRegion? options r) := by
  rw [planComment, covered]
  by_cases none : r.inside = []
  · have unplanned : CommentPlan.ofRegion? options r = Option.none :=
      CommentPlan.ofRegion?_eq_none_iff.2 (Or.inl (by rw [none]; rfl))
    rw [Except.map, unplanned, ite_self]
  · rw [Selection.isEmpty_eq_false_of_region covered none, if_neg (by decide)]
    rfl

end ApexTidy
