import ApexTidy.Edit.Document
import ApexTidy.Proofs.Text.Search
import ApexTidy.Source.Region

/-!
Batches that change one region of a text. Offsets that are sizes of beginnings of a text are always
places where it can be cut, so such a batch is accepted, and the rest of the text stays.
-/

namespace ApexTidy

open Text

namespace Edit

theorem inOrder_pair (a b : Edit) : inOrder [a, b] = if atOrBefore a b then [a, b] else [b, a] := by
  simp only [inOrder, List.mergeSort, List.MergeSort.Internal.splitInTwo_fst,
    List.MergeSort.Internal.splitInTwo_snd]
  simp [List.merge]

theorem fault?_eq_none (a b c text : Text) :
    fault? (a ++ b ++ c) ⟨size a, size a + size b, text⟩ = none := by
  have first : isBoundary (a ++ b ++ c) (size a) = true :=
    isBoundary_iff.2 ⟨a, b ++ c, List.append_assoc .., rfl⟩
  have second : isBoundary (a ++ b ++ c) (size a + size b) = true :=
    isBoundary_iff.2 ⟨a ++ b, c, rfl, size_append ..⟩
  unfold fault?
  rw [if_neg (by simp), if_neg (by simp), first, second]
  rfl

theorem splice_cons (a b c text : Text) (rest : List Edit) (reached : Nat) :
    splice (a ++ b ++ c) reached (⟨reached + size a, reached + (size a + size b), text⟩ :: rest) =
      a ++ text ++ splice c (reached + (size a + size b)) rest := by
  rw [splice]
  simp only [Nat.add_sub_cancel_left]
  rw [← size_append, dropSize_size_append, List.append_assoc a b c, takeSize_size_append]

end Edit

theorem Text.applyEdits_insertion (a b text : Text) :
    (a ++ b).applyEdits [.insertion (size a) text] = .ok (a ++ text ++ b) := by
  have sound := Edit.fault?_eq_none a [] b text
  have spliced := Edit.splice_cons a [] b text [] 0
  rw [List.append_nil, size_nil, Nat.add_zero] at sound
  rw [List.append_nil, size_nil, Nat.add_zero, Nat.zero_add] at spliced
  rw [applyEdits, Edit.inOrder, List.mergeSort_singleton, Edit.firstFault?, Edit.insertion, sound]
  simp only [Nat.not_lt_zero, ↓reduceIte, Edit.firstFault?]
  rw [spliced, Edit.splice]

/-- Replacing a region keeps what stands before and after it. -/
theorem Region.applyEdits_replacement {r : Region} (nonempty : r.inside ≠ []) (text : Text) :
    r.whole.applyEdits [.deletion r.start r.stop, .insertion r.start text] =
      .ok (r.before ++ text ++ r.after) := by
  obtain ⟨a, b, c⟩ := r
  simp only at nonempty
  simp only [whole, start, stop]
  have sized : size b ≠ 0 := fun none => nonempty (size_eq_zero_iff.1 none)
  have ordered : Edit.inOrder [.deletion (size a) (size a + size b), .insertion (size a) text] =
      [⟨size a, size a, text⟩, ⟨size a, size a + size b, []⟩] := by
    rw [Edit.inOrder_pair, if_neg]
    · rfl
    · show ¬ (decide (size a < size a)
        || size a == size a && decide (size a + size b ≤ size a)) = true
      simp only [Nat.lt_irrefl, decide_false, Bool.false_or, Bool.and_eq_true, decide_eq_true_eq]
      omega
  have inserted := Edit.fault?_eq_none a [] (b ++ c) text
  have deleted := Edit.fault?_eq_none a b c []
  have first := Edit.splice_cons a [] (b ++ c) text [⟨size a, size a + size b, []⟩] 0
  have second := Edit.splice_cons [] b c [] [] (size a)
  simp only [List.append_nil, List.nil_append, size_nil, Nat.add_zero, Nat.zero_add,
    ← List.append_assoc] at inserted first second
  rw [applyEdits, ordered]
  simp only [Edit.firstFault?, inserted, deleted, Nat.not_lt_zero, Nat.lt_irrefl, ↓reduceIte]
  rw [first, second, Edit.splice]

end ApexTidy
