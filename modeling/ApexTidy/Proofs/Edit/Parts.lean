import ApexTidy.Proofs.Edit.Splice

/-!
Batches that go through a text part by part. The text is taken apart, some parts give way to another
text, and the edits that say so stand in the order of the parts. Such a batch is always accepted, and it
puts the new parts in the place of the old ones.
-/

namespace ApexTidy

open Text

namespace Edit

/-- A part of a text, and what it gives way to unless it stays. -/
structure Part where
  old : Text
  new : Option Text

def Part.shown (p : Part) : Text := p.new.getD p.old

def ofParts : Nat → List Part → List Edit
  | _, [] => []
  | start, ⟨old, none⟩ :: rest => ofParts (start + size old) rest
  | start, ⟨old, some text⟩ :: rest =>
    ⟨start, start + size old, text⟩ :: ofParts (start + size old) rest

theorem ofParts_append (start : Nat) (a b : List Part) :
    ofParts start (a ++ b) = ofParts start a ++ ofParts (start + size (a.flatMap (·.old))) b := by
  induction a generalizing start with
  | nil => rfl
  | cons part a ih =>
    obtain ⟨old, new⟩ := part
    cases new with
    | none => rw [List.cons_append, ofParts, ih, ofParts, List.flatMap_cons, size_append, Nat.add_assoc]
    | some text =>
      rw [List.cons_append, ofParts, ih, ofParts, List.flatMap_cons, size_append, Nat.add_assoc,
        List.cons_append]

theorem bounds_of_mem_ofParts {start : Nat} {parts : List Part} {e : Edit}
    (member : e ∈ ofParts start parts) : start ≤ e.start ∧ e.start ≤ e.stop := by
  fun_induction ofParts start parts with
  | case1 => cases member
  | case2 start old rest ih =>
    have later := ih member
    omega
  | case3 start old text rest ih =>
    rcases List.mem_cons.1 member with rfl | listed
    · exact ⟨Nat.le_refl _, Nat.le_add_right _ _⟩
    · have later := ih listed
      omega

theorem pairwise_ofParts (start : Nat) (parts : List Part) :
    (ofParts start parts).Pairwise fun a b => atOrBefore a b = true := by
  fun_induction ofParts start parts with
  | case1 => exact List.Pairwise.nil
  | case2 start old rest ih => exact ih
  | case3 start old text rest ih =>
    refine List.Pairwise.cons ?_ ih
    intro other member
    have later := bounds_of_mem_ofParts member
    simp only [atOrBefore, Bool.or_eq_true, Bool.and_eq_true, decide_eq_true_eq, beq_iff_eq]
    omega

theorem inOrder_ofParts (start : Nat) (parts : List Part) :
    inOrder (ofParts start parts) = ofParts start parts :=
  List.mergeSort_of_pairwise (pairwise_ofParts start parts)

theorem firstFault?_ofParts (before : Text) (parts : List Part) {reached : Nat}
    (le : reached ≤ size before) :
    firstFault? (before ++ parts.flatMap (·.old)) reached (ofParts (size before) parts) = none := by
  induction parts generalizing before reached with
  | nil => rfl
  | cons part rest ih =>
    obtain ⟨old, new⟩ := part
    have cut : before ++ (⟨old, new⟩ :: rest : List Part).flatMap (·.old) =
        before ++ old ++ rest.flatMap (·.old) := by
      rw [List.flatMap_cons, List.append_assoc]
    have later := fun {reached : Nat} => @ih (before ++ old) reached
    rw [size_append] at later
    rw [cut]
    cases new with
    | none => exact later (by omega)
    | some text =>
      rw [ofParts, firstFault?, fault?_eq_none, if_neg (by simpa using le)]
      exact later (Nat.le_refl _)

/-- What has been passed over since the last edit stands in front of the parts that are left. -/
theorem splice_ofParts (passed : Text) (parts : List Part) (reached : Nat) :
    splice (passed ++ parts.flatMap (·.old)) reached (ofParts (reached + size passed) parts) =
      passed ++ parts.flatMap (·.shown) := by
  induction parts generalizing passed reached with
  | nil => rfl
  | cons part rest ih =>
    obtain ⟨old, new⟩ := part
    rw [List.flatMap_cons, List.flatMap_cons, ← List.append_assoc]
    cases new with
    | none =>
      rw [ofParts, Nat.add_assoc, ← size_append, ih, List.append_assoc]
      rfl
    | some text =>
      have next := ih [] (reached + (size passed + size old))
      rw [List.nil_append, List.nil_append, size_nil, Nat.add_zero] at next
      rw [ofParts, Nat.add_assoc, splice_cons, next, List.append_assoc]
      rfl

end Edit

open Edit in
theorem Text.applyEdits_ofParts (parts : List Part) :
    applyEdits (parts.flatMap (·.old)) (ofParts 0 parts) = .ok (parts.flatMap (·.shown)) := by
  have sound := firstFault?_ofParts [] parts (Nat.zero_le 0)
  have spliced := splice_ofParts [] parts 0
  rw [size_nil, List.nil_append] at sound
  rw [size_nil, Nat.add_zero, List.nil_append, List.nil_append] at spliced
  rw [applyEdits, inOrder_ofParts, sound, spliced]

end ApexTidy
