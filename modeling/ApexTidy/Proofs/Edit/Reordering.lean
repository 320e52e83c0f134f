import ApexTidy.Proofs.Edit.Succession

/-!
The order in which a batch lists its edits. What the check says depends on the ranges of the edits alone,
and these come in one order however the batch lists them. Of the edits with one range an accepted batch
holds several only if they insert, so a batch that lists the insertions of each place as another one does
is carried out in the same order.
-/

namespace ApexTidy

open Text Edit

namespace Edit

def range (e : Edit) : Nat × Nat := (e.start, e.stop)

theorem fault?_congr {t : Text} {a b : Edit} (same : a.range = b.range) : a.fault? t = b.fault? t := by
  obtain ⟨start, stop⟩ := Prod.mk.inj same
  rw [fault?, fault?, start, stop]

theorem firstFault?_congr {t : Text} {reached : Nat} {a b : List Edit}
    (same : a.map range = b.map range) : firstFault? t reached a = firstFault? t reached b := by
  induction a generalizing reached b with
  | nil => rw [List.map_eq_nil_iff.1 same.symm]
  | cons x a ih =>
    obtain ⟨y, b, rfl, first, others⟩ := List.map_eq_cons_iff.1 same.symm
    obtain ⟨start, stop⟩ := Prod.mk.inj first
    rw [firstFault?, firstFault?, fault?_congr first, start, stop, ih others.symm]

theorem atOrBefore_antisymm {a b : Edit} (first : atOrBefore a b = true) (second : atOrBefore b a = true) :
    a.range = b.range := by
  rw [atOrBefore_iff] at first second
  simp only [range, Prod.mk.injEq]
  omega

theorem atOrBefore_of_range_eq {a b : Edit} (same : a.range = b.range) : atOrBefore a b = true := by
  obtain ⟨start, stop⟩ := Prod.mk.inj same
  rw [atOrBefore_iff]
  omega

theorem map_range_inOrder {a b : List Edit} (perm : a.Perm b) :
    (inOrder a).map range = (inOrder b).map range := by
  have sorted : ∀ batch, ((inOrder batch).map range).Pairwise
      fun p q => p.1 < q.1 ∨ p.1 = q.1 ∧ p.2 ≤ q.2 := by
    intro batch
    rw [List.pairwise_map]
    exact (pairwise_inOrder batch).imp atOrBefore_iff.1
  have shuffled := (perm_inOrder a).trans (perm.trans (perm_inOrder b).symm)
  apply List.Perm.eq_of_pairwise _ (sorted a) (sorted b) (shuffled.map range)
  intro p q _ _ first second
  ext
  · omega
  · omega

/-- Sorted edits are known from the order of those with equal ranges. -/
theorem eq_of_filter_range {a b : List Edit} (sorted : a.Pairwise fun x y => atOrBefore x y = true)
    (others : b.Pairwise fun x y => atOrBefore x y = true) (perm : a.Perm b)
    (same : ∀ r, a.filter (·.range == r) = b.filter (·.range == r)) : a = b := by
  induction a generalizing b with
  | nil => exact perm.nil_eq
  | cons x a ih =>
    cases b with
    | nil => exact perm.eq_nil
    | cons y b =>
      obtain ⟨firstA, laterA⟩ := List.pairwise_cons.1 sorted
      obtain ⟨firstB, laterB⟩ := List.pairwise_cons.1 others
      -- each of the two lists starts with an edit that no edit of the other one precedes
      have heads : x.range = y.range := by
        rcases List.mem_cons.1 (perm.mem_iff.1 List.mem_cons_self) with rfl | xLater
        · rfl
        rcases List.mem_cons.1 (perm.mem_iff.2 List.mem_cons_self) with rfl | yLater
        · rfl
        exact atOrBefore_antisymm (firstA y yLater) (firstB x xLater)
      have equal := same x.range
      rw [List.filter_cons_of_pos (by simp), List.filter_cons_of_pos (by simp [heads])] at equal
      obtain rfl := (List.cons.inj equal).1
      rw [ih laterA laterB perm.cons_inv]
      intro r
      have both := same r
      rw [List.filter_cons, List.filter_cons] at both
      split at both
      · exact (List.cons.inj both).2
      · exact both

theorem inOrder_congr {a b : List Edit} (perm : a.Perm b)
    (same : ∀ r, a.filter (·.range == r) = b.filter (·.range == r)) : inOrder a = inOrder b := by
  have kept : ∀ batch r, (inOrder batch).filter (·.range == r) = batch.filter (·.range == r) := by
    intro batch r
    apply filter_inOrder
    apply List.pairwise_of_forall_mem_list
    intro x first y second
    simp only [List.mem_filter, beq_iff_eq] at first second
    exact atOrBefore_of_range_eq (first.2.trans second.2.symm)
  apply eq_of_filter_range (pairwise_inOrder a) (pairwise_inOrder b)
  · exact (perm_inOrder a).trans (perm.trans (perm_inOrder b).symm)
  · intro r
    rw [kept, kept, same]

theorem length_filter_range_le {t : Text} {batch : List Edit} (fit : ∀ e ∈ batch, e.Fits t)
    (apart : batch.Pairwise Apart) {r : Nat × Nat} (nonempty : r.1 ≠ r.2) :
    (batch.filter (·.range == r)).length ≤ 1 := by
  have pairs := apart.filter (·.range == r)
  have proper : ∀ e ∈ batch.filter (·.range == r), e.start = r.1 ∧ e.stop = r.2 ∧ r.1 < r.2 := by
    intro e member
    obtain ⟨listed, same⟩ := List.mem_filter.1 member
    have ordered := (fit e listed).ordered
    obtain ⟨start, stop⟩ := Prod.mk.inj (beq_iff_eq.1 same)
    omega
  generalize batch.filter (·.range == r) = chosen at pairs proper
  match chosen with
  | [] => exact Nat.zero_le 1
  | [_] => exact Nat.le_refl 1
  | x :: y :: rest =>
    have overlap := List.rel_of_pairwise_cons pairs List.mem_cons_self
    have first := proper x List.mem_cons_self
    have second := proper y (List.mem_cons_of_mem _ List.mem_cons_self)
    unfold Apart at overlap
    omega

theorem filter_range_insertion (batch : List Edit) (place : Nat) :
    batch.filter (·.range == (place, place)) =
      batch.filter fun e => e.isInsertion && e.start == place := by
  apply List.filter_congr
  intro e _
  rw [Bool.eq_iff_iff]
  simp only [range, isInsertion, Bool.and_eq_true, beq_iff_eq, Prod.mk.injEq]
  omega

/-- A batch that is accepted is carried out in one order, as long as the insertions at each place are
listed in one order. -/
theorem InSequence.inOrder_eq {t : Text} {a b : List Edit} (sound : InSequence t (inOrder a))
    (perm : a.Perm b)
    (kept : ∀ place, a.filter (fun e => e.isInsertion && e.start == place) =
      b.filter (fun e => e.isInsertion && e.start == place)) : inOrder a = inOrder b := by
  obtain ⟨fit, apart⟩ := inSequence_inOrder_iff.1 sound
  apply inOrder_congr perm
  rintro ⟨start, stop⟩
  by_cases insertion : start = stop
  · subst insertion
    rw [filter_range_insertion, filter_range_insertion, kept]
  · have single := length_filter_range_le fit apart (r := (start, stop)) insertion
    have shuffled := perm.filter (·.range == (start, stop))
    rcases Nat.le_one_iff_eq_zero_or_eq_one.1 single with none | one
    · rw [List.length_eq_zero_iff.1 none] at shuffled ⊢
      exact shuffled.nil_eq
    · obtain ⟨e, alone⟩ := List.length_eq_one_iff.1 one
      rw [alone] at shuffled ⊢
      exact (List.perm_singleton.1 shuffled.symm).symm

end Edit

namespace Text

/-- Batches with the same edits lead to the same text or to the same fault, in whatever order they list
them, as long as they list the insertions at each place in the same order. -/
theorem applyEdits_reordered {t : Text} {a b : List Edit} (perm : a.Perm b)
    (kept : ∀ place, a.filter (fun e => e.isInsertion && e.start == place) =
      b.filter (fun e => e.isInsertion && e.start == place)) : t.applyEdits a = t.applyEdits b := by
  cases outcome : t.applyEdits a with
  | ok result =>
    rw [← outcome]
    exact applyEdits_congr ((inSequence_of_applyEdits outcome).inOrder_eq perm kept)
  | error fault =>
    rw [applyEdits_eq_error_iff, firstFault?_congr (map_range_inOrder perm)] at outcome
    exact (applyEdits_eq_error_iff.2 outcome).symm

theorem applyEdits_reordered_around_replacement :
    let t : Text := "aé b".toList
    let a : List Edit := [⟨4, 5, []⟩, .insertion 1 ['1'], ⟨1, 3, ['x']⟩, .insertion 1 ['2']]
    let b : List Edit := [.insertion 1 ['1'], .insertion 1 ['2'], ⟨1, 3, ['x']⟩, ⟨4, 5, []⟩]
    a.Perm b ∧ (∀ place, a.filter (fun e => e.isInsertion && e.start == place) =
      b.filter (fun e => e.isInsertion && e.start == place)) ∧
      t.applyEdits a = t.applyEdits b ∧ t.applyEdits b = .ok "a12x ".toList := by
  intro t a b
  have perm : a.Perm b := by decide
  have kept : ∀ place, a.filter (fun e => e.isInsertion && e.start == place) =
      b.filter (fun e => e.isInsertion && e.start == place) := by
    intro place
    simp [a, b, Edit.isInsertion, Edit.insertion, List.filter_cons]
  refine ⟨perm, kept, applyEdits_reordered perm kept, ?_⟩
  exact applyEdits_ofParts [⟨['a'], none⟩, ⟨[], some ['1']⟩, ⟨[], some ['2']⟩, ⟨['é'], some ['x']⟩,
    ⟨[' '], none⟩, ⟨['b'], some []⟩]

end Text

end ApexTidy
