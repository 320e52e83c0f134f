import ApexTidy.Proofs.Edit.Acceptance
import ApexTidy.Proofs.Edit.Parts

/-!
A batch as edits made one after the other. An accepted batch takes the text apart, and its edits stand in
the order of the parts that give way. No edit moves the places of those in front of it, so the edits can
be made one by one from the last to the first, and lead to what the batch leads to.
-/

namespace ApexTidy

open Text Edit

/-- Makes edits one after the other, each as a batch of its own. -/
def Text.applyEach (t : Text) (edits : List Edit) : Except Fault Text :=
  edits.foldlM (fun t e => t.applyEdits [e]) t

namespace Edit

theorem Fits.exists_cut {t : Text} {e : Edit} (fits : e.Fits t) :
    ∃ a b c, t = a ++ b ++ c ∧ e.start = size a ∧ e.stop = size a + size b := by
  obtain ⟨a, rest, front, start⟩ := isBoundary_iff.1 fits.starts
  obtain ⟨upTo, c, whole, stop⟩ := isBoundary_iff.1 fits.stops
  have ordered := fits.ordered
  obtain ⟨b, rfl⟩ := exists_append_of_size_le (front.symm.trans whole) (by omega)
  exact ⟨a, b, c, whole, start.symm, by rw [← stop, size_append]⟩

theorem InSequence.exists_parts {a b : Text} {edits : List Edit} (sound : InSequence (a ++ b) edits)
    (passed : ∀ e ∈ edits, size a ≤ e.start) :
    ∃ parts, b = parts.flatMap (·.old) ∧ edits = ofParts (size a) parts := by
  induction edits generalizing a b with
  | nil => exact ⟨[⟨b, none⟩], by simp, rfl⟩
  | cons e rest ih =>
    obtain ⟨fit, follow⟩ := sound
    obtain ⟨first, others⟩ := List.pairwise_cons.1 follow
    obtain ⟨front, gone, behind, whole, start, stop⟩ := (fit e List.mem_cons_self).exists_cut
    have reached := passed e List.mem_cons_self
    rw [List.append_assoc] at whole
    obtain ⟨kept, rfl⟩ := exists_append_of_size_le whole (by omega)
    have cut : a ++ b = a ++ kept ++ gone ++ behind := by rw [whole, ← List.append_assoc]
    rw [cut] at fit
    have tail : InSequence (a ++ kept ++ gone ++ behind) rest :=
      ⟨fun other member => fit other (List.mem_cons_of_mem e member), others⟩
    have later : ∀ other ∈ rest, size (a ++ kept ++ gone) ≤ other.start := by
      intro other member
      rw [size_append, ← stop]
      exact first other member
    obtain ⟨parts, rfl, rfl⟩ := ih tail later
    refine ⟨⟨kept, none⟩ :: ⟨gone, some e.text⟩ :: parts, ?_, ?_⟩
    · simpa using cut
    · have reaches : e.stop = size (a ++ kept ++ gone) := by rw [stop, ← size_append]
      rw [ofParts, ofParts, ← size_append, ← size_append, ← reaches, ← start]

theorem filter_append_filter_not {chosen : Edit → Bool} {edits : List Edit}
    (sorted : edits.Pairwise fun a b => chosen b = true → chosen a = true) :
    edits.filter chosen ++ edits.filter (fun e => !chosen e) = edits := by
  induction edits with
  | nil => rfl
  | cons e rest ih =>
    obtain ⟨first, others⟩ := List.pairwise_cons.1 sorted
    by_cases picked : chosen e = true
    · simp [picked, ih others]
    · have none : ∀ other ∈ rest, ¬ chosen other = true := fun other member taken =>
        picked (first other member taken)
      have kept : rest.filter (fun e => !chosen e) = rest := by
        rw [List.filter_eq_self]
        simpa using none
      rw [List.filter_eq_nil_iff.2 (by simpa [picked] using none), List.nil_append,
        List.filter_cons_of_pos (by simpa using picked), kept]

/-- The edits that start at a place: the insertions as they are listed, then what is replaced there. -/
theorem filter_start_inOrder {batch : List Edit} (ordered : ∀ e ∈ batch, e.start ≤ e.stop)
    (apart : batch.Pairwise Apart) (place : Nat) :
    (inOrder batch).filter (·.start == place) =
      batch.filter (fun e => e.isInsertion && e.start == place) ++
        batch.filter (fun e => !e.isInsertion && e.start == place) := by
  have insertions : (batch.filter fun e => e.isInsertion && e.start == place).Pairwise
      fun a b => atOrBefore a b = true := by
    apply List.pairwise_of_forall_mem_list
    intro a first b second
    simp only [List.mem_filter, isInsertion, Bool.and_eq_true, beq_iff_eq] at first second
    rw [atOrBefore_iff]
    omega
  -- two replacements at one place would overlap
  have replacements : (batch.filter fun e => !e.isInsertion && e.start == place).Pairwise
      fun a b => atOrBefore a b = true := by
    refine (apart.filter _).imp_of_mem ?_
    intro a b first second pair
    simp only [List.mem_filter, isInsertion, Bool.and_eq_true, Bool.not_eq_true', beq_eq_false_iff_ne,
      beq_iff_eq] at first second
    have firstOrdered := ordered a first.1
    have secondOrdered := ordered b second.1
    unfold Apart at pair
    omega
  rw [← filter_inOrder insertions, ← filter_inOrder replacements, ← List.filter_filter,
    ← List.filter_filter]
  refine (filter_append_filter_not ?_).symm
  refine ((pairwise_inOrder batch).filter _).imp_of_mem ?_
  intro a b first second sorted inserts
  simp only [List.mem_filter, (perm_inOrder batch).mem_iff, beq_iff_eq] at first second
  rw [atOrBefore_iff] at sorted
  have firstOrdered := ordered a first.1
  simp only [isInsertion, beq_iff_eq] at inserts ⊢
  omega

end Edit

namespace Text

theorem applyEdits_congr {t : Text} {a b : List Edit} (same : inOrder a = inOrder b) :
    t.applyEdits a = t.applyEdits b := by
  rw [applyEdits, applyEdits, same]

theorem inSequence_of_applyEdits {t result : Text} {batch : List Edit}
    (accepted : t.applyEdits batch = .ok result) : InSequence t (inOrder batch) :=
  exists_applyEdits_iff.1 ⟨result, accepted⟩

theorem exists_parts_of_applyEdits {t result : Text} {batch : List Edit}
    (accepted : t.applyEdits batch = .ok result) :
    ∃ parts, t = parts.flatMap (·.old) ∧ inOrder batch = ofParts 0 parts ∧
      result = parts.flatMap (·.shown) := by
  obtain ⟨parts, rfl, places⟩ := @InSequence.exists_parts [] t _ (inSequence_of_applyEdits accepted)
    fun e _ => Nat.zero_le _
  refine ⟨parts, rfl, places, ?_⟩
  have same : inOrder batch = inOrder (ofParts 0 parts) := by
    rw [inOrder_ofParts]
    exact places
  rw [applyEdits_congr same, applyEdits_ofParts] at accepted
  exact (Except.ok.inj accepted).symm

theorem applyEdits_singleton (a b c text : Text) :
    (a ++ b ++ c).applyEdits [⟨size a, size a + size b, text⟩] = .ok (a ++ text ++ c) := by
  have applied := applyEdits_ofParts [⟨a, none⟩, ⟨b, some text⟩, ⟨c, none⟩]
  simpa [ofParts, Part.shown] using applied

/-- From the last part back to the first, each edit finds its part where the batch says. -/
theorem applyEach_reverse_ofParts (before : Text) (parts : List Part) :
    applyEach (before ++ parts.flatMap (·.old)) (ofParts (size before) parts).reverse =
      .ok (before ++ parts.flatMap (·.shown)) := by
  induction parts generalizing before with
  | nil => rfl
  | cons part rest ih =>
    obtain ⟨old, new⟩ := part
    have later := ih (before ++ old)
    rw [size_append] at later
    rw [List.flatMap_cons, List.flatMap_cons, ← List.append_assoc]
    cases new with
    | none =>
      rw [ofParts, later, List.append_assoc]
      rfl
    | some text =>
      rw [ofParts, List.reverse_cons, applyEach, List.foldlM_append]
      rw [applyEach] at later
      rw [later]
      show applyEach (before ++ old ++ rest.flatMap (·.shown)) [_] = _
      rw [applyEach, List.foldlM_cons, applyEdits_singleton, List.append_assoc]
      rfl

/-- An accepted batch does what its edits do one by one from the last to the first. What no edit takes
away is kept once and in order, and at each place insertions come as they are listed, before what is
replaced there. -/
theorem applyEdits_one_by_one {t result : Text} {batch : List Edit}
    (accepted : t.applyEdits batch = .ok result) :
    t.applyEach (inOrder batch).reverse = .ok result ∧
      (∃ parts, t = parts.flatMap (·.old) ∧ inOrder batch = ofParts 0 parts ∧
        result = parts.flatMap (·.shown)) ∧
      ∀ place, (inOrder batch).filter (·.start == place) =
        batch.filter (fun e => e.isInsertion && e.start == place) ++
          batch.filter (fun e => !e.isInsertion && e.start == place) := by
  obtain ⟨parts, old, places, new⟩ := exists_parts_of_applyEdits accepted
  refine ⟨?_, ⟨parts, old, places, new⟩, ?_⟩
  · rw [places, old, new]
    exact applyEach_reverse_ofParts [] parts
  · obtain ⟨fit, apart⟩ := inSequence_inOrder_iff.1 (inSequence_of_applyEdits accepted)
    exact filter_start_inOrder (fun e member => (fit e member).ordered) apart

theorem applyEdits_one_by_one_shared_start :
    let t : Text := "aé b".toList
    let batch : List Edit := [⟨4, 5, []⟩, ⟨1, 3, ['x']⟩, .insertion 1 ['1'], .insertion 1 ['2']]
    t.applyEdits batch = .ok "a12x ".toList ∧
      t.applyEach (inOrder batch).reverse = .ok "a12x ".toList ∧
      (inOrder batch).filter (·.start == 1) = [.insertion 1 ['1'], .insertion 1 ['2'], ⟨1, 3, ['x']⟩] := by
  intro t batch
  let parts : List Part :=
    [⟨['a'], none⟩, ⟨[], some ['1']⟩, ⟨[], some ['2']⟩, ⟨['é'], some ['x']⟩, ⟨[' '], none⟩,
      ⟨['b'], some []⟩]
  have sorted : inOrder batch =
      [.insertion 1 ['1'], .insertion 1 ['2'], ⟨1, 3, ['x']⟩, ⟨4, 5, []⟩] := by
    simp [batch, inOrder, List.mergeSort, List.MergeSort.Internal.splitInTwo, atOrBefore, Edit.insertion]
  have listed : inOrder batch = ofParts 0 parts := sorted.trans (by decide)
  have accepted : t.applyEdits batch = .ok "a12x ".toList := by
    rw [applyEdits_congr (listed.trans (inOrder_ofParts 0 parts).symm)]
    exact applyEdits_ofParts parts
  obtain ⟨single, -, places⟩ := applyEdits_one_by_one accepted
  exact ⟨accepted, single, (places 1).trans (by decide)⟩

end Text

end ApexTidy
