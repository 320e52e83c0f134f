import ApexTidy.Edit.Document
import Mathlib.Data.List.Basic

/-!
Which batches a text accepts. The check goes through a batch in order and looks only from one edit to the
next, yet it accepts exactly the batches of which every edit fits the text and no two edits overlap,
wherever they are listed. Of the edits of another batch the first that fails in order tells the fault.
-/

namespace ApexTidy

open Text

namespace Edit

theorem atOrBefore_iff {a b : Edit} :
    atOrBefore a b = true ↔ a.start < b.start ∨ a.start = b.start ∧ a.stop ≤ b.stop := by
  simp [atOrBefore]

theorem atOrBefore_trans (a b c : Edit) (first : atOrBefore a b = true)
    (second : atOrBefore b c = true) : atOrBefore a c = true := by
  rw [atOrBefore_iff] at *
  omega

theorem atOrBefore_total (a b : Edit) : (atOrBefore a b || atOrBefore b a) = true := by
  rw [Bool.or_eq_true, atOrBefore_iff, atOrBefore_iff]
  omega

theorem perm_inOrder (batch : List Edit) : (inOrder batch).Perm batch := List.mergeSort_perm ..

theorem pairwise_inOrder (batch : List Edit) :
    (inOrder batch).Pairwise fun a b => atOrBefore a b = true :=
  List.pairwise_mergeSort atOrBefore_trans atOrBefore_total batch

theorem filter_inOrder {batch : List Edit} {chosen : Edit → Bool}
    (sorted : (batch.filter chosen).Pairwise fun a b => atOrBefore a b = true) :
    (inOrder batch).filter chosen = batch.filter chosen := by
  have kept : (batch.filter chosen).Sublist (inOrder batch) :=
    List.sublist_mergeSort atOrBefore_trans atOrBefore_total sorted List.filter_sublist
  have both := kept.filter chosen
  rw [List.filter_filter] at both
  simp only [Bool.and_self] at both
  exact (both.eq_of_length ((perm_inOrder batch).filter chosen).length_eq.symm).symm

structure Fits (t : Text) (e : Edit) : Prop where
  ordered : e.start ≤ e.stop
  held : e.stop ≤ size t
  starts : isBoundary t e.start = true
  stops : isBoundary t e.stop = true

theorem fault?_eq_none_iff_fits {t : Text} {e : Edit} : e.fault? t = none ↔ e.Fits t := by
  unfold fault?
  constructor
  · intro sound
    split at sound
    · cases sound
    · split at sound
      · cases sound
      · split at sound
        · rename_i ordered held cuts
          rw [Bool.and_eq_true] at cuts
          exact ⟨Nat.le_of_not_lt ordered, Nat.le_of_not_lt held, cuts.1, cuts.2⟩
        · cases sound
  · intro fits
    rw [if_neg (Nat.not_lt.2 fits.ordered), if_neg (Nat.not_lt.2 fits.held), fits.starts, fits.stops]
    rfl

/-- Neither edit reaches into the other. Edits may meet, and insertions may share a place. -/
def Apart (a b : Edit) : Prop := a.stop ≤ b.start ∨ b.stop ≤ a.start

theorem Apart.symm {a b : Edit} (apart : Apart a b) : Apart b a := Or.symm apart

theorem Apart.stop_le_start {a b : Edit} (apart : Apart a b) (sorted : atOrBefore a b = true)
    (second : b.start ≤ b.stop) : a.stop ≤ b.start := by
  rw [atOrBefore_iff] at sorted
  unfold Apart at apart
  omega

/-- Each edit fits, and none starts before those in front of it have stopped. -/
structure InSequence (t : Text) (edits : List Edit) : Prop where
  fit : ∀ e ∈ edits, e.Fits t
  follow : edits.Pairwise fun a b => a.stop ≤ b.start

/-- Why an edit fails that comes after another one, or first. -/
inductive FailsAfter (t : Text) (previous : Option Edit) (e : Edit) : Fault → Prop where
  | inverted (reversed : e.stop < e.start) : FailsAfter t previous e (.inverted e.start e.stop)
  | outOfBounds (ordered : e.start ≤ e.stop) (past : size t < e.stop) :
    FailsAfter t previous e (.outOfBounds e.start e.stop (size t))
  | splitsCharacter (ordered : e.start ≤ e.stop) (held : e.stop ≤ size t)
    (splits : isBoundary t e.start = false ∨ isBoundary t e.stop = false) :
    FailsAfter t previous e (.splitsCharacter e.start e.stop)
  | overlapping (fits : e.Fits t) (last : Edit) (listed : previous = some last)
    (early : e.start < last.stop) : FailsAfter t previous e (.overlapping e.start)

theorem failsAfter_iff {t : Text} {previous : Option Edit} {e : Edit} {fault : Fault} :
    FailsAfter t previous e fault ↔ e.fault? t = some fault ∨
      e.Fits t ∧ (∃ last, previous = some last ∧ e.start < last.stop) ∧ fault = .overlapping e.start := by
  constructor
  · intro fails
    unfold fault?
    cases fails with
    | inverted reversed => exact Or.inl (if_pos reversed)
    | outOfBounds ordered past => exact Or.inl (by rw [if_neg (Nat.not_lt.2 ordered), if_pos past])
    | splitsCharacter ordered held splits =>
      left
      rw [if_neg (Nat.not_lt.2 ordered), if_neg (Nat.not_lt.2 held), if_neg]
      rcases splits with start | stop
      · simp [start]
      · simp [stop]
    | overlapping fits last listed early => exact Or.inr ⟨fits, ⟨last, listed, early⟩, rfl⟩
  · intro fails
    rcases fails with alone | ⟨fits, ⟨last, listed, early⟩, rfl⟩
    · unfold fault? at alone
      split at alone
      · rename_i reversed
        cases alone
        exact .inverted reversed
      · rename_i ordered
        rw [Nat.not_lt] at ordered
        split at alone
        · rename_i past
          cases alone
          exact .outOfBounds ordered past
        · rename_i held
          split at alone
          · cases alone
          · rename_i splits
            cases alone
            rw [Bool.and_eq_true, not_and_or, Bool.not_eq_true, Bool.not_eq_true] at splits
            exact .splitsCharacter ordered (Nat.not_lt.1 held) splits
    · exact .overlapping fits last listed early

def reach (previous : Option Edit) : Nat := (previous.map (·.stop)).getD 0

theorem lt_reach_iff {place : Nat} {previous : Option Edit} :
    place < reach previous ↔ ∃ last, previous = some last ∧ place < last.stop := by
  cases previous with
  | none => simp [reach]
  | some last => simp [reach]

section

variable {t : Text} {before : List Edit}

theorem InSequence.of_append_left {rest : List Edit} (sound : InSequence t (before ++ rest)) :
    InSequence t before :=
  ⟨fun e member => sound.fit e (List.mem_append_left rest member),
    (List.pairwise_append.1 sound.follow).1⟩

theorem InSequence.concat_iff (sound : InSequence t before) {e : Edit} :
    InSequence t (before ++ [e]) ↔ e.Fits t ∧ reach before.getLast? ≤ e.start := by
  constructor
  · intro longer
    refine ⟨longer.fit e (by simp), ?_⟩
    rw [← Nat.not_lt, lt_reach_iff]
    intro early
    obtain ⟨last, ends, early⟩ := early
    have member := List.mem_of_getLast? ends
    have apart := (List.pairwise_append.1 longer.follow).2.2 last member e List.mem_cons_self
    omega
  · intro next
    obtain ⟨fits, reached⟩ := next
    constructor
    · intro other member
      rcases List.mem_append.1 member with listed | new
      · exact sound.fit other listed
      · rw [List.mem_singleton.1 new]
        exact fits
    · rw [List.pairwise_append]
      refine ⟨sound.follow, List.pairwise_singleton .., ?_⟩
      intro a member b single
      rw [List.mem_singleton.1 single]
      -- the edits before stop at the latest where the last of them does
      obtain ⟨front, last, rfl⟩ := before.eq_nil_or_concat.resolve_left (List.ne_nil_of_mem member)
      rw [List.concat_eq_append] at member sound reached
      have stop : last.stop ≤ e.start := by simpa [reach] using reached
      rcases List.mem_append.1 member with listed | same
      · have apart := (List.pairwise_append.1 sound.follow).2.2 a listed last List.mem_cons_self
        have ordered := (sound.fit last (by simp)).ordered
        omega
      · rw [List.mem_singleton.1 same]
        exact stop

theorem InSequence.exists_failsAfter (sound : InSequence t before) {e : Edit}
    (stops : ¬ InSequence t (before ++ [e])) : ∃ fault, FailsAfter t before.getLast? e fault := by
  cases alone : e.fault? t with
  | some fault => exact ⟨fault, failsAfter_iff.2 (Or.inl alone)⟩
  | none =>
    have fits := fault?_eq_none_iff_fits.1 alone
    refine ⟨.overlapping e.start, failsAfter_iff.2 (Or.inr ⟨fits, ?_, rfl⟩)⟩
    rw [← lt_reach_iff, ← Nat.not_le]
    intro reached
    exact stops (sound.concat_iff.2 ⟨fits, reached⟩)

theorem firstFault?_of_failsAfter {e : Edit} {fault : Fault}
    (fails : FailsAfter t before.getLast? e fault) (rest : List Edit) :
    firstFault? t (reach before.getLast?) (e :: rest) = some fault := by
  rw [firstFault?]
  rcases failsAfter_iff.1 fails with alone | ⟨fits, early, rfl⟩
  · rw [alone]
  · rw [fault?_eq_none_iff_fits.2 fits]
    exact if_pos (lt_reach_iff.2 early)

theorem InSequence.firstFault?_cons (sound : InSequence t before) {e : Edit}
    (longer : InSequence t (before ++ [e])) (rest : List Edit) :
    firstFault? t (reach before.getLast?) (e :: rest) =
      firstFault? t (reach (before ++ [e]).getLast?) rest := by
  obtain ⟨fits, reached⟩ := sound.concat_iff.1 longer
  rw [firstFault?, fault?_eq_none_iff_fits.2 fits, List.getLast?_concat]
  exact if_neg (Nat.not_lt.2 reached)

theorem InSequence.firstFault?_eq_none_iff (sound : InSequence t before) {edits : List Edit} :
    firstFault? t (reach before.getLast?) edits = none ↔ InSequence t (before ++ edits) := by
  induction edits generalizing before with
  | nil =>
    rw [List.append_nil]
    exact iff_of_true rfl sound
  | cons e rest ih =>
    rw [List.append_cons]
    by_cases longer : InSequence t (before ++ [e])
    · rw [sound.firstFault?_cons longer, ih longer]
    · obtain ⟨fault, fails⟩ := sound.exists_failsAfter longer
      rw [firstFault?_of_failsAfter fails]
      exact iff_of_false (by simp) fun whole => longer whole.of_append_left

theorem InSequence.firstFault?_eq_some_iff (sound : InSequence t before) {edits : List Edit}
    {fault : Fault} :
    firstFault? t (reach before.getLast?) edits = some fault ↔
      ∃ earlier e later, edits = earlier ++ e :: later ∧ InSequence t (before ++ earlier) ∧
        FailsAfter t (before ++ earlier).getLast? e fault := by
  constructor
  · intro found
    induction edits generalizing before with
    | nil => cases found
    | cons e rest ih =>
      by_cases longer : InSequence t (before ++ [e])
      · rw [sound.firstFault?_cons longer] at found
        obtain ⟨earlier, other, later, rfl, passed, fails⟩ := ih longer found
        rw [← List.append_cons] at passed fails
        exact ⟨e :: earlier, other, later, rfl, passed, fails⟩
      · obtain ⟨other, fails⟩ := sound.exists_failsAfter longer
        rw [firstFault?_of_failsAfter fails, Option.some.injEq] at found
        refine ⟨[], e, rest, rfl, ?_, ?_⟩
        · rw [List.append_nil]
          exact sound
        · rw [List.append_nil, ← found]
          exact fails
  · intro found
    obtain ⟨earlier, e, later, rfl, passed, fails⟩ := found
    induction earlier generalizing before with
    | nil =>
      rw [List.append_nil] at fails
      exact firstFault?_of_failsAfter fails later
    | cons x earlier ih =>
      rw [List.append_cons] at passed fails
      rw [List.cons_append, sound.firstFault?_cons passed.of_append_left]
      exact ih passed.of_append_left passed fails

end

theorem inSequence_nil (t : Text) : InSequence t [] := ⟨by simp, List.Pairwise.nil⟩

/-- Checking neighbours in order is checking all pairs in any order. -/
theorem inSequence_inOrder_iff {t : Text} {batch : List Edit} :
    InSequence t (inOrder batch) ↔ (∀ e ∈ batch, e.Fits t) ∧ batch.Pairwise Apart := by
  have members : ∀ e, e ∈ inOrder batch ↔ e ∈ batch := fun e => (perm_inOrder batch).mem_iff
  rw [← (perm_inOrder batch).pairwise_iff Apart.symm]
  constructor
  · intro sequence
    refine ⟨fun e member => sequence.fit e ((members e).2 member), ?_⟩
    exact sequence.follow.imp Or.inl
  · intro sound
    obtain ⟨fit, apart⟩ := sound
    refine ⟨fun e member => fit e ((members e).1 member), ?_⟩
    have both := (pairwise_inOrder batch).and apart
    refine both.imp_of_mem ?_
    intro a b _ second pair
    exact pair.2.stop_le_start pair.1 (fit b ((members b).1 second)).ordered

end Edit

open Edit

theorem Text.applyEdits_eq_error_iff {t : Text} {batch : List Edit} {fault : Fault} :
    t.applyEdits batch = .error fault ↔ firstFault? t 0 (inOrder batch) = some fault := by
  rw [applyEdits]
  cases firstFault? t 0 (inOrder batch) with
  | none => simp
  | some other => simp

theorem Text.exists_applyEdits_iff {t : Text} {batch : List Edit} :
    (∃ result, t.applyEdits batch = .ok result) ↔ InSequence t (inOrder batch) := by
  have checked : firstFault? t 0 (inOrder batch) = none ↔ InSequence t (inOrder batch) :=
    (inSequence_nil t).firstFault?_eq_none_iff
  rw [← checked, applyEdits]
  cases firstFault? t 0 (inOrder batch) with
  | none => simp
  | some other => simp

/-- A batch is accepted exactly if its edits fit and no two of them overlap. Otherwise the first edit
that fails in order tells why, and a document stays as it was. -/
theorem Text.applyEdits_accepts_iff (t : Text) (batch : List Edit) :
    ((∃ result, t.applyEdits batch = .ok result) ↔
        (∀ e ∈ batch, e.Fits t) ∧ batch.Pairwise Apart) ∧
      (∀ fault, t.applyEdits batch = .error fault ↔
        ∃ earlier e later, inOrder batch = earlier ++ e :: later ∧ InSequence t earlier ∧
          FailsAfter t earlier.getLast? e fault) ∧
      ∀ fault, t.applyEdits batch = .error fault →
        Document.apply ⟨t⟩ batch = ⟨.error fault, ⟨t⟩⟩ := by
  refine ⟨?_, ?_, ?_⟩
  · rw [exists_applyEdits_iff, inSequence_inOrder_iff]
  · intro fault
    rw [applyEdits_eq_error_iff]
    exact (inSequence_nil t).firstFault?_eq_some_iff
  · intro fault refused
    rw [Document.apply, refused]

end ApexTidy
