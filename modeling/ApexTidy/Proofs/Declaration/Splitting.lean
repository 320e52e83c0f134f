import ApexTidy.Declaration.Signature
import Mathlib.Data.List.Infix

/-!
Cutting a list at the commas that stand outside brackets. Behind a text without such a comma the cutting
goes on at the depth to which the text leads, so pieces that close their brackets are found again when
commas join them, and no other pieces make up the same text. How deep brackets are nested is what has been
opened less what has been closed, as long as nothing is closed that was not opened.
-/

namespace ApexTidy.Signature

/-- No comma of the text stands outside brackets. -/
def IsPiece (t : Text) : Prop := ∀ p, p ++ [','] <+: t → p.foldl nesting 0 ≠ 0

structure IsClosed (t : Text) : Prop where
  piece : IsPiece t
  ends : t.foldl nesting 0 = 0

theorem piecesFrom_append {depth : Nat} {t : Text}
    (nested : ∀ p, p ++ [','] <+: t → p.foldl nesting depth ≠ 0) (rest : Text) :
    piecesFrom depth (t ++ rest) = (piecesFrom (t.foldl nesting depth) rest).modifyHead (t ++ ·) := by
  induction t generalizing depth with
  | nil => exact (congrFun List.modifyHead_id _).symm
  | cons c t ih =>
    have inside : ∀ p, p ++ [','] <+: t → p.foldl nesting (nesting depth c) ≠ 0 := by
      intro p start
      exact nested (c :: p) (List.cons_prefix_cons.2 ⟨rfl, start⟩)
    rw [List.cons_append, piecesFrom, if_neg, ih inside, List.modifyHead_modifyHead]
    · rfl
    · rintro ⟨rfl, outside⟩
      exact nested [] (List.prefix_append [','] t) outside

theorem pieces_of_isPiece {t : Text} (piece : IsPiece t) : pieces t = [t] := by
  have cut := piecesFrom_append piece []
  rw [List.append_nil] at cut
  rw [pieces, cut]
  simp [piecesFrom]

theorem IsClosed.pieces_append {t : Text} (closed : IsClosed t) (rest : Text) :
    pieces (t ++ ',' :: rest) = t :: pieces rest := by
  rw [pieces, piecesFrom_append closed.piece, closed.ends, piecesFrom, if_pos ⟨rfl, rfl⟩,
    List.modifyHead_cons, List.append_nil]
  rfl

theorem pieces_intercalate {list : List Text} {last : Text} (closed : ∀ t ∈ list, IsClosed t)
    (piece : IsPiece last) : pieces ([','].intercalate (list ++ [last])) = list ++ [last] := by
  induction list with
  | nil =>
    rw [List.nil_append, List.intercalate_singleton]
    exact pieces_of_isPiece piece
  | cons t list ih =>
    obtain ⟨first, others⟩ := List.forall_mem_cons.1 closed
    have more : list ++ [last] ≠ [] := by simp
    rw [List.cons_append, List.intercalate_cons_of_ne_nil more, List.append_assoc, List.singleton_append,
      first.pieces_append, ih others]

theorem pieces_intercalate_of_isClosed {list : List Text} (closed : ∀ t ∈ list, IsClosed t)
    (nonempty : list ≠ []) : pieces ([','].intercalate list) = list := by
  have last := (closed _ (List.getLast_mem nonempty)).piece
  have cut := pieces_intercalate (fun t member => closed t (List.dropLast_subset _ member)) last
  rwa [List.dropLast_concat_getLast] at cut

theorem exists_isClosed_of_prefix {t p : Text} (start : p ++ [','] <+: t)
    (outside : p.foldl nesting 0 = 0) : ∃ q, IsClosed q ∧ q ++ [','] <+: t := by
  by_cases piece : IsPiece p
  · exact ⟨p, ⟨piece, outside⟩, start⟩
  · unfold IsPiece at piece
    push Not at piece
    obtain ⟨q, earlier, before⟩ := piece
    have shorter : q.length < p.length := by
      have fits := earlier.length_le
      rw [List.length_append, List.length_singleton] at fits
      omega
    apply exists_isClosed_of_prefix _ before
    exact earlier.trans ((List.prefix_append p [',']).trans start)
termination_by p.length

theorem exists_isClosed {t : Text} (several : ¬ IsPiece t) :
    ∃ p rest, IsClosed p ∧ t = p ++ ',' :: rest := by
  unfold IsPiece at several
  push Not at several
  obtain ⟨p, start, outside⟩ := several
  obtain ⟨q, closed, rest, whole⟩ := exists_isClosed_of_prefix start outside
  refine ⟨q, rest, closed, ?_⟩
  rw [← whole, List.append_assoc, List.singleton_append]

/-- The list joined by commas is the text, no comma in it stands outside brackets, and only the last of
the list may leave brackets open. -/
structure IsCutOf (t : Text) (list : List Text) : Prop where
  nonempty : list ≠ []
  joined : [','].intercalate list = t
  piece : ∀ piece ∈ list, IsPiece piece
  ends : ∀ piece ∈ list.dropLast, piece.foldl nesting 0 = 0

theorem IsPiece.isCutOf {t : Text} (piece : IsPiece t) : IsCutOf t [t] := by
  refine ⟨List.cons_ne_nil t [], List.intercalate_singleton, ?_, ?_⟩
  · intro other member
    rwa [List.mem_singleton.1 member]
  · intro other member
    cases member

theorem IsClosed.isCutOf_cons {p t : Text} {list : List Text} (closed : IsClosed p)
    (cut : IsCutOf t list) : IsCutOf (p ++ ',' :: t) (p :: list) := by
  refine ⟨List.cons_ne_nil p list, ?_, ?_, ?_⟩
  · rw [List.intercalate_cons_of_ne_nil cut.nonempty, cut.joined, List.append_assoc,
      List.singleton_append]
  · exact List.forall_mem_cons.2 ⟨closed.piece, cut.piece⟩
  · rw [List.dropLast_cons_of_ne_nil cut.nonempty]
    exact List.forall_mem_cons.2 ⟨closed.ends, cut.ends⟩

theorem isCutOf_pieces (t : Text) : IsCutOf t (pieces t) := by
  by_cases piece : IsPiece t
  · rw [pieces_of_isPiece piece]
    exact piece.isCutOf
  · obtain ⟨p, rest, closed, rfl⟩ := exists_isClosed piece
    rw [closed.pieces_append]
    exact closed.isCutOf_cons (isCutOf_pieces rest)
termination_by t.length
decreasing_by
  rw [‹t = _›, List.length_append, List.length_cons]
  omega

theorem IsCutOf.pieces_eq {t : Text} {list : List Text} (cut : IsCutOf t list) : pieces t = list := by
  have parts := List.dropLast_concat_getLast cut.nonempty
  have closed : ∀ piece ∈ list.dropLast, IsClosed piece := fun piece member =>
    ⟨cut.piece piece (List.dropLast_subset list member), cut.ends piece member⟩
  have found := pieces_intercalate closed (cut.piece _ (List.getLast_mem cut.nonempty))
  rwa [parts, cut.joined] at found

/-- Cutting undoes joining, and joining undoes cutting: a text is cut in one way only. -/
theorem pieces_eq_iff {t : Text} {list : List Text} : pieces t = list ↔ IsCutOf t list := by
  constructor
  · rintro rfl
    exact isCutOf_pieces t
  · exact IsCutOf.pieces_eq

/-- A bracket that closes nothing leaves the depth at zero, and one that is not closed keeps the commas
behind it. -/
example : pieces "a>,b[(,c],d,".toList = ["a>".toList, "b[(,c],d,".toList] := by decide

def marks : List Char := ['(', ')', '<', '>', '[', ']', ',']

theorem foldl_nesting_of_plain {t : Text} (plain : ∀ c ∈ t, c ∉ marks) (depth : Nat) :
    t.foldl nesting depth = depth := by
  induction t with
  | nil => rfl
  | cons c t ih =>
    obtain ⟨first, others⟩ := List.forall_mem_cons.1 plain
    have same : nesting depth c = depth := by
      simp only [marks, List.mem_cons, List.not_mem_nil, or_false, not_or] at first
      simp [nesting, first]
    rw [List.foldl_cons, same, ih others]

theorem isClosed_of_plain {t : Text} (plain : ∀ c ∈ t, c ∉ marks) : IsClosed t := by
  refine ⟨?_, foldl_nesting_of_plain plain 0⟩
  intro p start
  exact absurd (show ',' ∈ marks by decide) (plain ',' (start.subset (by simp)))

theorem IsClosed.append {a b : Text} (first : IsClosed a) (second : IsClosed b) : IsClosed (a ++ b) := by
  refine ⟨?_, ?_⟩
  · intro p start
    rcases List.prefix_or_prefix_of_prefix start (List.prefix_append a b) with inside | behind
    · exact first.piece p inside
    · rcases List.prefix_concat_iff.1 behind with rfl | ⟨q, rfl⟩
      · exact first.piece p List.prefix_rfl
      · rw [List.append_assoc, List.prefix_append_right_inj] at start
        rw [List.foldl_append, first.ends]
        exact second.piece q start
  · rw [List.foldl_append, first.ends, second.ends]

def opened (t : Text) : Nat := t.countP fun c => c == '<' || c == '['

def closed (t : Text) : Nat := t.countP fun c => c == '>' || c == ']'

theorem opened_append (a b : Text) : opened (a ++ b) = opened a + opened b := List.countP_append

theorem closed_append (a b : Text) : closed (a ++ b) = closed a + closed b := List.countP_append

/-- No beginning of the text closes more brackets than it opens, all that are opened are closed, and every
comma stands between brackets. -/
structure IsNested (t : Text) : Prop where
  opens : ∀ p, p <+: t → closed p ≤ opened p
  ends : closed t = opened t
  commas : ∀ p, p ++ [','] <+: t → closed p < opened p

theorem isNested_iff_inits {t : Text} :
    IsNested t ↔ (∀ p ∈ t.inits, closed p ≤ opened p) ∧ closed t = opened t ∧
      ∀ p ∈ t.inits, p ++ [','] <+: t → closed p < opened p := by
  simp only [List.mem_inits]
  constructor
  · rintro ⟨opens, ends, commas⟩
    exact ⟨opens, ends, fun p _ => commas p⟩
  · rintro ⟨opens, ends, commas⟩
    exact ⟨opens, ends, fun p start => commas p ((List.prefix_append p [',']).trans start) start⟩

instance (t : Text) : Decidable (IsNested t) := decidable_of_iff _ isNested_iff_inits.symm

theorem nesting_add_closed {depth : Nat} {c : Char} (type : c ≠ '(' ∧ c ≠ ')')
    (opens : closed [c] ≤ depth + opened [c]) : nesting depth c + closed [c] = depth + opened [c] := by
  unfold nesting opened closed at *
  by_cases opening : c = '<' ∨ c = '['
  · rcases opening with rfl | rfl
    · simp
    · simp
  · by_cases closing : c = '>' ∨ c = ']'
    · rcases closing with rfl | rfl
      · simp at opens ⊢
        omega
      · simp at opens ⊢
        omega
    · rw [not_or] at opening closing
      simp [type, opening, closing]

theorem foldl_nesting_add_closed {depth : Nat} {t : Text} (type : '(' ∉ t ∧ ')' ∉ t)
    (opens : ∀ p, p <+: t → closed p ≤ depth + opened p) :
    t.foldl nesting depth + closed t = depth + opened t := by
  induction t generalizing depth with
  | nil => rfl
  | cons c t ih =>
    simp only [List.mem_cons, not_or] at type
    have openedCons : ∀ p, opened (c :: p) = opened [c] + opened p := opened_append [c]
    have closedCons : ∀ p, closed (c :: p) = closed [c] + closed p := closed_append [c]
    have first := nesting_add_closed ⟨Ne.symm type.1.1, Ne.symm type.2.1⟩
      (opens [c] (List.cons_prefix_cons.2 ⟨rfl, List.nil_prefix⟩))
    have later : ∀ p, p <+: t → closed p ≤ nesting depth c + opened p := by
      intro p start
      have whole := opens (c :: p) (List.cons_prefix_cons.2 ⟨rfl, start⟩)
      rw [openedCons, closedCons] at whole
      omega
    have rest := ih ⟨type.1.2, type.2.2⟩ later
    rw [List.foldl_cons, openedCons, closedCons]
    omega

theorem IsNested.isClosed {t : Text} (nested : IsNested t) (type : '(' ∉ t ∧ ')' ∉ t) : IsClosed t := by
  have counted : ∀ p, p <+: t → p.foldl nesting 0 + closed p = opened p := by
    intro p start
    have opens : ∀ q, q <+: p → closed q ≤ 0 + opened q := by
      intro q first
      rw [Nat.zero_add]
      exact nested.opens q (first.trans start)
    have absent : '(' ∉ p ∧ ')' ∉ p :=
      ⟨fun inside => type.1 (start.subset inside), fun inside => type.2 (start.subset inside)⟩
    rw [foldl_nesting_add_closed absent opens, Nat.zero_add]
  refine ⟨?_, ?_⟩
  · intro p start
    have depth := counted p ((List.prefix_append p [',']).trans start)
    have inside := nested.commas p start
    omega
  · have depth := counted t List.prefix_rfl
    have ends := nested.ends
    omega

end ApexTidy.Signature
