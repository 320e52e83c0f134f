import ApexTidy.Text.Basic

/-!
Places in a document as an editor names them: a line and a column, both counted from zero, the column
in characters. A selection is a pair of positions in order.
-/

namespace ApexTidy

structure Position where
  line : Nat
  column : Nat
deriving DecidableEq, Repr

namespace Position

def precedes (p q : Position) : Prop :=
  p.line < q.line ∨ p.line = q.line ∧ p.column < q.column

instance (p q : Position) : Decidable (precedes p q) :=
  inferInstanceAs (Decidable (_ ∨ _))

theorem precedes_asymm {p q : Position} (before : precedes p q) : ¬ precedes q p := by
  unfold precedes at *
  omega

end Position

structure Selection where
  start : Position
  stop : Position
  ordered : ¬ stop.precedes start
deriving DecidableEq

namespace Selection

def between (p q : Position) : Selection :=
  if h : q.precedes p then ⟨q, p, Position.precedes_asymm h⟩ else ⟨p, q, h⟩

/-- Whole lines from `first` to `last`, up to the start of the line that follows. -/
def ofLines (first last : Nat) : Selection :=
  between ⟨first, 0⟩ ⟨last + 1, 0⟩

def isEmpty (s : Selection) : Bool := s.start == s.stop

end Selection

end ApexTidy
