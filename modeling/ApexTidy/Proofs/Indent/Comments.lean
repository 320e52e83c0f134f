import ApexTidy.Proofs.Indent.Rows

/-!
How the machine passes a comment of several lines. If its lines are set one space in below the line that
opens it, each with an asterisk in front and none but the last with the closing mark at its end, then they
are laid out as they stand, and the machine leaves the comment in the state in which it entered.
-/

namespace ApexTidy.IndentState

open Text

/-- The rows are laid out as they stand, and lead from one state to another. -/
structure Leads (unit : IndentUnit) (s : IndentState) (rows : List Text) (next : IndentState) : Prop where
  laid : s.relaid unit rows = rows
  after : s.after rows = next

theorem Leads.append {unit : IndentUnit} {s middle next : IndentState} {a b : List Text}
    (first : Leads unit s a middle) (second : Leads unit middle b next) : Leads unit s (a ++ b) next := by
  have passed : s.after (a ++ b) = (s.after a).after b := List.foldl_append
  refine ⟨?_, ?_⟩
  · rw [relaid_append, first.laid, first.after, second.laid]
  · rw [passed, first.after, second.after]

theorem leads_form (unit : IndentUnit) (s : IndentState) {line : Text} (trimmed : Trimmed line)
    (nonempty : line ≠ []) (ends : Text) :
    Leads unit s [s.form unit line ++ Line.returnOf ends] (s.step line).next := by
  have content : trim (line ++ Line.returnOf ends) = line := by
    rw [trim_append_of_isBlank_right _ (Line.isBlank_returnOf ends), trimmed.trim_eq]
  have full : isBlank (line ++ Line.returnOf ends) = false := by
    rw [← Bool.not_eq_true, ← trim_eq_nil_iff, content]
    exact nonempty
  have set : s.laid unit (line ++ Line.returnOf ends) = s.form unit line ++ Line.returnOf ends := by
    rw [laid, if_neg (by simp [full]), Line.returnOf_append_returnOf trimmed.stop,
      s.form_congr unit (content.trans trimmed.trim_eq.symm)]
  rw [← set]
  refine ⟨?_, ?_⟩
  · rw [relaid, relaid, laid_laid]
  · rw [after_cons, after_nil, past_laid, past, if_neg (by simp [full]), content]

/-- A line that goes on with a comment: an asterisk one space in, a full end, and no closing mark there. -/
structure IsStarred (line : Text) : Prop where
  start : [' ', '*'] <+: line
  stop : EndsFull line
  goesOn : ¬ commentClose <:+ line

theorem step_inside {s : IndentState} (inside : s.inComment = true) (rest : Text) :
    s.step ('*' :: rest) =
      ⟨s.depth, true, ' ' :: '*' :: rest, ⟨s.depth, !endsWith commentClose ('*' :: rest)⟩⟩ := by
  rw [step, if_pos inside]
  rfl

theorem leads_inside (unit : IndentUnit) {s : IndentState} (inside : s.inComment = true) {rest : Text}
    (stop : EndsFull ('*' :: rest)) (ends : Text) :
    Leads unit s [unit.render s.depth ++ ' ' :: '*' :: rest ++ Line.returnOf ends]
      ⟨s.depth, !endsWith commentClose ('*' :: rest)⟩ := by
  have trimmed : Trimmed ('*' :: rest) := ⟨by rfl, stop⟩
  have leads := leads_form unit s trimmed (List.cons_ne_nil _ _) ends
  rwa [form, trimmed.trim_eq, step_inside inside] at leads

theorem leads_starred (unit : IndentUnit) {s : IndentState} (inside : s.inComment = true) (ends : Text)
    {lines : List Text} (starred : ∀ line ∈ lines, IsStarred line) :
    Leads unit s (lines.map fun line => unit.render s.depth ++ line ++ Line.returnOf ends) s := by
  induction lines with
  | nil => exact ⟨rfl, rfl⟩
  | cons line lines ih =>
    have later := ih fun other member => starred other (List.mem_cons_of_mem _ member)
    obtain ⟨⟨rest, whole⟩, stop, goesOn⟩ := starred line List.mem_cons_self
    have full : EndsFull ('*' :: rest) := by
      rw [← whole] at stop
      exact stop
    have stays : endsWith commentClose ('*' :: rest) = false := by
      rw [← Bool.not_eq_true, endsWith_iff]
      intro closes
      rw [← whole] at goesOn
      exact goesOn (closes.trans (List.suffix_cons ..))
    have first := leads_inside unit inside full ends
    rw [stays, Bool.not_false, ← inside] at first
    rw [List.map_cons, ← List.singleton_append, ← whole]
    exact first.append later

/-- The machine leaves a comment as it entered. -/
theorem leads_comment (unit : IndentUnit) {s : IndentState} (outside : s.inComment = false) (ends : Text)
    {middle : List Text} (starred : ∀ line ∈ middle, IsStarred line) :
    Leads unit s ((['/', '*', '*'] :: middle ++ [[' ', '*', '/']]).map fun line =>
      unit.render s.depth ++ line ++ Line.returnOf ends) s := by
  let within : IndentState := ⟨s.depth, true⟩
  have entered : Leads unit s [unit.render s.depth ++ ['/', '*', '*'] ++ Line.returnOf ends] within := by
    have trimmed : Trimmed ['/', '*', '*'] := by decide
    have opens : opensComment ['/', '*', '*'] = true := by decide
    have leads := leads_form unit s trimmed (by decide) ends
    rwa [form, trimmed.trim_eq, step, outside, if_neg (by decide), if_pos opens] at leads
  have passed : Leads unit within _ within := leads_starred unit rfl ends starred
  have left : Leads unit within [unit.render s.depth ++ [' ', '*', '/'] ++ Line.returnOf ends] s := by
    have leads := @leads_inside unit within rfl ['/'] (by decide) ends
    have closes : endsWith commentClose ['*', '/'] = true := by decide
    rw [closes, Bool.not_true, ← outside] at leads
    exact leads
  rw [List.map_append, List.map_cons]
  exact (entered.append passed).append left

end ApexTidy.IndentState
