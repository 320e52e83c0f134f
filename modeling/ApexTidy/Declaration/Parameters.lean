import ApexTidy.Text.Basic

/-!
The parameters of a method in the order in which they are declared. A name stands in the list once:
declaring it again keeps its place and changes its type.
-/

namespace ApexTidy

structure Parameter where
  name : Text
  type : Text
deriving DecidableEq, Repr

namespace Parameter

/-- Puts a parameter in the place of the one with its name, or at the end. -/
def putIn (p : Parameter) : List Parameter → List Parameter
  | [] => [p]
  | q :: rest => if q.name = p.name then p :: rest else q :: putIn p rest

theorem mem_names_putIn {p : Parameter} {list : List Parameter} {name : Text} :
    name ∈ (putIn p list).map (·.name) ↔ name = p.name ∨ name ∈ list.map (·.name) := by
  induction list with
  | nil => simp [putIn]
  | cons q rest ih =>
    rw [putIn]
    split
    · rename_i same
      simp [same]
    · simp only [List.map_cons, List.mem_cons, ih]
      exact or_left_comm

theorem nodup_putIn (p : Parameter) {list : List Parameter}
    (distinct : (list.map (·.name)).Nodup) : ((putIn p list).map (·.name)).Nodup := by
  induction list with
  | nil => simp [putIn]
  | cons q rest ih =>
    rw [putIn]
    simp only [List.map_cons, List.nodup_cons] at distinct
    split
    · rename_i same
      simpa [← same] using distinct
    · rename_i differs
      simp only [List.map_cons, List.nodup_cons, mem_names_putIn]
      exact ⟨fun h => h.elim differs distinct.1, ih distinct.2⟩

end Parameter

structure Parameters where
  toList : List Parameter
  distinct : (toList.map (·.name)).Nodup
deriving DecidableEq

namespace Parameters

def empty : Parameters := ⟨[], List.nodup_nil⟩

def insert (ps : Parameters) (p : Parameter) : Parameters :=
  ⟨p.putIn ps.toList, Parameter.nodup_putIn p ps.distinct⟩

def ofList (list : List Parameter) : Parameters := list.foldl insert empty

def names (ps : Parameters) : List Text := ps.toList.map (·.name)

def get? (ps : Parameters) (name : Text) : Option Text :=
  (ps.toList.find? (·.name = name)).map (·.type)

def isEmpty (ps : Parameters) : Bool := ps.toList.isEmpty

end Parameters

end ApexTidy
