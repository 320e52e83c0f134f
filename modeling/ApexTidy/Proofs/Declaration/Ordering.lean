import ApexTidy.Declaration.Parameters
import Mathlib.Data.List.Induction

/-!
Parameters as a map that keeps the order of its names. Putting one in changes the type of its own name
alone, and a name that is new goes to the end. So whatever is put in one by one, the names stand in the
order in which they first came, each with the type that came last.
-/

namespace ApexTidy

namespace Parameter

theorem map_name_putIn (p : Parameter) (list : List Parameter) :
    (putIn p list).map (·.name) =
      if p.name ∈ list.map (·.name) then list.map (·.name) else list.map (·.name) ++ [p.name] := by
  induction list with
  | nil => rfl
  | cons q rest ih =>
    rw [putIn]
    by_cases same : q.name = p.name
    · simp [same]
    · rw [if_neg same, List.map_cons, ih, List.map_cons]
      by_cases later : p.name ∈ rest.map (·.name)
      · rw [if_pos later, if_pos (List.mem_cons_of_mem _ later)]
      · rw [if_neg later, if_neg (by simpa [Ne.symm same] using later), List.cons_append]

theorem find?_putIn (p : Parameter) (list : List Parameter) (name : Text) :
    (putIn p list).find? (·.name = name) =
      if p.name = name then some p else list.find? (·.name = name) := by
  induction list with
  | nil => by_cases same : p.name = name <;> simp [putIn, same]
  | cons q rest ih =>
    rw [putIn]
    by_cases found : q.name = p.name
    · rw [if_pos found, List.find?_cons, List.find?_cons, found]
      by_cases same : p.name = name
      · simp [same]
      · simp [same]
    · rw [if_neg found, List.find?_cons, ih, List.find?_cons]
      by_cases same : p.name = name
      · have other : q.name ≠ name := fun here => found (here.trans same.symm)
        simp [same, other]
      · simp [same]

end Parameter

namespace Parameters

theorem names_insert (ps : Parameters) (p : Parameter) :
    (ps.insert p).names = if p.name ∈ ps.names then ps.names else ps.names ++ [p.name] :=
  Parameter.map_name_putIn p ps.toList

theorem get?_insert (ps : Parameters) (p : Parameter) (name : Text) :
    (ps.insert p).get? name = if p.name = name then some p.type else ps.get? name := by
  rw [get?, insert, Parameter.find?_putIn]
  split
  · rfl
  · rfl

theorem idxOf?_insert (ps : Parameters) {p : Parameter} {name : Text} (other : name ≠ p.name) :
    (ps.insert p).names.idxOf? name = ps.names.idxOf? name := by
  rw [names_insert]
  split
  · rfl
  · show (ps.names ++ [p.name]).findIdx? (· == name) = ps.names.findIdx? (· == name)
    rw [List.findIdx?_append]
    simp [other.symm]

theorem ofList_concat (list : List Parameter) (p : Parameter) :
    ofList (list ++ [p]) = (ofList list).insert p :=
  List.foldl_append

theorem mem_names_ofList {list : List Parameter} {name : Text} :
    name ∈ (ofList list).names ↔ name ∈ list.map (·.name) := by
  induction list using List.reverseRecOn with
  | nil => exact Iff.rfl
  | append_singleton list p ih =>
    rw [ofList_concat, names_insert, List.map_append, List.map_singleton, List.mem_append, ← ih,
      List.mem_singleton]
    split
    · rename_i known
      exact ⟨Or.inl, fun here => here.elim id fun same => same ▸ known⟩
    · rw [List.mem_append, List.mem_singleton]

theorem pairwise_names_ofList (list : List Parameter) :
    (ofList list).names.Pairwise fun a b =>
      (list.map (·.name)).idxOf a < (list.map (·.name)).idxOf b := by
  induction list using List.reverseRecOn with
  | nil => exact .nil
  | append_singleton list p ih =>
    have kept : ∀ name ∈ (ofList list).names,
        ((list ++ [p]).map (·.name)).idxOf name = (list.map (·.name)).idxOf name := by
      intro name member
      rw [List.map_append, List.idxOf_append, if_pos (mem_names_ofList.1 member)]
    have earlier : (ofList list).names.Pairwise fun a b =>
        ((list ++ [p]).map (·.name)).idxOf a < ((list ++ [p]).map (·.name)).idxOf b := by
      refine ih.imp_of_mem fun {a b} first second before => ?_
      rwa [kept a first, kept b second]
    rw [ofList_concat, names_insert]
    split
    · exact earlier
    · rename_i new
      refine List.pairwise_append.2 ⟨earlier, List.pairwise_singleton _ _, ?_⟩
      intro a member b last
      rw [List.mem_singleton.1 last, kept a member, List.map_append, List.idxOf_append,
        if_neg fun known => new (mem_names_ofList.2 known)]
      exact Nat.lt_add_left _ (List.idxOf_lt_length_iff.2 (mem_names_ofList.1 member))

theorem get?_ofList (list : List Parameter) (name : Text) :
    (ofList list).get? name = (list.filter (·.name = name)).getLast?.map (·.type) := by
  induction list using List.reverseRecOn with
  | nil => rfl
  | append_singleton list p ih =>
    rw [ofList_concat, get?_insert, ih, List.filter_append]
    by_cases same : p.name = name
    · simp [same]
    · simp [same]

/-- Parameters keep the order of their names and the last type of each. Putting one in changes the type
and the place of no other. -/
theorem ofList_keeps_order (list : List Parameter) :
    let ps := ofList list
    ps.names.Nodup ∧ (∀ name, name ∈ ps.names ↔ name ∈ list.map (·.name)) ∧
      ps.names.Pairwise (fun a b => (list.map (·.name)).idxOf a < (list.map (·.name)).idxOf b) ∧
      (∀ name, ps.get? name = (list.filter (·.name = name)).getLast?.map (·.type)) ∧
      ∀ p name, name ≠ p.name →
        (ps.insert p).get? name = ps.get? name ∧
          (ps.insert p).names.idxOf? name = ps.names.idxOf? name := by
  refine ⟨(ofList list).distinct, fun name => mem_names_ofList, pairwise_names_ofList list,
    get?_ofList list, fun p name other => ⟨?_, idxOf?_insert _ other⟩⟩
  rw [get?_insert, if_neg other.symm]

theorem ofList_keeps_order_of_repeated :
    let ps := ofList [⟨['a'], "Integer".toList⟩, ⟨['b'], "String".toList⟩, ⟨['a'], "Decimal".toList⟩]
    let p : Parameter := ⟨['c'], "Id".toList⟩
    (ps.names = [['a'], ['b']] ∧ ps.get? ['a'] = some "Decimal".toList) ∧
      ['a'] ≠ p.name ∧ (ps.insert p).get? ['a'] = ps.get? ['a'] ∧
        (ps.insert p).names.idxOf? ['a'] = ps.names.idxOf? ['a'] := by
  intro ps p
  obtain ⟨-, -, -, last, others⟩ := ofList_keeps_order
    [⟨['a'], "Integer".toList⟩, ⟨['b'], "String".toList⟩, ⟨['a'], "Decimal".toList⟩]
  have apart : ['a'] ≠ p.name := by decide
  exact ⟨⟨rfl, last ['a']⟩, apart, others p ['a'] apart⟩

end Parameters

end ApexTidy
