import ApexTidy.Proofs.Command.Exchange

/-!
One flag more. A flag that is put in where no option waits for its value stands for itself, and the
arguments on both sides of it are read as they were. So the two command lines are refused for the same
reason, or the same is given but for the flag.
-/

namespace ApexTidy.Command

open Text

/-- What comes after these arguments is read as if it stood alone: the options have not ended, and each
has the value that it takes. -/
def IsComplete (specs : List OptionSpec) (front : List Text) : Prop :=
  endOfOptions ∉ front ∧ .bad ∉ items specs front

instance (specs : List OptionSpec) (front : List Text) : Decidable (IsComplete specs front) :=
  inferInstanceAs (Decidable (_ ∧ _))

/-- These items do not ask for help or the version instead of a run. -/
def IsPlain (found : List Item) : Prop := .flag "help".toList ∉ found ∧ .flag "version".toList ∉ found

instance (found : List Item) : Decidable (IsPlain found) := inferInstanceAs (Decidable (_ ∧ _))

theorem isPlain_append {first rest : List Item} :
    IsPlain (first ++ rest) ↔ IsPlain first ∧ IsPlain rest := by
  simp only [IsPlain, List.mem_append, not_or]
  exact and_and_and_comm

/-! ### What an option waits for -/

section

variable {specs : List OptionSpec}

theorem takeLong_of_complete {body : Text} (complete : .bad ∉ (takeLong specs body none).items)
    (next : Option Text) : takeLong specs body next = ⟨(takeLong specs body none).items, false⟩ := by
  revert complete
  unfold takeLong
  split
  split
  · exact fun _ => rfl
  · exact fun _ => rfl
  · split
    · exact fun _ => rfl
    · intro complete
      exact absurd List.mem_cons_self complete

theorem takeLetters_of_complete {letters : Text}
    (complete : .bad ∉ (takeLetters specs none letters).items) (next : Option Text) :
    takeLetters specs next letters = ⟨(takeLetters specs none letters).items, false⟩ := by
  induction letters with
  | nil => rfl
  | cons c rest ih =>
    revert complete
    rw [takeLetters, takeLetters]
    split
    · exact fun _ => rfl
    · intro complete
      rw [ih fun bad => complete (List.mem_cons_of_mem _ bad)]
    · split
      · intro complete
        exact absurd List.mem_cons_self complete
      · exact fun _ => rfl

theorem takeOption_of_complete {argument : Text} (complete : .bad ∉ (takeOption specs argument none).items)
    (next : Option Text) :
    takeOption specs argument next = ⟨(takeOption specs argument none).items, false⟩ := by
  revert complete
  unfold takeOption
  split
  · exact fun complete => takeLong_of_complete complete next
  · exact fun complete => takeLetters_of_complete complete next

theorem items_append {front : List Text} (complete : IsComplete specs front) (back : List Text) :
    items specs (front ++ back) = items specs front ++ items specs back := by
  obtain ⟨before, whole⟩ := complete
  induction front, before using front_induction with
  | nil => rfl
  | operand argument rest _ _ apart plain others =>
    rw [items_operand apart plain] at whole ⊢
    rw [List.cons_append, items_operand apart plain, others fun bad => whole (List.mem_cons_of_mem _ bad)]
    rfl
  | option argument rest _ apart option others =>
    cases rest with
    | nil =>
      have alone : items specs [argument] = (takeOption specs argument none).items := by
        simp [items, apart, option]
      rw [alone] at whole ⊢
      cases back with
      | nil => simp [alone, items]
      | cons next back =>
        rw [List.singleton_append, items_option apart option, takeOption_of_complete whole]
        rfl
    | cons next rest =>
      rw [items_option apart option] at whole ⊢
      rw [List.cons_append, List.cons_append, items_option apart option, List.append_assoc]
      congr 1
      have later := fun bad => whole (List.mem_append_right _ bad)
      split
      · rename_i used
        rw [if_pos used] at later
        exact others rest (List.suffix_cons next rest) later
      · rename_i unused
        rw [if_neg unused] at later
        exact others (next :: rest) List.suffix_rfl later

theorem itemsToOperand_append_of_operand {arguments later : List Text} {ahead : List Item} {name : Text}
    (found : itemsToOperand specs arguments = (ahead, some (name, later))) (back : List Text) :
    itemsToOperand specs (arguments ++ back) = (ahead, some (name, later ++ back)) := by
  fun_induction itemsToOperand specs arguments generalizing ahead with
  | case1 => cases found
  | case2 => cases found
  | case3 => cases found
  | case4 =>
    rename_i argument apart option next others taken more operand read ofOthers ofNext
    cases found
    rw [List.cons_append, List.cons_append, itemsToOperand_option apart option]
    by_cases used : (takeOption specs argument (some next)).usedNext = true
    · have later := ofOthers ((if_pos used).symm.trans read)
      simp only [used, if_true, later]
      rfl
    · have later := ofNext ((if_neg used).symm.trans read)
      rw [List.cons_append] at later
      simp only [used, later]
      rfl
  | case5 argument rest apart plain =>
    cases found
    rw [List.cons_append, itemsToOperand_operand apart plain]

end

/-! ### What is given -/

structure Given.WithFlag (x : Text) (g g' : Given) : Prop where
  operands : g'.operands = g.operands
  lookup : ∀ key, g'.options.lookup key = if key = x then some [] else g.options.lookup key

/-- Two readings that are refused for the same reason, or give the same but for a flag. -/
inductive AgreeBut (x : Text) : Except Stop Given → Except Stop Given → Prop where
  | refused (stop : Stop) : AgreeBut x (.error stop) (.error stop)
  | given {g g' : Given} (more : g.WithFlag x g') : AgreeBut x (.ok g) (.ok g')

section

variable {x : Text} {takes : Takes} {g g' r : Given} {item : Item} {first rest : List Item}

theorem Given.WithFlag.of_absent (absent : g.options.lookup x = none) :
    g.WithFlag x ⟨g.options ++ [(x, [])], g.operands⟩ := by
  refine ⟨rfl, fun key => ?_⟩
  rw [List.lookup_append]
  by_cases same : key = x
  · simp [same, absent]
  · simp [same, beq_eq_false_iff_ne.2 same]

theorem Given.WithFlag.option (more : g.WithFlag x g') (long value : Text) :
    Given.WithFlag x ⟨g.options ++ [(long, value)], g.operands⟩
      ⟨g'.options ++ [(long, value)], g'.operands⟩ := by
  refine ⟨more.operands, fun key => ?_⟩
  rw [List.lookup_append, List.lookup_append, more.lookup]
  by_cases same : key = x
  · simp [same]
  · simp [same]

theorem Given.WithFlag.operand (more : g.WithFlag x g') (t : Text) :
    Given.WithFlag x ⟨g.options, g.operands ++ [t]⟩ ⟨g'.options, g.operands ++ [t]⟩ :=
  ⟨rfl, more.lookup⟩

theorem Given.WithFlag.has {x : String} (more : g.WithFlag x.toList g') : g'.has x = true := by
  rw [Given.has, Given.value?, more.lookup, if_pos rfl]
  rfl

theorem Given.WithFlag.value? {x : String} (more : g.WithFlag x.toList g') (long : String)
    (apart : long.toList ≠ x.toList) : g'.value? long = g.value? long :=
  (more.lookup long.toList).trans (if_neg apart)

theorem Given.WithFlag.count? {x : String} (more : g.WithFlag x.toList g') (long : String)
    (apart : long.toList ≠ x.toList) : g'.count? long = g.count? long := by
  rw [Given.count?, Given.count?, more.value? long apart]

def IsBare (takes : Takes) (x : Text) : Prop := ∀ spec ∈ takes.options, spec.long = x → spec.value = none

theorem not_accepted_of_isBare (bare : IsBare takes x) (value : Text) :
    (takes.options.any fun spec => spec.long = x && spec.value.any (· value)) = false := by
  simp only [List.any_eq_false, Bool.and_eq_true, decide_eq_true_eq, not_and]
  intro spec member named
  simp [bare spec member named]

theorem takeIn_withFlag (bare : IsBare takes x) (other : item ≠ .flag x) (more : g.WithFlag x g') :
    AgreeBut x (takeIn takes g item) (takeIn takes g' item) := by
  cases item with
  | bad => exact .refused .usage
  | flag long =>
    have apart : long ≠ x := by
      rintro rfl
      exact other rfl
    rw [takeIn, takeIn, more.lookup, if_neg apart]
    split
    · exact .refused .help
    split
    · exact .refused .version
    split
    · exact .refused .usage
    · exact .given (more.option long [])
  | valued long value =>
    by_cases same : long = x
    · subst same
      simp only [takeIn, not_accepted_of_isBare bare, Bool.false_and]
      exact .refused .usage
    · simp only [takeIn, more.lookup, if_neg same]
      split
      · exact .given (more.option long value)
      · exact .refused .usage
  | operand t =>
    rw [takeIn, takeIn, more.operands]
    split
    · exact .given (more.operand t)
    · exact .refused .usage

theorem AgreeBut.bind {first second : Except Stop Given} {later later' : Given → Except Stop Given}
    (agree : AgreeBut x first second)
    (step : ∀ g g', g.WithFlag x g' → AgreeBut x (later g) (later' g')) :
    AgreeBut x (first >>= later) (second >>= later') := by
  cases agree with
  | refused stop => exact .refused stop
  | given more => exact step _ _ more

theorem collect_withFlag (bare : IsBare takes x) (silent : .flag x ∉ rest) (more : g.WithFlag x g') :
    AgreeBut x (collect takes g rest) (collect takes g' rest) := by
  induction rest generalizing g g' with
  | nil => exact .given more
  | cons item rest ih =>
    obtain ⟨other, later⟩ := List.ne_and_not_mem_of_not_mem_cons silent
    rw [collect_cons, collect_cons]
    exact (takeIn_withFlag bare other.symm more).bind fun _ _ more => ih later more

theorem lookup_of_collect (bare : IsBare takes x) (silent : .flag x ∉ rest)
    (done : collect takes g rest = .ok r) : r.options.lookup x = g.options.lookup x := by
  induction rest generalizing g with
  | nil =>
    cases done
    rfl
  | cons item rest ih =>
    obtain ⟨g', added, done⟩ := collect_cons_iff.1 done
    have same := ih (fun member => silent (List.mem_cons_of_mem _ member)) done
    have besides {long : Text} (value : Text) (apart : x ≠ long) :
        (g.options ++ [(long, value)]).lookup x = g.options.lookup x := by
      simp [List.lookup_append, beq_eq_false_iff_ne.2 apart]
    cases added with
    | flag =>
      refine same.trans (besides [] ?_)
      rintro rfl
      exact silent List.mem_cons_self
    | valued accepted =>
      refine same.trans (besides _ ?_)
      rintro rfl
      rw [not_accepted_of_isBare bare] at accepted
      cases accepted
    | operand => exact same

theorem collect_flag_inserted (bare : IsBare takes x) (plain : x ≠ "help".toList ∧ x ≠ "version".toList)
    (absent : g.options.lookup x = none) (silent : .flag x ∉ first ++ rest) :
    AgreeBut x (collect takes g (first ++ rest)) (collect takes g (first ++ .flag x :: rest)) := by
  rw [collect_append, collect_append]
  cases start : collect takes g first with
  | error stop => exact .refused stop
  | ok g₁ =>
    have free : g₁.options.lookup x = none := by
      rw [lookup_of_collect bare (fun member => silent (List.mem_append_left _ member)) start, absent]
    have step : collect takes g₁ (.flag x :: rest) =
        collect takes ⟨g₁.options ++ [(x, [])], g₁.operands⟩ rest := by
      rw [collect, if_neg plain.1, if_neg plain.2, free]
      rfl
    have agree := collect_withFlag bare (fun member => silent (List.mem_append_right _ member))
      (.of_absent free)
    rw [← step] at agree
    exact agree

theorem stop_of_takeIn {stop : Stop} (help : item ≠ .flag "help".toList)
    (version : item ≠ .flag "version".toList) (refused : takeIn takes g item = .error stop) :
    stop = .usage := by
  cases item with
  | bad =>
    cases refused
    rfl
  | flag long =>
    rw [takeIn] at refused
    split at refused
    · rename_i asked
      exact absurd (congrArg Item.flag asked) help
    split at refused
    · rename_i asked
      exact absurd (congrArg Item.flag asked) version
    split at refused
    · cases refused
      rfl
    · cases refused
  | valued long value =>
    simp only [takeIn] at refused
    split at refused
    · cases refused
    · cases refused
      rfl
  | operand t =>
    rw [takeIn] at refused
    split at refused
    · cases refused
    · cases refused
      rfl

/-- Items that do not ask for help or the version are only refused because they cannot be given so. -/
theorem stop_of_collect {stop : Stop} (plain : IsPlain rest) (refused : collect takes g rest = .error stop) :
    stop = .usage := by
  induction rest generalizing g with
  | nil => cases refused
  | cons item rest ih =>
    obtain ⟨noHelp, noVersion⟩ := plain
    obtain ⟨help, noHelp⟩ := List.ne_and_not_mem_of_not_mem_cons noHelp
    obtain ⟨version, noVersion⟩ := List.ne_and_not_mem_of_not_mem_cons noVersion
    rw [collect_cons] at refused
    cases step : takeIn takes g item with
    | error reason =>
      rw [step] at refused
      cases refused
      exact stop_of_takeIn help.symm version.symm step
    | ok g' =>
      rw [step] at refused
      exact ih ⟨noHelp, noVersion⟩ refused

theorem operands_of_collect (done : collect takes g rest = .ok r) :
    g.operands <+: r.operands ∧ ∀ t, .operand t ∈ rest → t ∈ r.operands := by
  induction rest generalizing g with
  | nil =>
    cases done
    exact ⟨List.prefix_rfl, by simp⟩
  | cons item rest ih =>
    obtain ⟨g', added, done⟩ := collect_cons_iff.1 done
    obtain ⟨kept, given⟩ := ih done
    cases added with
    | flag => exact ⟨kept, by simpa using given⟩
    | valued => exact ⟨kept, by simpa using given⟩
    | operand =>
      refine ⟨(List.prefix_append _ _).trans kept, fun t member => ?_⟩
      rcases List.mem_cons.1 member with same | member
      · cases same
        exact kept.subset (List.mem_append_right _ List.mem_cons_self)
      · exact given t member

theorem length_operands_of_collect {n : Nat} (limit : takes.limit = some n)
    (within : g.operands.length ≤ n) (done : collect takes g rest = .ok r) : r.operands.length ≤ n := by
  induction rest generalizing g with
  | nil =>
    cases done
    exact within
  | cons item rest ih =>
    obtain ⟨g', added, done⟩ := collect_cons_iff.1 done
    refine ih ?_ done
    cases added with
    | flag => exact within
    | valued => exact within
    | operand accepted =>
      rw [limit, Bool.and_eq_true] at accepted
      have room : g.operands.length < n := by simpa using accepted.1
      rw [List.length_append]
      exact room

theorem operands_eq_of_collect {t : Text} (limit : takes.limit = some 1) (named : .operand t ∈ rest)
    (done : collect takes ⟨[], []⟩ rest = .ok r) : r.operands = [t] := by
  have member := (operands_of_collect done).2 t named
  have short := length_operands_of_collect limit (by simp) done
  obtain ⟨other, only⟩ := List.length_eq_one_iff.1
    (Nat.le_antisymm short (List.length_pos_of_mem member))
  rw [only] at member ⊢
  rw [List.mem_singleton.1 member]

end

end ApexTidy.Command
