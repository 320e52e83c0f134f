import ApexTidy.Command.Arguments

/-!
One flag in the place of another. A flag that is written out stands for itself wherever it stands, and the
arguments around it are read the same whichever flag it is. So a command line that asks for writing asks
for a check, of the same files and in the same form, once it says that instead.
-/

namespace ApexTidy.Command

open Text

/-- Written out, this is a flag, whatever comes next. -/
def IsFlag (specs : List OptionSpec) (long : Text) : Prop :=
  ∀ next, takeOption specs (endOfOptions ++ long) next = ⟨[.flag long], false⟩

def IsUnknown (specs : List OptionSpec) (long : Text) : Prop :=
  ∀ next, takeOption specs (endOfOptions ++ long) next = ⟨[.bad], false⟩

theorem looksLikeOption_long (long : Text) : looksLikeOption (endOfOptions ++ long) = true := by
  simp [looksLikeOption, endOfOptions, startsWith, afterStart?]

theorem long_ne_endOfOptions {long : Text} (named : long ≠ []) : endOfOptions ++ long ≠ endOfOptions := by
  simpa using named

theorem takeNext_of_option {value : Text} (option : looksLikeOption value = true) (long : Text) :
    takeNext long (some value) = ⟨[.bad], false⟩ := by
  rw [takeNext, if_pos option]

theorem exists_takeLong (specs : List OptionSpec) (body : Text) :
    ∃ found, ∀ value, looksLikeOption value = true →
      takeLong specs body (some value) = ⟨found, false⟩ := by
  unfold takeLong
  split
  rename_i name attached _
  split
  · exact ⟨_, fun _ _ => rfl⟩
  · exact ⟨_, fun _ _ => rfl⟩
  · split
    · exact ⟨_, fun _ _ => rfl⟩
    · exact ⟨_, fun _ option => takeNext_of_option option name⟩

theorem exists_takeLetters (specs : List OptionSpec) (letters : Text) :
    ∃ found, ∀ value, looksLikeOption value = true →
      takeLetters specs (some value) letters = ⟨found, false⟩ := by
  induction letters with
  | nil => exact ⟨_, fun _ _ => rfl⟩
  | cons c rest ih =>
    obtain ⟨others, same⟩ := ih
    cases spec : specs.find? (·.letter = some c) with
    | none => exact ⟨[.bad], fun _ _ => by rw [takeLetters, spec]⟩
    | some spec' =>
      obtain ⟨name, letter, takes⟩ := spec'
      cases takes with
      | none =>
        exact ⟨.flag name :: others, fun value option => by
          simp [takeLetters, spec, same value option]⟩
      | some accepts =>
        by_cases last : rest = []
        · exact ⟨[.bad], fun value option => by
            simp [takeLetters, spec, last, takeNext_of_option option]⟩
        · exact ⟨[.valued name ((afterStart? ['='] rest).getD rest)], fun value option => by
            simp [takeLetters, spec, last]⟩

theorem exists_takeOption (specs : List OptionSpec) (argument : Text) :
    ∃ found, ∀ value, looksLikeOption value = true →
      takeOption specs argument (some value) = ⟨found, false⟩ := by
  unfold takeOption
  split
  · exact exists_takeLong specs _
  · exact exists_takeLetters specs _

section

variable {specs : List OptionSpec} {argument : Text}

theorem items_operand (apart : argument ≠ endOfOptions) (plain : looksLikeOption argument ≠ true)
    (rest : List Text) : items specs (argument :: rest) = .operand argument :: items specs rest := by
  cases rest with
  | nil => simp [items, apart, plain]
  | cons next others => rw [items, if_neg apart, if_neg plain]

theorem items_option (apart : argument ≠ endOfOptions) (option : looksLikeOption argument = true)
    (next : Text) (others : List Text) :
    items specs (argument :: next :: others) =
      (takeOption specs argument (some next)).items ++
        if (takeOption specs argument (some next)).usedNext then items specs others
        else items specs (next :: others) := by
  rw [items, if_neg apart, if_pos option]

theorem items_flag {long : Text} (named : long ≠ []) (flag : IsFlag specs long) (rest : List Text) :
    items specs ((endOfOptions ++ long) :: rest) = .flag long :: items specs rest := by
  have apart := long_ne_endOfOptions named
  cases rest with
  | nil => simp [items, apart, looksLikeOption_long, flag none]
  | cons next others =>
    rw [items_option apart (looksLikeOption_long long), flag]
    rfl

theorem itemsToOperand_operand (apart : argument ≠ endOfOptions) (plain : looksLikeOption argument ≠ true)
    (rest : List Text) : itemsToOperand specs (argument :: rest) = ([], some (argument, rest)) := by
  cases rest with
  | nil => simp [itemsToOperand, apart, plain]
  | cons next others => rw [itemsToOperand, if_neg apart, if_neg plain]

theorem itemsToOperand_option (apart : argument ≠ endOfOptions) (option : looksLikeOption argument = true)
    (next : Text) (others : List Text) :
    itemsToOperand specs (argument :: next :: others) =
      let taken := takeOption specs argument (some next)
      let later := if taken.usedNext then itemsToOperand specs others
        else itemsToOperand specs (next :: others)
      (taken.items ++ later.1, later.2) := by
  rw [itemsToOperand, if_neg apart, if_pos option]

theorem bad_mem_itemsToOperand {long : Text} (named : long ≠ []) (unknown : IsUnknown specs long)
    (rest : List Text) : .bad ∈ (itemsToOperand specs ((endOfOptions ++ long) :: rest)).1 := by
  have apart := long_ne_endOfOptions named
  cases rest with
  | nil => simp [itemsToOperand, apart, looksLikeOption_long, unknown none]
  | cons next others =>
    simp [itemsToOperand_option apart (looksLikeOption_long long), unknown (some next)]

/-- An option takes no notice of an option that is written out further on, and leaves it where it is. -/
theorem exists_later (specs : List OptionSpec) (apart : argument ≠ endOfOptions)
    (option : looksLikeOption argument = true) (rest back : List Text) :
    ∃ found later, later <:+ rest ∧ ∀ long,
      items specs (argument :: (rest ++ (endOfOptions ++ long) :: back)) =
        found ++ items specs (later ++ (endOfOptions ++ long) :: back) ∧
      itemsToOperand specs (argument :: (rest ++ (endOfOptions ++ long) :: back)) =
        (found ++ (itemsToOperand specs (later ++ (endOfOptions ++ long) :: back)).1,
          (itemsToOperand specs (later ++ (endOfOptions ++ long) :: back)).2) := by
  cases rest with
  | nil =>
    obtain ⟨found, taken⟩ := exists_takeOption specs argument
    refine ⟨found, [], List.suffix_rfl, fun long => ?_⟩
    have taken := taken _ (looksLikeOption_long long)
    rw [List.nil_append, items_option apart option, itemsToOperand_option apart option, taken]
    exact ⟨rfl, rfl⟩
  | cons next others =>
    by_cases used : (takeOption specs argument (some next)).usedNext = true
    · refine ⟨(takeOption specs argument (some next)).items, others, List.suffix_cons next others,
        fun long => ?_⟩
      rw [List.cons_append, items_option apart option, itemsToOperand_option apart option, if_pos used]
      simp [used]
    · refine ⟨(takeOption specs argument (some next)).items, next :: others, List.suffix_rfl,
        fun long => ?_⟩
      rw [List.cons_append, items_option apart option, itemsToOperand_option apart option, if_neg used]
      simp [used]

end

/-- Induction over the arguments in front of the end of the options. What an option leaves is some end of
what follows it. -/
@[elab_as_elim]
theorem front_induction {motive : (front : List Text) → endOfOptions ∉ front → Prop}
    (nil : motive [] List.not_mem_nil)
    (operand : ∀ argument rest (before : endOfOptions ∉ argument :: rest) (later : endOfOptions ∉ rest),
      argument ≠ endOfOptions → looksLikeOption argument ≠ true → motive rest later →
        motive (argument :: rest) before)
    (option : ∀ argument rest (before : endOfOptions ∉ argument :: rest),
      argument ≠ endOfOptions → looksLikeOption argument = true →
        (∀ left (suffix : left <:+ rest),
          motive left fun member => before (List.mem_cons_of_mem _ (suffix.subset member))) →
        motive (argument :: rest) before)
    (front : List Text) (before : endOfOptions ∉ front) : motive front before := by
  match front with
  | [] => exact nil
  | argument :: rest =>
    have apart : argument ≠ endOfOptions := fun same => before (same ▸ List.mem_cons_self)
    have later : endOfOptions ∉ rest := fun member => before (List.mem_cons_of_mem _ member)
    by_cases looks : looksLikeOption argument = true
    · apply option argument rest before apart looks
      intro left suffix
      exact front_induction nil operand option left _
    · exact operand argument rest before later apart looks (front_induction nil operand option rest later)
termination_by front.length
decreasing_by
  · exact Nat.lt_succ_of_le suffix.length_le
  · exact Nat.lt_succ_self _

theorem exists_items_append (specs : List OptionSpec) (back front : List Text)
    (before : endOfOptions ∉ front) :
    ∃ ahead after, ∀ long, long ≠ [] → IsFlag specs long →
      items specs (front ++ (endOfOptions ++ long) :: back) = ahead ++ .flag long :: after := by
  induction front, before using front_induction with
  | nil => exact ⟨[], items specs back, fun _ named flag => items_flag named flag back⟩
  | operand argument rest _ _ apart plain others =>
    obtain ⟨ahead, after, same⟩ := others
    refine ⟨.operand argument :: ahead, after, fun long named flag => ?_⟩
    rw [List.cons_append, items_operand apart plain, same long named flag, List.cons_append]
  | option argument rest _ apart option others =>
    obtain ⟨found, later, suffix, step⟩ := exists_later specs apart option rest back
    obtain ⟨ahead, after, same⟩ := others later suffix
    refine ⟨found ++ ahead, after, fun long named flag => ?_⟩
    rw [List.cons_append, (step long).1, same long named flag, List.append_assoc]

/-- An option that stands behind the first operand is left for later. In front of it, one that is unknown
is found out. -/
theorem itemsToOperand_append (specs : List OptionSpec) (back front : List Text)
    (before : endOfOptions ∉ front) :
    (∃ ahead name later, endOfOptions ∉ later ∧ ∀ long,
      itemsToOperand specs (front ++ (endOfOptions ++ long) :: back) =
        (ahead, some (name, later ++ (endOfOptions ++ long) :: back))) ∨
    ∀ long, long ≠ [] → IsUnknown specs long →
      .bad ∈ (itemsToOperand specs (front ++ (endOfOptions ++ long) :: back)).1 := by
  induction front, before using front_induction with
  | nil => exact .inr fun long named unknown => bad_mem_itemsToOperand named unknown back
  | operand argument rest _ later apart plain _ =>
    refine .inl ⟨[], argument, rest, later, fun long => ?_⟩
    rw [List.cons_append, itemsToOperand_operand apart plain]
  | option argument rest _ apart option others =>
    obtain ⟨found, left, suffix, step⟩ := exists_later specs apart option rest back
    rcases others left suffix with ⟨ahead, name, later, before, same⟩ | bad
    · refine .inl ⟨found ++ ahead, name, later, before, fun long => ?_⟩
      rw [List.cons_append, (step long).2, same long]
    · refine .inr fun long named unknown => ?_
      rw [List.cons_append, (step long).2]
      exact List.mem_append_right _ (bad long named unknown)

/-! ### What is given -/

theorem bind_eq_ok_iff {ε α β : Type} {first : Except ε α} {later : α → Except ε β} {b : β} :
    first >>= later = .ok b ↔ ∃ a, first = .ok a ∧ later a = .ok b := by
  cases first with
  | error => simp [bind, Except.bind]
  | ok a => simp [bind, Except.bind]

def takeIn (takes : Takes) (g : Given) : Item → Except Stop Given
  | .bad => .error .usage
  | .flag long =>
    if long = "help".toList then .error .help
    else if long = "version".toList then .error .version
    else if (g.options.lookup long).isSome then .error .usage
    else .ok ⟨g.options ++ [(long, [])], g.operands⟩
  | .valued long value =>
    let accepted := takes.options.any fun spec => spec.long = long && spec.value.any (· value)
    if accepted && (g.options.lookup long).isNone then .ok ⟨g.options ++ [(long, value)], g.operands⟩
    else .error .usage
  | .operand t =>
    if takes.limit.all (g.operands.length < ·) && takes.acceptsOperand t then
      .ok ⟨g.options, g.operands ++ [t]⟩
    else
      .error .usage

inductive Adds (takes : Takes) (g : Given) : Item → Given → Prop where
  | flag {long : Text} (plain : long ≠ "help".toList ∧ long ≠ "version".toList)
      (fresh : g.options.lookup long = none) :
      Adds takes g (.flag long) ⟨g.options ++ [(long, [])], g.operands⟩
  | valued {long value : Text}
      (accepted : (takes.options.any fun spec => spec.long = long && spec.value.any (· value)) = true)
      (fresh : g.options.lookup long = none) :
      Adds takes g (.valued long value) ⟨g.options ++ [(long, value)], g.operands⟩
  | operand {t : Text}
      (accepted : (takes.limit.all (g.operands.length < ·) && takes.acceptsOperand t) = true) :
      Adds takes g (.operand t) ⟨g.options, g.operands ++ [t]⟩

section

variable {takes : Takes} {g g' r : Given} {item : Item} {first rest : List Item}

theorem takeIn_eq_ok_iff : takeIn takes g item = .ok g' ↔ Adds takes g item g' := by
  constructor
  · intro done
    cases item with
    | bad => cases done
    | flag long =>
      rw [takeIn] at done
      split at done
      · cases done
      rename_i help
      split at done
      · cases done
      rename_i version
      split at done
      · cases done
      rename_i given
      cases done
      exact .flag ⟨help, version⟩ (Option.not_isSome_iff_eq_none.1 given)
    | valued long value =>
      rw [takeIn] at done
      split at done
      case isFalse => cases done
      rename_i given
      obtain ⟨accepted, fresh⟩ := Bool.and_eq_true_iff.1 given
      cases done
      exact .valued accepted (Option.isNone_iff_eq_none.1 fresh)
    | operand t =>
      rw [takeIn] at done
      split at done
      case isFalse => cases done
      rename_i accepted
      cases done
      exact .operand accepted
  · intro added
    cases added with
    | flag plain fresh =>
      rw [takeIn, if_neg plain.1, if_neg plain.2, fresh]
      rfl
    | valued accepted fresh =>
      rw [takeIn, accepted, fresh]
      rfl
    | operand accepted =>
      rw [takeIn, accepted]
      rfl

theorem collect_cons (takes : Takes) (g : Given) (item : Item) (rest : List Item) :
    collect takes g (item :: rest) = takeIn takes g item >>= fun g' => collect takes g' rest := by
  cases item with
  | bad => rfl
  | flag long =>
    rw [collect, takeIn]
    split
    · rfl
    split
    · rfl
    split
    · rfl
    · rfl
  | valued long value =>
    simp only [collect, takeIn]
    split
    · rfl
    · rfl
  | operand t =>
    rw [collect, takeIn]
    split
    · rfl
    · rfl

theorem collect_append (takes : Takes) (g : Given) (first rest : List Item) :
    collect takes g (first ++ rest) = collect takes g first >>= fun g' => collect takes g' rest := by
  induction first generalizing g with
  | nil => rfl
  | cons item first ih => simp only [List.cons_append, collect_cons, ih, bind_assoc]

theorem collect_cons_iff :
    collect takes g (item :: rest) = .ok r ↔
      ∃ g', Adds takes g item g' ∧ collect takes g' rest = .ok r := by
  simp only [collect_cons, bind_eq_ok_iff, takeIn_eq_ok_iff]

theorem collect_append_iff :
    collect takes g (first ++ rest) = .ok r ↔
      ∃ g', collect takes g first = .ok g' ∧ collect takes g' rest = .ok r := by
  rw [collect_append, bind_eq_ok_iff]

theorem collect_ne_ok_of_bad (bad : .bad ∈ rest) : collect takes g rest ≠ .ok r := by
  intro done
  obtain ⟨front, back, rfl⟩ := List.append_of_mem bad
  obtain ⟨g₁, -, done⟩ := collect_append_iff.1 done
  obtain ⟨g₂, added, -⟩ := collect_cons_iff.1 done
  cases added

theorem Adds.options (added : Adds takes g item g') : g.options <+: g'.options := by
  cases added with
  | flag => exact List.prefix_append _ _
  | valued => exact List.prefix_append _ _
  | operand => exact List.prefix_rfl

theorem options_of_collect (done : collect takes g rest = .ok r) : g.options <+: r.options := by
  induction rest generalizing g with
  | nil =>
    cases done
    exact List.prefix_rfl
  | cons item rest ih =>
    obtain ⟨g', added, done⟩ := collect_cons_iff.1 done
    exact added.options.trans (ih done)

end

/-! ### The exchange -/

def Given.exchange (g : Given) (x y : Text) : Given :=
  ⟨g.options.map fun option => (if option.1 = x then y else option.1, option.2), g.operands⟩

section

variable {x y : Text} {takes : Takes} {g g' r : Given} {item : Item} {first rest : List Item}

theorem lookup_exchange (apart : x ≠ y) (absent : g.options.lookup y = none) (key : Text) :
    (g.exchange x y).options.lookup key =
      if key = x then none else if key = y then g.options.lookup x else g.options.lookup key := by
  obtain ⟨options, operands⟩ := g
  simp only [Given.exchange] at absent ⊢
  induction options with
  | nil => simp
  | cons option rest ih =>
    obtain ⟨long, value⟩ := option
    rw [List.lookup_cons] at absent
    have other : y ≠ long := by
      rintro rfl
      simp at absent
    rw [beq_eq_false_iff_ne.2 other] at absent
    rw [List.map_cons, List.lookup_cons, List.lookup_cons, List.lookup_cons, ih absent]
    by_cases same : long = x
    · subst same
      by_cases second : key = y
      · subst second
        simp [apart.symm]
      · by_cases first : key = long
        · simp [first, beq_eq_false_iff_ne.2 apart]
        · simp [first, second, beq_eq_false_iff_ne.2 second, beq_eq_false_iff_ne.2 first]
    · by_cases given : key = long
      · subst given
        simp [same, other.symm]
      · simp [same, beq_eq_false_iff_ne.2 given, beq_eq_false_iff_ne.2 (Ne.symm same)]

theorem exchange_of_absent (absent : g.options.lookup x = none) : g.exchange x y = g := by
  obtain ⟨options, operands⟩ := g
  have kept : ∀ option ∈ options, (if option.1 = x then y else option.1, option.2) = option := by
    intro option member
    have other : x ≠ option.1 := by simpa using List.lookup_eq_none_iff.1 absent option member
    rw [if_neg other.symm]
  rw [Given.exchange, List.map_congr_left kept, List.map_id']

theorem Adds.exchange (apart : x ≠ y) (added : Adds takes g item g')
    (given : g.options.lookup x ≠ none) (absent : g'.options.lookup y = none) :
    Adds takes (g.exchange x y) item (g'.exchange x y) := by
  have before := added.options.lookup_eq_none absent
  have besides {long value : Text} (fresh : g.options.lookup long = none)
      (absent : (g.options ++ [(long, value)]).lookup y = none) :
      long ≠ x ∧ (g.exchange x y).options.lookup long = none := by
    have other : long ≠ x := fun same => given (same ▸ fresh)
    have another : long ≠ y := by
      rintro rfl
      rw [List.lookup_append, fresh, Option.none_or, List.lookup_cons_self] at absent
      cases absent
    rw [lookup_exchange apart before, if_neg other, if_neg another]
    exact ⟨other, fresh⟩
  cases added with
  | flag plain fresh =>
    obtain ⟨other, fresh⟩ := besides fresh absent
    have added : Adds takes _ _ _ := .flag plain fresh
    simpa [Given.exchange, other] using added
  | valued accepted fresh =>
    obtain ⟨other, fresh⟩ := besides fresh absent
    have added : Adds takes _ _ _ := .valued accepted fresh
    simpa [Given.exchange, other] using added
  | operand accepted => exact .operand accepted

theorem collect_exchange (apart : x ≠ y) (done : collect takes g rest = .ok r)
    (given : g.options.lookup x ≠ none) (absent : r.options.lookup y = none) :
    collect takes (g.exchange x y) rest = .ok (r.exchange x y) := by
  induction rest generalizing g with
  | nil =>
    cases done
    rfl
  | cons item rest ih =>
    obtain ⟨g', added, done⟩ := collect_cons_iff.1 done
    have later := (options_of_collect done).lookup_eq_none absent
    exact collect_cons_iff.2 ⟨_, added.exchange apart given later,
      ih done fun free => given (added.options.lookup_eq_none free)⟩

theorem collect_flag_exchange (apart : x ≠ y) (plain : y ≠ "help".toList ∧ y ≠ "version".toList)
    (done : collect takes g (first ++ .flag x :: rest) = .ok r) :
    r.options.lookup x ≠ none ∧
      (r.options.lookup y = none → collect takes g (first ++ .flag y :: rest) = .ok (r.exchange x y)) := by
  obtain ⟨g₁, start, done⟩ := collect_append_iff.1 done
  obtain ⟨g₂, added, done⟩ := collect_cons_iff.1 done
  have kept := options_of_collect done
  cases added with | flag _ fresh =>
  have given : (g₁.options ++ [(x, [])]).lookup x ≠ none := by
    rw [List.lookup_append, fresh, Option.none_or, List.lookup_cons_self]
    exact Option.some_ne_none _
  refine ⟨fun free => given (kept.lookup_eq_none free), fun absent => ?_⟩
  have before := (List.prefix_append _ _).lookup_eq_none (kept.lookup_eq_none absent)
  have later := collect_exchange apart done given absent
  have exchanged : Given.exchange ⟨g₁.options ++ [(x, [])], g₁.operands⟩ x y =
      ⟨g₁.options ++ [(y, [])], g₁.operands⟩ := by
    have same := congrArg Given.options (exchange_of_absent (y := y) fresh)
    simpa [Given.exchange] using same
  rw [exchanged] at later
  exact collect_append_iff.2 ⟨g₁, start, collect_cons_iff.2 ⟨_, .flag plain before, later⟩⟩

end

theorem value?_exchange {x y : String} (apart : x.toList ≠ y.toList) {g : Given}
    (absent : g.value? y = none) (long : String) :
    (g.exchange x.toList y.toList).value? long =
      if long.toList = x.toList then none else if long.toList = y.toList then g.value? x
      else g.value? long :=
  lookup_exchange apart absent long.toList

/-! ### Writing and checking -/

theorem parse_eq_format_iff {arguments : List Text} {config : Option Text} {a : FormatArguments} :
    Invocation.parse arguments = .ok ⟨config, .format a⟩ ↔
      ∃ ahead rest shared g,
        itemsToOperand programTakes.options arguments = (ahead, some ("format".toList, rest)) ∧
        collect programTakes ⟨[], []⟩ ahead = .ok shared ∧
        collect formatTakes ⟨[], []⟩ (items formatTakes.options rest) = .ok g ∧
        formatArguments g = .ok a ∧ (g.value? "config" <|> shared.value? "config") = config := by
  unfold Invocation.parse
  cases found : itemsToOperand programTakes.options arguments with | mk ahead command =>
  simp only
  constructor
  · intro parsed
    split at parsed
    · cases parsed
    rename_i shared first
    split at parsed
    · cases parsed
    rename_i name rest
    split at parsed
    · rename_i named
      obtain ⟨g, second, parsed⟩ := bind_eq_ok_iff.1 parsed
      obtain ⟨b, read, parsed⟩ := bind_eq_ok_iff.1 parsed
      cases parsed
      exact ⟨ahead, rest, shared, g, by rw [named], first, second, read, rfl⟩
    split at parsed
    · obtain ⟨g, -, parsed⟩ := bind_eq_ok_iff.1 parsed
      obtain ⟨b, -, parsed⟩ := bind_eq_ok_iff.1 parsed
      cases parsed
    split at parsed
    · cases parsed
    · cases parsed
  · rintro ⟨ahead, rest, shared, g, same, first, second, read, rfl⟩
    cases same
    rw [first]
    simp only [if_true]
    exact bind_eq_ok_iff.2 ⟨g, second, bind_eq_ok_iff.2 ⟨a, read, rfl⟩⟩

theorem formatArguments_exchange {g : Given} {a : FormatArguments} (read : formatArguments g = .ok a)
    (writes : g.has "write" = true) :
    a.mode = .write ∧ g.value? "check" = none ∧
      formatArguments (g.exchange "write".toList "check".toList) = .ok { a with mode := .check } := by
  unfold formatArguments at read
  split at read
  · cases read
  rename_i allowed
  rw [writes, Bool.true_and, Bool.or_eq_true, not_or] at allowed
  obtain ⟨unchecked, onlyOne⟩ := allowed
  have absent : g.value? "check" = none := Option.not_isSome_iff_eq_none.1 unchecked
  have value := value?_exchange (x := "write") (y := "check") (by decide) absent
  have write : (g.exchange "write".toList "check".toList).has "write" = false := by
    rw [Given.has, value]
    rfl
  have check : (g.exchange "write".toList "check".toList).has "check" = true := by
    rw [Given.has, value]
    exact writes
  have tabs : (g.exchange "write".toList "check".toList).has "tabs" = g.has "tabs" := by
    rw [Given.has, value]
    rfl
  have sized : (g.exchange "write".toList "check".toList).has "indent-size" = g.has "indent-size" := by
    rw [Given.has, value]
    rfl
  have size : (g.exchange "write".toList "check".toList).count? "indent-size" = g.count? "indent-size" := by
    rw [Given.count?, value]
    rfl
  injection read with read
  subst read
  refine ⟨rfl, absent, ?_⟩
  rw [formatArguments, write, check, tabs, sized, size, if_neg (by simpa using onlyOne)]
  rfl

theorem isFlag_format :
    IsFlag formatTakes.options "write".toList ∧ IsFlag formatTakes.options "check".toList :=
  ⟨fun _ => rfl, fun _ => rfl⟩

theorem isUnknown_write : IsUnknown programTakes.options "write".toList := fun _ => rfl

/-- A command line that asks for writing asks for a check with that flag in its place. -/
theorem parse_check_of_write {front back : List Text} {config : Option Text} {a : FormatArguments}
    (before : endOfOptions ∉ front)
    (parsed : Invocation.parse (front ++ "--write".toList :: back) = .ok ⟨config, .format a⟩) :
    a.mode = .write ∧
      Invocation.parse (front ++ "--check".toList :: back) =
        .ok ⟨config, .format { a with mode := .check }⟩ := by
  obtain ⟨ahead, rest, shared, g, found, first, second, read, named⟩ := parse_eq_format_iff.1 parsed
  rcases itemsToOperand_append programTakes.options back front before with
    ⟨ahead', name, later, before, same⟩ | bad
  · have writing := found.symm.trans (same "write".toList)
    have checking := same "check".toList
    cases writing
    obtain ⟨start, others, flag⟩ := exists_items_append formatTakes.options back later before
    rw [flag _ (by decide) isFlag_format.1] at second
    obtain ⟨given, exchanged⟩ :=
      collect_flag_exchange (y := "check".toList) (by decide) (by decide) second
    obtain ⟨mode, absent, read⟩ :=
      formatArguments_exchange read (Option.isSome_iff_ne_none.2 given)
    refine ⟨mode, parse_eq_format_iff.2
      ⟨ahead, _, shared, _, checking, first, ?_, read, ?_⟩⟩
    · rw [flag _ (by decide) isFlag_format.2]
      exact exchanged absent
    · rw [value?_exchange (by decide) absent]
      exact named
  · have bad := bad "write".toList (by decide) isUnknown_write
    change .bad ∈ (itemsToOperand programTakes.options (front ++ "--write".toList :: back)).1 at bad
    rw [found] at bad
    exact absurd first (collect_ne_ok_of_bad bad)

end ApexTidy.Command
