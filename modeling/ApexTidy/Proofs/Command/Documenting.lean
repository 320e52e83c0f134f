import ApexTidy.Proofs.Command.Insertion
import ApexTidy.Proofs.Command.Writing
import ApexTidy.Proofs.Comment.Outcome

/-!
Documenting a file, printed and written. A command line that prints a documented file becomes one that
writes it by one flag more. Both do the same up to the end, and then the one prints what the other writes.
If something goes wrong on the way, it does so for both of them, and nothing is printed and no file changes.
What only the second run can meet is a file that does not let itself be written.
-/

namespace ApexTidy

open Text

/-- A file reads like this now. Which files there are and what the others hold is as it was. -/
structure World.Rewritten (w after : World) (path text : Text) : Prop where
  holds : after.read? path = some text
  listing : after.listing = w.listing
  others : ∀ place, w.listing.place? path ≠ some place → after.files.lookup place = w.files.lookup place

namespace World

variable {w : World} {path old text : Text}

theorem Rewritten.of_read (held : w.read? path = some text) : w.Rewritten w path text :=
  ⟨held, rfl, fun _ _ => rfl⟩

theorem Rewritten.of_put (held : w.read? path = some old) (text : Text) :
    w.Rewritten (w.put path (.text text)) path text := by
  refine ⟨?_, w.listing_put path _, fun place apart => ?_⟩
  · rw [read?_put held, if_pos rfl]
    rfl
  · rw [lookup_put, if_neg apart]

end World

namespace Command

/-- The one run prints what the other writes to the file. A run that fails does neither, and both fail
together, but for a file that cannot be written: then the second run says so and prints nothing, and no
other file changes. -/
structure WritesPrinted (limits : Limits) (w : World) (path : Text) (printing writing : Outcome) :
    Prop where
  kept : printing.world = w
  written : printing.exit = 0 → writing.failure ≠ some (.unwritable path) →
    writing.exit = 0 ∧ writing.printed = [] ∧ w.Rewritten writing.world path printing.printed
  refused : printing.exit = 0 → writing.failure = some (.unwritable path) →
    ∃ left, w.remnant? limits path = some left ∧
      writing = .failed (w.put path left) (.unwritable path) [] []
  failed : printing.exit ≠ 0 → printing.printed = [] ∧ writing = printing

section

variable {limits : Limits} {w : World} {settings : Settings} {a : CommentArguments} {path text : Text}
variable {inserted : Bool}

theorem WritesPrinted.of_failed {outcome : Outcome} (exit : outcome.exit ≠ 0)
    (printed : outcome.printed = []) (kept : outcome.world = w) :
    WritesPrinted limits w path outcome outcome :=
  ⟨kept, fun ended => absurd ended exit, fun ended => absurd ended exit, fun _ => ⟨printed, rfl⟩⟩

theorem WritesPrinted.of_done {after : World} (rewritten : w.Rewritten after path text)
    (warnings : List Warning) :
    WritesPrinted limits w path (.done w text warnings) (.done after [] warnings) :=
  ⟨rfl, fun _ _ => ⟨rfl, rfl, rewritten⟩, fun _ stopped => (nomatch stopped),
    fun ended => absurd rfl ended⟩

theorem WritesPrinted.of_refused {left : Content} (refused : w.remnant? limits path = some left)
    (warnings : List Warning) :
    WritesPrinted limits w path (.done w text warnings)
      (.failed (w.put path left) (.unwritable path) [] []) :=
  ⟨rfl, fun _ unrefused => absurd rfl unrefused, fun _ _ => ⟨left, refused, rfl⟩,
    fun ended => absurd rfl ended⟩

theorem exists_read_of_commentResult (named : a.file = some path)
    (done : commentResult limits w settings a = .ok (text, inserted)) :
    ∃ old, w.read? path = some old ∧ (inserted = false → text = old) := by
  obtain ⟨⟨selection, options⟩, -, done⟩ := bind_eq_ok_iff.1 done
  obtain ⟨old, read, done⟩ := bind_eq_ok_iff.1 done
  refine ⟨old, ?_, ?_⟩
  · simp only [commentText, named] at read
    split at read
    · rename_i held
      cases read
      exact held
    · cases read
  · rintro rfl
    rcases Document.comment_cases old selection options with
      ⟨fault, -, reply⟩ | ⟨-, reply⟩ | ⟨plan, text', -, -, reply⟩
    · simp only [reply] at done
      cases done
    · simp only [reply] at done
      cases done
      rfl
    · simp only [reply] at done
      cases done

theorem comment_writesPrinted (named : a.file = some path) (prints : a.write = false) :
    WritesPrinted limits w path (comment limits w settings a)
      (comment limits w settings { a with write := true }) := by
  have same : commentResult limits w settings { a with write := true } =
      commentResult limits w settings a := rfl
  cases result : commentResult limits w settings a with
  | error failure =>
    simp only [comment, same, result]
    exact .of_failed Nat.one_ne_zero rfl rfl
  | ok reply =>
    obtain ⟨text, inserted⟩ := reply
    obtain ⟨old, held, unchanged⟩ := exists_read_of_commentResult named result
    have printing : comment limits w settings a =
        .done w text (if inserted then [] else [.nothingToDocument]) := by
      simp only [comment, result, named, prints]
    have writing : comment limits w settings { a with write := true } =
        if inserted then writeBack limits w path text
        else .done w [] (if inserted then [] else [.nothingToDocument]) := by
      rw [comment, same, result]
      simp only [named]
    rw [printing, writing]
    cases inserted with
    | false =>
      obtain rfl := unchanged rfl
      exact .of_done (.of_read held) _
    | true =>
      cases kept : w.remnant? limits path with
      | none =>
        rw [writeBack, World.write_of_writable kept]
        exact .of_done (.of_put held text) _
      | some left =>
        rw [writeBack, World.write_of_unwritable kept]
        exact .of_refused kept _

/-! ### The two command lines -/

theorem parse_of_comment {arguments rest : List Text} {ahead : List Item}
    (called : itemsToOperand programTakes.options arguments = (ahead, some ("comment".toList, rest))) :
    Invocation.parse arguments = do
      let shared ← collect programTakes ⟨[], []⟩ ahead
      let g ← collect commentTakes ⟨[], []⟩ (items commentTakes.options rest)
      let a ← commentArguments g
      return ⟨g.value? "config" <|> shared.value? "config", .comment a⟩ := by
  unfold Invocation.parse
  simp only [called]
  cases collect programTakes ⟨[], []⟩ ahead with
  | error stop => rfl
  | ok shared => rfl

theorem commentArguments_eq_error {g : Given} {stop : Stop} (refused : commentArguments g = .error stop) :
    stop = .usage := by
  simp only [commentArguments] at refused
  split at refused
  · cases refused
    rfl
  split at refused
  · cases refused
    rfl
  · cases refused

theorem commentArguments_withFlag {g g' : Given} (more : g.WithFlag "write".toList g')
    (prints : g.value? "write" = none) (named : g.operands = [path]) :
    (∃ stop, commentArguments g = .error stop ∧ commentArguments g' = .error stop) ∨
      ∃ a, commentArguments g = .ok a ∧ commentArguments g' = .ok { a with write := true } ∧
        a.file = some path ∧ a.write = false := by
  have unasked : g.has "write" = false := by
    rw [Given.has, prints]
    rfl
  unfold commentArguments
  rw [more.count? "line" (by decide), more.count? "end-line" (by decide),
    more.value? "selection" (by decide), more.value? "format" (by decide),
    more.value? "date" (by decide), more.operands, more.has, named, unasked]
  simp only
  split
  · exact .inl ⟨_, rfl, rfl⟩
  · exact .inr ⟨_, rfl, rfl, rfl, rfl⟩

end

section

variable {limits : Limits} {w : World} {start front back : List Text} {ahead : List Item} {path : Text}

theorem isFlag_write_comment : IsFlag commentTakes.options "write".toList := fun _ => rfl

theorem isBare_write_comment : IsBare commentTakes "write".toList := by
  simp [IsBare, commentTakes, sharedOptions, countOption, textOption, pathOption, flag]

theorem items_write (complete : IsComplete commentTakes.options front) :
    items commentTakes.options (front ++ "--write".toList :: back) =
      items commentTakes.options front ++ .flag "write".toList :: items commentTakes.options back := by
  rw [items_append complete]
  exact congrArg _ (items_flag (by decide) isFlag_write_comment back)

theorem parse_comment_write
    (called : itemsToOperand programTakes.options start = (ahead, some ("comment".toList, front)))
    (complete : IsComplete commentTakes.options front)
    (prints : .flag "write".toList ∉ items commentTakes.options (front ++ back))
    (named : .operand path ∈ items commentTakes.options (front ++ back)) :
    (∃ stop, Invocation.parse (start ++ back) = .error stop ∧
        Invocation.parse (start ++ "--write".toList :: back) = .error stop) ∨
      ∃ config a, Invocation.parse (start ++ back) = .ok ⟨config, .comment a⟩ ∧
        Invocation.parse (start ++ "--write".toList :: back) =
          .ok ⟨config, .comment { a with write := true }⟩ ∧
        a.file = some path ∧ a.write = false := by
  rw [parse_of_comment (itemsToOperand_append_of_operand called back),
    parse_of_comment (itemsToOperand_append_of_operand called ("--write".toList :: back)),
    items_write complete]
  cases collect programTakes ⟨[], []⟩ ahead with
  | error stop => exact .inl ⟨stop, rfl, rfl⟩
  | ok shared =>
    have silent := prints
    rw [items_append complete] at silent
    have agree := collect_flag_inserted (g := ⟨[], []⟩) isBare_write_comment (by decide) rfl silent
    rw [← items_append complete] at agree
    generalize read : collect commentTakes ⟨[], []⟩ (items commentTakes.options (front ++ back)) =
      printing at agree ⊢
    generalize collect commentTakes ⟨[], []⟩ _ = writing at agree ⊢
    cases agree with
    | refused stop => exact .inl ⟨stop, rfl, rfl⟩
    | @given g g' more =>
      have free : g.value? "write" = none := lookup_of_collect isBare_write_comment prints read
      have config : g'.value? "config" = g.value? "config" := more.value? "config" (by decide)
      rcases commentArguments_withFlag more free (operands_eq_of_collect rfl named read) with
        ⟨stop, first, second⟩ | ⟨a, first, second, file, write⟩
      · refine .inl ⟨stop, ?_, ?_⟩
        · simp [bind, Except.bind, first]
        · simp [bind, Except.bind, second]
      · refine .inr ⟨g.value? "config" <|> shared.value? "config", a, ?_, ?_, file, write⟩
        · simp [bind, Except.bind, first, pure, Except.pure]
        · simp [bind, Except.bind, second, config, pure, Except.pure]

theorem stop_of_parse_comment {arguments rest : List Text} {stop : Stop}
    (called : itemsToOperand programTakes.options arguments = (ahead, some ("comment".toList, rest)))
    (plain : IsPlain (ahead ++ items commentTakes.options rest))
    (refused : Invocation.parse arguments = .error stop) : stop = .usage := by
  rw [parse_of_comment called] at refused
  cases first : collect programTakes ⟨[], []⟩ ahead with
  | error reason =>
    rw [first] at refused
    cases refused
    exact stop_of_collect (isPlain_append.1 plain).1 first
  | ok shared =>
    rw [first] at refused
    cases second : collect commentTakes ⟨[], []⟩ (items commentTakes.options rest) with
    | error reason =>
      rw [second] at refused
      cases refused
      exact stop_of_collect (isPlain_append.1 plain).2 second
    | ok g =>
      rw [second] at refused
      cases third : commentArguments g with
      | error reason =>
        simp only [bind, Except.bind, third] at refused
        cases refused
        exact commentArguments_eq_error third
      | ok a =>
        simp only [bind, Except.bind, third] at refused
        cases refused

/-- Documenting a file with and without writing it, for arguments that ask for no help and name the file.
The flag stands wherever an option may, behind the name of the command. No date has to be given, as both
runs see the same one. -/
theorem comment_writes_what_it_prints
    (called : itemsToOperand programTakes.options start = (ahead, some ("comment".toList, front)))
    (complete : IsComplete commentTakes.options front)
    (plain : IsPlain (ahead ++ items commentTakes.options (front ++ back)))
    (prints : .flag "write".toList ∉ items commentTakes.options (front ++ back))
    (named : .operand path ∈ items commentTakes.options (front ++ back)) :
    WritesPrinted limits w path (run w (start ++ back) limits)
      (run w (start ++ "--write".toList :: back) limits) := by
  rcases parse_comment_write called complete prints named with
    ⟨stop, printing, writing⟩ | ⟨config, a, printing, writing, file, write⟩
  · obtain rfl := stop_of_parse_comment (itemsToOperand_append_of_operand called back) plain printing
    simp only [run, printing, writing]
    exact .of_failed (Nat.succ_ne_zero 1) rfl rfl
  · simp only [run, printing, writing]
    cases loadSettings w config with
    | error failure => exact .of_failed Nat.one_ne_zero rfl rfl
    | ok settings => exact comment_writesPrinted file write

end

def oneMethod : World :=
  { input := .text []
    files :=
      [([.name "a.cls".toList], .text "void run(Id id) \x7b\n\x7d\n".toList),
        ([.name "b.cls".toList], .text "class B \x7b\n\x7d\n".toList)]
    folders := []
    today := ⟨2024, 1, 1, by decide⟩ }

def readOnly : Limits :=
  { unwritable := [([.name "a.cls".toList], .text "void run(Id id) \x7b\n\x7d\n".toList)] }

theorem comment_writes_what_it_prints_of_method :
    let back := ["--line".toList, "1".toList, "--date=2024-03-05".toList]
    let writing := run oneMethod (["comment".toList, "a.cls".toList] ++ "--write".toList :: back)
    let refused := run oneMethod (["comment".toList, "a.cls".toList] ++ "--write".toList :: back) readOnly
    let documented := "/**\n * @description add your description here\n *\n * @param id Id\n".toList ++
      " * @Date 5 March 2024\n * @return void\n */\nvoid run(Id id) \x7b\n\x7d\n".toList
    (run oneMethod (["comment".toList, "a.cls".toList] ++ back)).printed = documented ∧
      (writing.exit = 0 ∧ writing.printed = [] ∧
        oneMethod.Rewritten writing.world "a.cls".toList documented) ∧
      refused = .failed oneMethod (.unwritable "a.cls".toList) [] [] := by
  intro back writing refused documented
  have called : itemsToOperand programTakes.options ["comment".toList, "a.cls".toList] =
      ([], some ("comment".toList, ["a.cls".toList])) := rfl
  have agrees : ∀ limits, WritesPrinted limits oneMethod "a.cls".toList
      (run oneMethod (["comment".toList, "a.cls".toList] ++ back) limits)
      (run oneMethod (["comment".toList, "a.cls".toList] ++ "--write".toList :: back) limits) :=
    fun limits =>
      comment_writes_what_it_prints called (by decide) (by decide) (by decide) (by decide)
  have printed : (run oneMethod (["comment".toList, "a.cls".toList] ++ back)).printed = documented := by
    decide +kernel
  have written := (agrees {}).written (by decide +kernel) (by decide +kernel)
  rw [printed] at written
  obtain ⟨left, kept, stopped⟩ := (agrees readOnly).refused (by decide +kernel) (by decide +kernel)
  refine ⟨printed, written, stopped.trans ?_⟩
  have same : oneMethod.remnant? readOnly "a.cls".toList =
      some (.text "void run(Id id) \x7b\n\x7d\n".toList) := rfl
  obtain rfl := Option.some.inj (same.symm.trans kept)
  rfl

end Command

end ApexTidy
