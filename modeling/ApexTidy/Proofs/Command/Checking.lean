import ApexTidy.Proofs.Command.Exchange
import ApexTidy.Proofs.Command.Writing
import Mathlib

/-!
A check tells what writing would change. It prints the files that a run with the same arguments writes
anew, and it finds nothing to print once they are written.
-/

namespace ApexTidy.Command

open Text

/-- The files that operands name, in the order in which they are laid out. -/
def named (limits : Limits) (w : World) (operands : List Text) : List Text :=
  match ((limits.listing w).expandAll operands).2 with
  | .ok paths => Path.sorted paths
  | .error _ => []

theorem listing_congr {w w' : World} (same : w'.listing = w.listing) (limits : Limits) :
    limits.listing w' = limits.listing w := by
  rw [Limits.listing, Limits.listing, same]

theorem named_congr {w w' : World} (same : w'.listing = w.listing) (limits : Limits)
    (operands : List Text) : named limits w' operands = named limits w operands := by
  rw [named, named, listing_congr same]

theorem loadSettings_congr {w w' : World} {config : Option Text} (listed : w'.listing = w.listing)
    (kept : w'.read? (config.getD standardSettings) = w.read? (config.getD standardSettings)) :
    loadSettings w' config = loadSettings w config := by
  cases config with
  | some path =>
    rw [Option.getD_some] at kept
    simp only [loadSettings, Option.orElse_eq_orElse, Option.orElse_some, kept]
  | none =>
    rw [Option.getD_none] at kept
    simp only [loadSettings, listed]
    by_cases found : w.listing.hasFile standardSettings = true
    · simp [found, kept]
    · simp [found]

theorem run_of_parse {w : World} {arguments : List Text} {config : Option Text} {a : FormatArguments}
    {settings : Settings} (parsed : Invocation.parse arguments = .ok ⟨config, .format a⟩)
    (loaded : loadSettings w config = .ok settings) (limits : Limits) :
    run w arguments limits = format limits w settings a := by
  simp only [run, parsed, loaded]

theorem exists_settings {w : World} {arguments : List Text} {limits : Limits} {config : Option Text}
    {a : FormatArguments} (parsed : Invocation.parse arguments = .ok ⟨config, .format a⟩)
    (ended : (run w arguments limits).exit = 0) :
    ∃ settings, loadSettings w config = .ok settings := by
  cases loaded : loadSettings w config with
  | error failure =>
    simp only [run, parsed, loaded] at ended
    cases ended
  | ok settings => exact ⟨settings, rfl⟩

section

variable {limits : Limits} {w : World} {settings : Settings} {unit : IndentUnit} {a : FormatArguments}
variable {paths : List Text}

def unmatchedIn (limits : Limits) (w : World) (operands : List Text) : List Warning :=
  ((limits.listing w).expandAll operands).1.map .unmatched

theorem named_eq (expanded : ((limits.listing w).expandAll a.files).2 = .ok paths) :
    named limits w a.files = Path.sorted paths := by
  rw [named, expanded]

theorem format_eq (united : formatUnit a settings = .ok unit) (given : a.files ≠ [])
    (expanded : ((limits.listing w).expandAll a.files).2 = .ok paths)
    (done : (formatPaths limits unit a.mode w (named limits w a.files)).failure = none) :
    format limits w settings a =
      ⟨if (formatPaths limits unit a.mode w (named limits w a.files)).differs then 1 else 0,
        (formatPaths limits unit a.mode w (named limits w a.files)).printed, none, unmatchedIn limits w a.files,
        (formatPaths limits unit a.mode w (named limits w a.files)).world⟩ := by
  rw [named_eq expanded] at done ⊢
  simp only [format, united, given, if_false, formatFiles, expanded, done, unmatchedIn]

theorem format_write_inv (writes : a.mode = .write) (written : (format limits w settings a).exit = 0) :
    ∃ unit paths, formatUnit a settings = .ok unit ∧ a.files ≠ [] ∧
      ((limits.listing w).expandAll a.files).2 = .ok paths ∧
      (format limits w settings a).warnings = unmatchedIn limits w a.files ∧
      Wrote unit w (named limits w a.files) (format limits w settings a).world := by
  have ended := written
  unfold format at ended
  split at ended
  · cases ended
  rename_i unit united
  split at ended
  · rw [formatInput, if_pos writes] at ended
    cases ended
  rename_i given
  unfold formatFiles at ended
  simp only at ended
  split at ended
  · cases ended
  rename_i paths expanded
  split at ended
  · cases ended
  rename_i done
  rw [← named_eq expanded] at done
  have outcome := format_eq united given expanded done
  rw [writes] at outcome done
  refine ⟨unit, paths, united, given, expanded, ?_, ?_⟩
  · rw [outcome]
  · rw [outcome]
    exact wrote_formatPaths done

theorem format_check (checks : a.mode = .check) (united : formatUnit a settings = .ok unit)
    (given : a.files ≠ []) (expanded : ((limits.listing w).expandAll a.files).2 = .ok paths)
    (readable : ∀ path ∈ named limits w a.files, (w.read? path).isSome = true) :
    format limits w settings a =
      ⟨if outOfForm unit w (named limits w a.files) = [] then 0 else 1,
        lines (outOfForm unit w (named limits w a.files)), none, unmatchedIn limits w a.files, w⟩ := by
  have checked := formatPaths_check limits unit readable
  rw [format_eq united given expanded (by rw [checks, checked]), checks, checked]
  by_cases clean : outOfForm unit w (named limits w a.files) = []
  · simp [clean]
  · simp [clean]

end

/-- Where a run that writes ends well, a check with the same arguments prints the files that it changes and
fails if there are any. Afterwards the check passes. The settings are taken not to be among the files. -/
theorem check_agrees_with_write {w : World} {limits : Limits} {front back : List Text}
    {config : Option Text} {a : FormatArguments} (before : endOfOptions ∉ front)
    (parsed : Invocation.parse (front ++ "--write".toList :: back) = .ok ⟨config, .format a⟩)
    (written : (run w (front ++ "--write".toList :: back) limits).exit = 0)
    (apart : ∀ path ∈ named limits w a.files,
      w.listing.place? path ≠ w.listing.place? (config.getD standardSettings)) :
    let writing := run w (front ++ "--write".toList :: back) limits
    let changed := changed w writing.world (named limits w a.files)
    run w (front ++ "--check".toList :: back) limits =
        ⟨if changed = [] then 0 else 1, lines changed, none, writing.warnings, w⟩ ∧
      run writing.world (front ++ "--check".toList :: back) limits =
        ⟨0, [], none, writing.warnings, writing.world⟩ := by
  obtain ⟨writes, checks⟩ := parse_check_of_write before parsed
  obtain ⟨settings, loaded⟩ := exists_settings parsed written
  have writing := run_of_parse parsed loaded limits
  rw [writing] at written
  obtain ⟨unit, paths, united, given, expanded, warned, wrote⟩ := format_write_inv writes written
  have untouched : ¬Reaches w (named limits w a.files) (config.getD standardSettings) := by
    rintro ⟨path, member, same⟩
    exact apart path member same
  have kept : loadSettings (format limits w settings a).world config = .ok settings := by
    rw [← loaded]
    exact loadSettings_congr wrote.listing (by rw [wrote.read, if_neg untouched])
  simp only
  rw [writing, run_of_parse checks loaded limits, run_of_parse checks kept limits, warned, wrote.changed_eq]
  constructor
  · exact format_check (a := { a with mode := .check }) rfl united given expanded wrote.readable
  · have listed := named_congr wrote.listing limits a.files
    obtain ⟨readable, settled⟩ := wrote.settled
    have second := format_check (w := (format limits w settings a).world) (a := { a with mode := .check })
      rfl united given (listing_congr wrote.listing limits ▸ expanded) (by rw [listed]; exact readable)
    rw [listed, settled, unmatchedIn, listing_congr wrote.listing] at second
    exact second

/-- A file in form and one out of form. -/
def twoFiles : World :=
  { input := .text []
    files :=
      [([.name "a.cls".toList], .text "class A \x7b\n\x7d\n".toList),
        ([.name "b.cls".toList], .text "class B \x7b\nint b;\n\x7d\n".toList)]
    folders := []
    today := ⟨2024, 3, 5, by decide⟩ }

def spelledTwice : List Text :=
  ["--indent-size".toList, "2".toList, "./b.cls".toList, "b.cls".toList, "a.cls".toList]

theorem check_agrees_with_write_spelled_twice :
    let writing := run twoFiles (["format".toList] ++ "--write".toList :: spelledTwice)
    run twoFiles (["format".toList] ++ "--check".toList :: spelledTwice) =
        ⟨1, "./b.cls\nb.cls\n".toList, none, [], twoFiles⟩ ∧
      run writing.world (["format".toList] ++ "--check".toList :: spelledTwice) =
        ⟨0, [], none, [], writing.world⟩ := by
  have parsed : Invocation.parse (["format".toList] ++ "--write".toList :: spelledTwice) =
      .ok ⟨none, .format ⟨["./b.cls".toList, "b.cls".toList, "a.cls".toList], .write, some 2, false⟩⟩ := rfl
  have absent : twoFiles.listing.hasFile standardSettings = false := by cbv
  have loaded : loadSettings twoFiles none = .ok .standard := by simp [loadSettings, absent]
  have writing : run twoFiles (["format".toList] ++ "--write".toList :: spelledTwice) =
      format {} twoFiles .standard
        ⟨["./b.cls".toList, "b.cls".toList, "a.cls".toList], .write, some 2, false⟩ :=
    run_of_parse parsed loaded {}
  have listed : named {} twoFiles ["./b.cls".toList, "b.cls".toList, "a.cls".toList] =
      ["./b.cls".toList, "a.cls".toList, "b.cls".toList] := by cbv
  have apart : ∀ path ∈ named {} twoFiles ["./b.cls".toList, "b.cls".toList, "a.cls".toList],
      twoFiles.listing.place? path ≠ twoFiles.listing.place? standardSettings := by
    rw [listed]
    decide
  have agrees := check_agrees_with_write (by decide) parsed (by rw [writing]; cbv) apart
  have found : changed twoFiles (run twoFiles (["format".toList] ++ "--write".toList :: spelledTwice)).world
      (named {} twoFiles ["./b.cls".toList, "b.cls".toList, "a.cls".toList]) =
        ["./b.cls".toList, "b.cls".toList] := by
    rw [writing, listed]
    cbv
  have warned : (run twoFiles (["format".toList] ++ "--write".toList :: spelledTwice)).warnings = [] := by
    rw [writing]
    cbv
  simp only [found, warned] at agrees
  exact agrees

end ApexTidy.Command
