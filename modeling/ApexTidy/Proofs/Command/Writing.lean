import ApexTidy.Command.Run
import ApexTidy.Proofs.Indent.Layout

/-!
What a run that writes leaves behind. Writing a file changes no path: the same files are there, and only
the paths that lead to the written file read anything new. So a file that is named twice is laid out
twice, and as a second layout changes nothing, each file that was named holds its layout in the end.
-/

namespace ApexTidy

open Text

namespace World

theorem lookup_map_snd {place : Place} {files : List (Place × Content)} (f : Place → Content → Content) :
    (files.map fun file => (file.1, f file.1 file.2)).lookup place =
      (files.lookup place).map (f place) := by
  induction files with
  | nil => rfl
  | cons file rest ih =>
    obtain ⟨other, content⟩ := file
    rw [List.map_cons, List.lookup_cons, List.lookup_cons]
    by_cases same : place = other
    · subst same
      simp
    · simp only [beq_eq_false_iff_ne.2 same]
      exact ih

@[simp] theorem listing_put (w : World) (path : Text) (content : Content) :
    (w.put path content).listing = w.listing := by
  unfold put
  split
  · simp [listing, List.map_map, Function.comp_def]
  · rfl

theorem lookup_put (w : World) (path : Text) (content : Content) (place : Place) :
    (w.put path content).files.lookup place =
      if w.listing.place? path = some place then (w.files.lookup place).map fun _ => content
      else w.files.lookup place := by
  unfold put
  split
  · rename_i written leads
    simp only [leads]
    rw [lookup_map_snd fun other held => if other = written then content else held]
    by_cases same : place = written
    · simp [same]
    · simp [same, Ne.symm same]
  · rename_i absent
    simp [absent]

theorem exists_lookup_of_read? {w : World} {path text : Text} (held : w.read? path = some text) :
    ∃ place content, w.listing.place? path = some place ∧ w.files.lookup place = some content ∧
      content.text? = some text := by
  unfold read? at held
  split at held
  · rename_i place leads
    obtain ⟨content, found, shown⟩ := Option.bind_eq_some_iff.1 held
    exact ⟨place, content, leads, found, shown⟩
  · cases held

theorem read?_congr {w : World} {p q : Text} (same : w.listing.place? p = w.listing.place? q) :
    w.read? p = w.read? q := by
  rw [read?, read?, same]

/-- A file that is changed is read back by every path that leads to it, and all other paths read what they
did. -/
theorem read?_put {w : World} {path old : Text} (held : w.read? path = some old) (content : Content)
    (other : Text) :
    (w.put path content).read? other =
      if w.listing.place? path = w.listing.place? other then content.text? else w.read? other := by
  obtain ⟨place, before, leads, found, -⟩ := exists_lookup_of_read? held
  rw [read?, listing_put, read?, leads]
  cases w.listing.place? other with
  | none => simp
  | some otherPlace =>
    simp only [lookup_put, leads]
    by_cases same : place = otherPlace
    · subst same
      simp [found]
    · simp [same]

theorem write_of_writable {w : World} {limits : Limits} {path : Text}
    (writable : w.remnant? limits path = none) (text : Text) :
    w.write limits path text = .ok (w.put path (.text text)) := by
  rw [write, writable]

theorem write_of_unwritable {w : World} {limits : Limits} {path : Text} {left : Content}
    (refused : w.remnant? limits path = some left) (text : Text) :
    w.write limits path text = .error (w.put path left) := by
  rw [write, refused]

end World

namespace Command

def layOut (w : World) (unit : IndentUnit) (path text : Text) : World :=
  if text.layout unit = text then w else w.put path (.text (text.layout unit))

def Reaches (w : World) (paths : List Text) (path : Text) : Prop :=
  ∃ other ∈ paths, w.listing.place? other = w.listing.place? path

instance (w : World) (paths : List Text) (path : Text) : Decidable (Reaches w paths path) :=
  inferInstanceAs (Decidable (∃ other ∈ paths, _))

@[simp] theorem listing_layOut (w : World) (unit : IndentUnit) (path text : Text) :
    (layOut w unit path text).listing = w.listing := by
  unfold layOut
  split
  · rfl
  · exact w.listing_put path _

theorem read?_layOut {w : World} {path text : Text} (held : w.read? path = some text)
    (unit : IndentUnit) (other : Text) :
    (layOut w unit path text).read? other =
      if w.listing.place? path = w.listing.place? other then (w.read? other).map (·.layout unit)
      else w.read? other := by
  have read : w.listing.place? path = w.listing.place? other → w.read? other = some text :=
    fun same => (World.read?_congr same).symm.trans held
  unfold layOut
  split
  · rename_i done
    split
    · rename_i same
      rw [read same, Option.map_some, done]
    · rfl
  · rw [World.read?_put held]
    split
    · rename_i same
      rw [read same, Option.map_some]
      rfl
    · rfl

section

variable {limits : Limits} {unit : IndentUnit} {mode : FormatMode} {w : World} {path text : Text}
variable {rest : List Text}

theorem formatPaths_of_unreadable (unread : w.read? path = none) :
    formatPaths limits unit mode w (path :: rest) = ⟨[], false, some (.unreadable path), w⟩ := by
  rw [formatPaths, unread]

/-- A run that writes goes on with the next file, unless this one is out of form and cannot be written. -/
theorem formatPaths_write_cases (held : w.read? path = some text) :
    formatPaths limits unit .write w (path :: rest) =
        formatPaths limits unit .write (layOut w unit path text) rest ∨
      ∃ left, w.remnant? limits path = some left ∧
        formatPaths limits unit .write w (path :: rest) =
          ⟨[], false, some (.unwritable path), w.put path left⟩ := by
  rw [formatPaths, held]
  simp only [layOut]
  by_cases done : text.layout unit = text
  · rw [if_pos done, if_pos done]
    exact .inl rfl
  rw [if_neg done, if_neg done]
  cases kept : w.remnant? limits path with
  | none =>
    rw [World.write_of_writable kept]
    exact .inl rfl
  | some left =>
    rw [World.write_of_unwritable kept]
    exact .inr ⟨left, rfl, rfl⟩

theorem formatPaths_check_cons (held : w.read? path = some text) :
    formatPaths limits unit .check w (path :: rest) =
      if text.layout unit = text then formatPaths limits unit .check w rest
      else { formatPaths limits unit .check w rest with
        printed := path ++ '\n' :: (formatPaths limits unit .check w rest).printed, differs := true } := by
  rw [formatPaths, held]

end

/-- What a run has done that wrote all its files. -/
structure Wrote (unit : IndentUnit) (w : World) (paths : List Text) (after : World) : Prop where
  listing : after.listing = w.listing
  readable : ∀ path ∈ paths, (w.read? path).isSome = true
  read : ∀ path, after.read? path =
    if Reaches w paths path then (w.read? path).map (·.layout unit) else w.read? path

theorem Wrote.nil (unit : IndentUnit) (w : World) : Wrote unit w [] w := by
  refine ⟨rfl, by simp, fun path => ?_⟩
  rw [if_neg (by simp [Reaches])]

/-- A layout of what was laid out before is the layout of what there was at first. -/
theorem Wrote.cons {unit : IndentUnit} {w after : World} {path text : Text} {rest : List Text}
    (held : w.read? path = some text) (wrote : Wrote unit (layOut w unit path text) rest after) :
    Wrote unit w (path :: rest) after := by
  have reads := read?_layOut held unit
  obtain ⟨listing, readable, read⟩ := wrote
  rw [listing_layOut] at listing
  have later : ∀ other, Reaches (layOut w unit path text) rest other ↔ Reaches w rest other := by
    intro other
    rw [Reaches, Reaches, listing_layOut]
  have split : ∀ other, Reaches w (path :: rest) other ↔
      w.listing.place? path = w.listing.place? other ∨ Reaches w rest other := by
    intro other
    simp [Reaches]
  refine ⟨listing, ?_, ?_⟩
  · intro other member
    rcases List.mem_cons.1 member with rfl | listed
    · rw [held]
      rfl
    · have found := readable other listed
      rw [reads] at found
      split at found
      · simpa using found
      · exact found
  · intro other
    simp only [read, reads, later, split]
    by_cases same : w.listing.place? path = w.listing.place? other
    · simp only [same, if_true, true_or]
      by_cases again : Reaches w rest other
      · rw [if_pos again, Option.map_map]
        congr 1
        funext t
        exact (layout_absorbs t unit unit).1
      · rw [if_neg again]
    · simp only [same, if_false, false_or]

theorem wrote_formatPaths {limits : Limits} {unit : IndentUnit} {w : World} {paths : List Text}
    (done : (formatPaths limits unit .write w paths).failure = none) :
    Wrote unit w paths (formatPaths limits unit .write w paths).world := by
  induction paths generalizing w with
  | nil => exact .nil unit w
  | cons path rest ih =>
    cases held : w.read? path with
    | none =>
      rw [formatPaths_of_unreadable held] at done
      cases done
    | some text =>
      rcases formatPaths_write_cases held with next | ⟨left, -, stopped⟩
      · rw [next] at done ⊢
        exact .cons held (ih done)
      · rw [stopped] at done
        cases done

def outOfForm (unit : IndentUnit) (w : World) (paths : List Text) : List Text :=
  paths.filter fun path => (w.read? path).map (·.layout unit) != w.read? path

theorem outOfForm_cons {unit : IndentUnit} {w : World} {path text : Text} (held : w.read? path = some text)
    (rest : List Text) :
    outOfForm unit w (path :: rest) =
      if text.layout unit = text then outOfForm unit w rest else path :: outOfForm unit w rest := by
  rw [outOfForm, List.filter_cons, held]
  by_cases done : text.layout unit = text
  · simp [done, outOfForm]
  · simp [done, outOfForm]

def lines (paths : List Text) : Text := paths.flatMap (· ++ ['\n'])

theorem formatPaths_check (limits : Limits) (unit : IndentUnit) {w : World} {paths : List Text}
    (readable : ∀ path ∈ paths, (w.read? path).isSome = true) :
    formatPaths limits unit .check w paths =
      ⟨lines (outOfForm unit w paths), !(outOfForm unit w paths).isEmpty, none, w⟩ := by
  induction paths with
  | nil => rfl
  | cons path rest ih =>
    obtain ⟨text, held⟩ := Option.isSome_iff_exists.1 (readable path List.mem_cons_self)
    have later := ih fun other member => readable other (List.mem_cons_of_mem _ member)
    rw [formatPaths_check_cons held, later, outOfForm_cons held]
    by_cases done : text.layout unit = text
    · rw [if_pos done, if_pos done]
    · rw [if_neg done, if_neg done]
      simp [lines]

def changed (w after : World) (paths : List Text) : List Text :=
  paths.filter fun path => after.read? path ≠ w.read? path

section

variable {unit : IndentUnit} {w after : World} {paths : List Text}

theorem Wrote.read_of_mem (wrote : Wrote unit w paths after) {path : Text} (member : path ∈ paths) :
    after.read? path = (w.read? path).map (·.layout unit) := by
  rw [wrote.read, if_pos ⟨path, member, rfl⟩]

theorem Wrote.changed_eq (wrote : Wrote unit w paths after) :
    changed w after paths = outOfForm unit w paths := by
  refine List.filter_congr fun path member => ?_
  rw [wrote.read_of_mem member]
  by_cases same : (w.read? path).map (·.layout unit) = w.read? path
  · simp [same]
  · simp [same]

theorem Wrote.settled (wrote : Wrote unit w paths after) :
    (∀ path ∈ paths, (after.read? path).isSome = true) ∧ outOfForm unit after paths = [] := by
  constructor
  · intro path member
    rw [wrote.read_of_mem member, Option.isSome_map]
    exact wrote.readable path member
  · refine List.filter_eq_nil_iff.2 fun path member => ?_
    obtain ⟨text, held⟩ := Option.isSome_iff_exists.1 (wrote.readable path member)
    rw [wrote.read_of_mem member, held, Option.map_some, Option.map_some, (layout_absorbs text unit unit).1]
    simp

end

end Command

end ApexTidy
