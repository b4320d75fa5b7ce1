import Regen.Master
import Regen.Proofs.Failing

/-!
# Files under a write

A path is followed through directories only. A write puts a file where no directory stands, so it
changes no directory, and every path leads to the same place before and after
(`FileTree.Replaced.resolve_eq_ok_iff`). Hence what can be read afterwards is known: the bytes that
were written at the paths that lead to the file, and what was there before at all others.

An update looks at the file first and writes only if the bytes are others. Whether it writes or not,
the tree afterwards is the one with the file replaced (`FileTree.update_eq_ok`).
-/

namespace Regen.FileTree

variable {t u : FileTree} {p : Path} {place q : Place} {bytes : Text}

/-! ## Places and paths -/

/-- What stands where after an entry has been put at a place. -/
theorem lookup_set (t : FileTree) (hplace : place ≠ []) (entry : Entry) (q : Place) :
    entry? (t.set place entry) q = if q = place then some entry else t.entry? q := by
  have hfilter : ∀ es : List (Place × Entry), q ≠ place →
      (es.filter (·.1 != place)).lookup q = es.lookup q := by
    intro es hq
    induction es with
    | nil => rfl
    | cons e es ih =>
      by_cases he : e.1 = place
      · rw [List.filter_cons_of_neg (by simp [he]), ih, List.lookup_cons, he, beq_false_of_ne hq]
      · rw [List.filter_cons_of_pos (by simp [he]), List.lookup_cons, List.lookup_cons, ih]
  unfold entry? set
  by_cases hq : q = place
  · rw [if_neg (hq ▸ hplace), if_pos hq, List.lookup_cons, hq, beq_self_eq_true]
  · rw [if_neg hq, List.lookup_cons, beq_false_of_ne hq, hfilter _ hq]

/-- A step of a path is taken in a directory. -/
theorem walk_cons_eq_ok_iff {piece : String} {rest : List String} :
    t.walk place (piece :: rest) = .ok q ↔
      t.entry? place = some .directory ∧ t.walk (advance place piece) rest = .ok q := by
  rw [walk]
  split <;> simp_all

/-- **Paths are followed through directories only**: trees that have the same ones agree on where a
path leads. -/
theorem walk_eq_ok_iff_of_directories
    (h : ∀ place, u.entry? place = some .directory ↔ t.entry? place = some .directory)
    (pieces : List String) : u.walk place pieces = .ok q ↔ t.walk place pieces = .ok q := by
  induction pieces generalizing place with
  | nil => exact Iff.rfl
  | cons piece rest ih => rw [walk_cons_eq_ok_iff, walk_cons_eq_ok_iff, h, ih]

/-- A file is read if its path leads to one. -/
theorem readBytes_eq_ok_iff :
    t.readBytes p = .ok bytes ↔
      ∃ place, t.resolve p = .ok place ∧ t.entry? place = some (.file bytes) := by
  rw [readBytes, bind_eq_ok_iff]
  refine exists_congr fun place => and_congr_right fun _ => ?_
  split <;> simp_all [pure, Except.pure]

/-- A file is not found where a path leads to only if nothing is there. -/
theorem lookup_eq_none_of_readBytes (hp : t.resolve p = .ok place)
    (h : t.readBytes p = .error .notFound) : t.entry? place = none := by
  rw [readBytes, bind_eq_error_iff] at h
  rcases h with h | ⟨place', hp', h⟩
  · rw [hp] at h
    cases h
  · cases hp.symm.trans hp'
    split at h
    · cases h
    · cases h
    · assumption

/-- A text is read if a file is and its bytes form a text. -/
theorem readText_eq_ok_iff :
    t.readText p = .ok bytes ↔ t.readBytes p = .ok bytes ∧ bytes.isUTF8 = true := by
  rw [readText, bind_eq_ok_iff]
  constructor
  · rintro ⟨bytes', hread, h⟩
    split at h
    · cases h
      exact ⟨hread, ‹_›⟩
    · cases h
  · rintro ⟨hread, hutf8⟩
    exact ⟨bytes, hread, by rw [if_pos hutf8]; rfl⟩

/-- An entry is located if its path leads to one. -/
theorem locate_eq_ok_iff :
    t.locate p = .ok place ↔ t.resolve p = .ok place ∧ t.entry? place ≠ none := by
  rw [locate, bind_eq_ok_iff, ← Option.isSome_iff_ne_none]
  constructor
  · rintro ⟨place', hplace, h⟩
    split at h
    · cases h
      exact ⟨hplace, ‹_›⟩
    · cases h
  · rintro ⟨hplace, hsome⟩
    exact ⟨place, hplace, by rw [if_pos hsome]; rfl⟩

/-- **Two paths lead to the same entry** if they lead to the same place and something is there. -/
theorem same_iff {p' : Path} :
    t.same p p' = true ↔
      ∃ place, t.resolve p = .ok place ∧ t.resolve p' = .ok place ∧ t.entry? place ≠ none := by
  unfold same
  constructor
  · intro h
    split at h
    · rename_i place place' hplace hplace'
      obtain rfl : place = place' := of_decide_eq_true h
      obtain ⟨hplace, hsome⟩ := locate_eq_ok_iff.1 hplace
      exact ⟨place, hplace, (locate_eq_ok_iff.1 hplace').1, hsome⟩
    · cases h
  · rintro ⟨place, hplace, hplace', hsome⟩
    rw [locate_eq_ok_iff.2 ⟨hplace, hsome⟩, locate_eq_ok_iff.2 ⟨hplace', hsome⟩]
    exact decide_eq_true rfl

/-- A file is the same as itself. -/
theorem same_self (h : t.readBytes p = .ok bytes) : t.same p p = true := by
  obtain ⟨place, hplace, hentry⟩ := readBytes_eq_ok_iff.1 h
  exact same_iff.2 ⟨place, hplace, hplace, by rw [hentry]; exact Option.some_ne_none _⟩

/-! ## A file replaced -/

/-- **One file is replaced**: the place holds these bytes afterwards, no directory has given way to
them, and every other place is as it was. -/
structure Replaced (t u : FileTree) (place : Place) (bytes : Text) : Prop where
  /-- The file has the bytes. -/
  holds : u.entry? place = some (.file bytes)
  /-- Nothing else has changed. -/
  others : ∀ q, q ≠ place → u.entry? q = t.entry? q
  /-- Relative paths start where they did. -/
  here_eq : u.here = t.here
  /-- There was no directory at the place. -/
  not_directory : t.entry? place ≠ some .directory

namespace Replaced

/-- A tree that holds the file already is the one with the file replaced. -/
theorem refl (h : t.entry? place = some (.file bytes)) : Replaced t t place bytes where
  holds := h
  others _ _ := rfl
  here_eq := rfl
  not_directory := by rw [h]; simp

/-- Putting a file where no directory is replaces it. -/
theorem set (h : t.entry? place ≠ some .directory) :
    Replaced t (t.set place (.file bytes)) place bytes := by
  have hplace : place ≠ [] := by
    rintro rfl
    exact h rfl
  exact {
    holds := by rw [lookup_set t hplace, if_pos rfl]
    others := fun q hq => by rw [lookup_set t hplace, if_neg hq]
    here_eq := rfl
    not_directory := h }

/-- The directories are those of before. -/
theorem directory_iff (h : Replaced t u place bytes) (q : Place) :
    u.entry? q = some .directory ↔ t.entry? q = some .directory := by
  by_cases hq : q = place
  · subst hq
    rw [h.holds]
    simpa using h.not_directory
  · rw [h.others q hq]

/-- **Paths lead where they led before.** -/
theorem resolve_eq_ok_iff (h : Replaced t u place bytes) :
    u.resolve p = .ok q ↔ t.resolve p = .ok q := by
  unfold resolve start
  rw [h.here_eq]
  split
  · exact Iff.rfl
  · exact walk_eq_ok_iff_of_directories h.directory_iff _

/-- The file is read with its new bytes. -/
theorem readBytes_eq (h : Replaced t u place bytes) (hp : t.resolve p = .ok place) :
    u.readBytes p = .ok bytes :=
  readBytes_eq_ok_iff.2 ⟨place, h.resolve_eq_ok_iff.2 hp, h.holds⟩

/-- **Other files are read as before.** -/
theorem readBytes_eq_ok_iff_of_ne (h : Replaced t u place bytes) (hp : t.resolve p ≠ .ok place)
    {existing : Text} : u.readBytes p = .ok existing ↔ t.readBytes p = .ok existing := by
  rw [readBytes_eq_ok_iff, readBytes_eq_ok_iff]
  refine exists_congr fun q => ?_
  rw [h.resolve_eq_ok_iff]
  refine and_congr_right fun hq => ?_
  rw [h.others q (by rintro rfl; exact hp hq)]

end Replaced

/-! ## Writing -/

/-- Only empty pieces at the end are left out of a path. -/
theorem withoutSlashes_of_getLast? {pieces : List String} (h : pieces.getLast? ≠ some "") :
    withoutSlashes pieces = pieces := by
  unfold withoutSlashes
  rw [← List.head?_reverse] at h
  conv_rhs => rw [← List.reverse_reverse pieces]
  cases hpieces : pieces.reverse with
  | nil => rfl
  | cons piece rest =>
    rw [hpieces] at h
    rw [List.dropWhile_cons_of_neg (by simpa using h)]

/-- **A file is written where its path leads**, and not over a directory. -/
theorem target_eq_ok (h : t.target p = .ok place) :
    t.resolve p = .ok place ∧ t.entry? place ≠ some .directory := by
  unfold target at h
  by_cases hp : p = ""
  · rw [if_pos hp] at h
    cases h
  · rw [if_neg hp] at h
    obtain ⟨place', hwalk, h⟩ := bind_eq_ok_iff.1 h
    split at h
    · cases h
    · rename_i hno
      cases h
      obtain ⟨hlast, hdirectory⟩ : p.pieces.getLast? ≠ some "" ∧ t.entry? place ≠ some .directory := by
        simpa using hno
      rw [withoutSlashes_of_getLast? hlast] at hwalk
      exact ⟨by rw [resolve, if_neg hp]; exact hwalk, hdirectory⟩

/-- A write replaces the file that its path leads to. -/
theorem write_eq_ok (h : t.write p bytes = .ok u) :
    ∃ place, t.resolve p = .ok place ∧ Replaced t u place bytes := by
  obtain ⟨place, htarget, h⟩ := bind_eq_ok_iff.1 h
  cases h
  obtain ⟨hresolve, hdirectory⟩ := target_eq_ok htarget
  exact ⟨place, hresolve, .set hdirectory⟩

/-- **What the status tells**: the file holds the bytes, or other ones, or is not found. -/
theorem statusOf_eq_ok_iff {status : Status} :
    t.statusOf p bytes = .ok status ↔
      match status with
      | .unchanged => t.readBytes p = .ok bytes
      | .changed => ∃ existing, t.readBytes p = .ok existing ∧ existing ≠ bytes
      | .created => t.readBytes p = .error .notFound := by
  unfold statusOf
  split
  · rename_i existing hread
    rw [hread]
    by_cases hsame : existing = bytes
    · cases status <;> simp [hsame]
    · cases status <;> simp [hsame]
  · rename_i hread
    rw [hread]
    cases status <;> simp
  · rename_i e hne hread
    rw [hread]
    cases status <;> simp_all

/-- **An update** has the status that is told beforehand and writes unless that is that nothing
changes. -/
theorem update_eq_ok_iff {status : Status} :
    t.update p bytes = .ok (status, u) ↔
      t.statusOf p bytes = .ok status ∧
        if status = .unchanged then u = t else t.write p bytes = .ok u := by
  rw [update, bind_eq_ok_iff]
  have hwrite (known : Status) :
      (do return (known, ← t.write p bytes) : Except FileError _) = .ok (status, u) ↔
        known = status ∧ t.write p bytes = .ok u := by
    rw [bind_eq_ok_iff]
    constructor
    · rintro ⟨_, hwrite, ⟨⟩⟩
      exact ⟨rfl, hwrite⟩
    · rintro ⟨rfl, hwrite⟩
      exact ⟨u, hwrite, rfl⟩
  constructor
  · rintro ⟨known, hknown, h⟩
    cases known with
    | unchanged =>
      cases h
      exact ⟨hknown, rfl⟩
    | created | changed =>
      obtain ⟨rfl, hwritten⟩ := (hwrite _).1 h
      exact ⟨hknown, hwritten⟩
  · rintro ⟨hstatus, h⟩
    refine ⟨status, hstatus, ?_⟩
    cases status with
    | unchanged =>
      cases h
      rfl
    | created | changed => exact (hwrite _).2 ⟨rfl, h⟩

/-- **An update replaces the file that its path leads to**, and its status tells what was there. -/
theorem update_eq_ok {status : Status} (h : t.update p bytes = .ok (status, u)) :
    ∃ place, t.resolve p = .ok place ∧ Replaced t u place bytes ∧
      (status = .unchanged ↔ t.entry? place = some (.file bytes)) ∧
      (status = .created ↔ t.entry? place = none) ∧
      (status = .changed ↔
        ∃ existing, t.entry? place = some (.file existing) ∧ existing ≠ bytes) := by
  obtain ⟨hstatus, hwrite⟩ := update_eq_ok_iff.1 h
  have hstatus := statusOf_eq_ok_iff.1 hstatus
  cases status with
  | unchanged =>
    obtain ⟨place, hplace, hentry⟩ := readBytes_eq_ok_iff.1 hstatus
    obtain rfl : u = t := hwrite
    exact ⟨place, hplace, .refl hentry, by simp [hentry]⟩
  | changed =>
    obtain ⟨existing, hread, hne⟩ := hstatus
    obtain ⟨place, hplace, hentry⟩ := readBytes_eq_ok_iff.1 hread
    obtain ⟨place', hplace', hreplaced⟩ := write_eq_ok hwrite
    cases hplace.symm.trans hplace'
    exact ⟨place, hplace, hreplaced, by simpa [hentry] using hne⟩
  | created =>
    obtain ⟨place, hplace, hreplaced⟩ := write_eq_ok hwrite
    have hentry := lookup_eq_none_of_readBytes hplace hstatus
    exact ⟨place, hplace, hreplaced, by simp [hentry]⟩

end Regen.FileTree
