import LoopTable.Storage.FileTree

/-!
# Writing files in a tree

A file that is made changes what stands at its own place and nothing else, and it is never made in
the place of a directory. So every path that leads somewhere still leads there
(`FileTree.SameDirectories.locate_eq`), and a file can be made wherever it could before
(`FileTree.SameDirectories.placeFor_eq`).

* `FileTree.placeFor_eq_ok_iff` says at which paths a file can be made.
* `FileTree.written_set` is what making it does: it can be read back at the same path, and all other
  places are as they were.
-/

namespace LoopTable

/-- A computation in two parts goes well only if both do. -/
theorem exists_of_bind_eq_ok {ε α β : Type} {x : Except ε α} {f : α → Except ε β} {b : β}
    (h : x >>= f = .ok b) : ∃ a, x = .ok a ∧ f a = .ok b := by
  cases x with
  | error e => cases h
  | ok a => exact ⟨a, rfl, h⟩

/-! ## Paths of files -/

namespace Path

variable {names : List String}

/-- Names without an empty one at their end are left alone. -/
theorem eq_of_trimEnd (h : (trimEnd names).2 = false) : (trimEnd names).1 = names := by
  have hlength : (trimEnd names).1.length = names.length := by simpa [trimEnd] using h
  have hprefix : (trimEnd names).1 <+: names := by
    have hsuffix := (List.dropWhile_suffix (l := names.reverse) (·.isEmpty)).reverse
    rwa [List.reverse_reverse] at hsuffix
  exact hprefix.eq_of_length hlength

/-- The last name that is left is not empty. -/
theorem getLast?_trimEnd_ne {last : String} (h : (trimEnd names).1.getLast? = some last) :
    last ≠ "" := by
  rw [trimEnd, List.getLast?_reverse] at h
  have hfirst := List.head?_dropWhile_not (·.isEmpty) names.reverse
  rw [h] at hfirst
  rintro rfl
  cases hfirst

/-- Names that end in one that is not empty are left as they are. -/
theorem trimEnd_concat {last : String} (h : last ≠ "") (parents : List String) :
    trimEnd (parents ++ [last]) = (parents ++ [last], false) := by
  simp [trimEnd, h]

end Path

namespace FileTree

variable {tree tree' : FileTree} {place other : Place} {path : String}

/-! ## Changing one place -/

theorem entry?_set_of_ne (h : other ≠ place) (tree : FileTree) (entry : Entry) :
    entry? (tree.set place entry) other = tree.entry? other := by
  have hplace : (place == other) = false := beq_eq_false_iff_ne.2 h.symm
  have hfind : (tree.entries.filter (·.1 != place)).find? (·.1 == other) =
      tree.entries.find? (·.1 == other) := by
    rw [List.find?_filter]
    refine congrArg (List.find? · tree.entries) (funext fun e => ?_)
    by_cases he : e.1 = other
    · simp [he, h]
    · simp [he]
  simp only [ entry?, set, List.find?_cons, hplace, hfind]

theorem entry?_set_self (h : tree.entry? place ≠ some .directory) (entry : Entry) :
    entry? (tree.set place entry) place = some entry := by
  rw [ entry?] at h
  split at h
  · exact absurd rfl h
  · next hhome => simp [ entry?, set, hhome]

/-- Two trees with the same working directory and the same directories. -/
structure SameDirectories (tree tree' : FileTree) : Prop where
  home_eq : tree'.home = tree.home
  directory_iff : ∀ place, tree'.entry? place = some .directory ↔
    tree.entry? place = some .directory

/-- A file in the place of no directory leaves all directories alone. -/
theorem sameDirectories_set (h : tree.entry? place ≠ some .directory) (content : Bytes) :
    tree.SameDirectories (tree.set place (.file content)) := by
  refine ⟨rfl, fun other => ?_⟩
  by_cases hother : other = place
  · subst hother
    rw [ entry?_set_self h]
    exact ⟨fun hfile => (by cases hfile), fun hdirectory => absurd hdirectory h⟩
  · rw [ entry?_set_of_ne hother]

/-! ## Following paths -/

/-- A step that can be taken starts in a directory, and then only the name counts. -/
theorem enter_eq_ok_iff {name : String} :
    tree.enter place name = .ok other ↔ tree.entry? place = some .directory ∧
      ((name = "" ∨ name = ".") ∧ other = place ∨
        ¬ (name = "" ∨ name = ".") ∧ name = ".." ∧ other = place.dropLast ∨
        ¬ (name = "" ∨ name = ".") ∧ name ≠ ".." ∧ name.utf8ByteSize ≤ Path.maxName ∧
          other = place ++ [name]) := by
  unfold enter
  split <;> grind

namespace SameDirectories

theorem enter_eq (h : tree.SameDirectories tree') {name : String}
    (henter : tree.enter place name = .ok other) : tree'.enter place name = .ok other := by
  rw [enter_eq_ok_iff] at henter ⊢
  exact ⟨(h.directory_iff place).2 henter.1, henter.2⟩

theorem start_eq (h : tree.SameDirectories tree') (names : List String) :
    tree'.start names = tree.start names := by
  simp only [start, h.home_eq]

theorem foldlM_enter_eq (h : tree.SameDirectories tree') {names : List String}
    (hfold : names.foldlM tree.enter place = .ok other) :
    names.foldlM tree'.enter place = .ok other := by
  induction names generalizing place with
  | nil => exact hfold
  | cons name names ih =>
    rw [List.foldlM_cons] at hfold ⊢
    obtain ⟨next, henter, hrest⟩ := exists_of_bind_eq_ok hfold
    rw [h.enter_eq henter]
    exact ih hrest

/-- A path that leads to a place leads there in every tree with the same directories. -/
theorem locate_eq (h : tree.SameDirectories tree') {names : List String}
    (hlocate : tree.locate names = .ok place) : tree'.locate names = .ok place := by
  rw [locate, h.start_eq]
  exact h.foldlM_enter_eq hlocate

end SameDirectories

/-! ## Places for files -/

/-- The names of a path at which a file can be made: they lead to the last one from a directory, and
what stands at the end is not a directory. -/
structure LeadsToFile (tree : FileTree) (names : List String) (place : Place) : Prop where
  /-- The last name is one that a file can have. -/
  last_ne : ∃ parents last, names = parents ++ [last] ∧ last ≠ "" ∧ last ≠ "." ∧ last ≠ ".."
  /-- The names lead to the place. -/
  locate_eq : tree.locate names = .ok place
  /-- There is no directory. -/
  free : tree.entry? place ≠ some .directory

/-- The last of some names is one more step, if it is not empty. -/
theorem locate_concat {last : String} (h : last ≠ "") (tree : FileTree) (parents : List String) :
    tree.locate (parents ++ [last]) =
      tree.locate parents >>= fun parent => tree.enter parent last := by
  have hstart : tree.start (parents ++ [last]) = tree.start parents := by
    cases parents with
    | nil => simp [start, h]
    | cons name parents => simp [start]
  rw [locate, locate, hstart, List.foldlM_append]
  simp

/-- What is done once the names are known. -/
theorem placeFor_of_names {names : List String} (hnames : Path.names path = .ok names) :
    tree.placeFor path =
      match (Path.trimEnd names).1.getLast? with
      | none => .error .isDirectory
      | some last => do
        let parent ← tree.locate (Path.trimEnd names).1.dropLast
        let _ ← tree.enter parent "."
        if (Path.trimEnd names).2 = true ∨ last = "." ∨ last = ".." then
          throw .isDirectory
        let place ← tree.enter parent last
        match tree.entry? place with
        | some .directory => throw .isDirectory
        | _ => return place := by
  unfold placeFor
  rw [hnames]
  rfl

/-- A file can be made at a path exactly if its names lead to a place for a file. -/
theorem placeFor_eq_ok_iff : tree.placeFor path = .ok place ↔
    ∃ names, Path.names path = .ok names ∧ tree.LeadsToFile names place := by
  constructor
  · intro h
    obtain ⟨names, hnames, -⟩ := exists_of_bind_eq_ok h
    refine ⟨names, hnames, ?_⟩
    rw [placeFor_of_names hnames] at h
    cases hlast : (Path.trimEnd names).1.getLast? with
    | none =>
      rw [hlast] at h
      cases h
    | some last =>
      simp only [hlast] at h
      obtain ⟨parent, hparent, hentered⟩ := exists_of_bind_eq_ok h
      obtain ⟨-, -, hchecked⟩ := exists_of_bind_eq_ok hentered
      by_cases hkind : (Path.trimEnd names).2 = true ∨ last = "." ∨ last = ".."
      · simp only [if_pos hkind] at hchecked
        cases hchecked
      · simp only [if_neg hkind] at hchecked
        obtain ⟨place', hplace, hfound⟩ := exists_of_bind_eq_ok hchecked
        obtain ⟨hslash, hdot, hdots⟩ := by simpa only [not_or] using hkind
        have hne := Path.getLast?_trimEnd_ne hlast
        -- a slash at the end has been refused, so these are all names of the path
        rw [Path.eq_of_trimEnd (Bool.eq_false_iff.2 hslash)] at hlast hparent
        obtain ⟨parents, rfl⟩ := List.getLast?_eq_some_iff.1 hlast
        rw [List.dropLast_concat] at hparent
        split at hfound
        · cases hfound
        · next hfree =>
          obtain rfl := Except.ok.inj hfound
          refine ⟨⟨parents, last, rfl, hne, hdot, hdots⟩, ?_, hfree⟩
          rw [locate_concat hne, hparent]
          exact hplace
  · rintro ⟨names, hnames, ⟨parents, last, rfl, hne, hdot, hdots⟩, hlocate, hfree⟩
    rw [locate_concat hne] at hlocate
    obtain ⟨parent, hparent, hplace⟩ := exists_of_bind_eq_ok hlocate
    have hinside : tree.enter parent "." = .ok parent :=
      enter_eq_ok_iff.2 ⟨(enter_eq_ok_iff.1 hplace).1, Or.inl ⟨Or.inr rfl, rfl⟩⟩
    rw [placeFor_of_names hnames, Path.trimEnd_concat hne parents]
    simp only [List.getLast?_concat, List.dropLast_concat, hparent, hinside, hdot, hdots, hplace,
      bind, Except.bind, Bool.false_eq_true, or_self, if_false]
    rfl

/-! ## Writing -/

/-- What a successful write does to a tree. -/
structure Written (tree tree' : FileTree) (path : String) (place : Place) (content : Bytes) :
    Prop where
  /-- The file is made in the place for it. -/
  placed : tree.placeFor path = .ok place
  /-- It stands there. -/
  entry_eq : tree'.entry? place = some (.file content)
  /-- It is read back at the same path. -/
  read_eq : tree'.read path = .ok content
  /-- Everywhere else there is what was there before. -/
  frame : ∀ other, other ≠ place → tree'.entry? other = tree.entry? other
  /-- No directory comes or goes. -/
  directories : tree.SameDirectories tree'

theorem written_set (h : tree.placeFor path = .ok place) (content : Bytes) :
    tree.Written (tree.set place (.file content)) path place content := by
  obtain ⟨names, hnames, hleads⟩ := placeFor_eq_ok_iff.1 h
  have hsame := sameDirectories_set hleads.free content
  have hentry := entry?_set_self hleads.free (.file content)
  refine ⟨h, hentry, ?_, fun other hother => entry?_set_of_ne hother tree _, hsame⟩
  rw [read, hnames]
  simp only [bind, Except.bind, hsame.locate_eq hleads.locate_eq, hentry, pure, Except.pure]

/-- A file can be made where it could before. -/
theorem SameDirectories.placeFor_eq (hsame : tree.SameDirectories tree')
    (h : tree.placeFor path = .ok place) : tree'.placeFor path = .ok place := by
  obtain ⟨names, hnames, hleads⟩ := placeFor_eq_ok_iff.1 h
  refine placeFor_eq_ok_iff.2 ⟨names, hnames, hleads.last_ne, hsame.locate_eq hleads.locate_eq, ?_⟩
  rw [ne_eq, hsame.directory_iff]
  exact hleads.free

end FileTree

end LoopTable
