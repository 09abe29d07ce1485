import LoopTable.Proofs.History
import LoopTable.Proofs.Storage.Calls

/-!
# Any calls on storage, in any order

This module follows the files through any sequence of calls.

* `Storage.after` is the state after some calls, and `Storage.journal` what they have done, one
  `Storage.Event` for each.
* `Event.Makes` tells the file that a call has made. What stands at a place after some calls is the
  last file made there, or else what stood there at first (`Faithful.entry?_after_iff`).
* No call makes or removes a directory, so a path leads to the same place throughout. A table is
  therefore read back at each path to its place (`Faithful.readTable_after`).
-/

namespace LoopTable

/-! ## Paths that lead to a place -/

namespace FileTree

variable {tree tree' : FileTree} {path : String} {place : Place} {content : Bytes}

/-- A path leads to a place, whether something stands there or not. -/
def LeadsTo (tree : FileTree) (path : String) (place : Place) : Prop :=
  ∃ names, Path.names path = .ok names ∧ tree.locate names = .ok place

/-- A path still leads to the same place if the directories are the same. -/
theorem SameDirectories.leadsTo (h : tree.SameDirectories tree') (hpath : tree.LeadsTo path place) :
    tree'.LeadsTo path place := by
  obtain ⟨names, hnames, hlocate⟩ := hpath
  exact ⟨names, hnames, h.locate_eq hlocate⟩

/-- A file that can be made at a path stands at the place that the path leads to. -/
theorem leadsTo_of_placeFor (h : tree.placeFor path = .ok place) : tree.LeadsTo path place := by
  obtain ⟨names, hnames, hleads⟩ := placeFor_eq_ok_iff.1 h
  exact ⟨names, hnames, hleads.locate_eq⟩

/-- Every path to a file reads it. -/
theorem read_of_leadsTo (hpath : tree.LeadsTo path place)
    (hentry : tree.entry? place = some (.file content)) : tree.read path = .ok content := by
  obtain ⟨names, hnames, hlocate⟩ := hpath
  unfold read
  simp only [bind, Except.bind, hnames, hlocate, hentry, pure, Except.pure]

end FileTree

namespace Storage

/-! ## The files that calls make -/

/-- A call that has been made: the files before it, and what it answered. -/
structure Event where
  files : FileTree
  call : Call
  reply : Reply

namespace Event

/-- A call has made a file of some content at a place. -/
inductive Makes : Event → Place → Bytes → Prop
  /-- The image of a source text. -/
  | assembled {files : FileTree} {source image text : String} {place : Place} {count : Nat}
      {records : List Record} :
      files.read source = .ok text.toUTF8.data → files.placeFor image = .ok place →
      Makes ⟨files, .assemble source image, .assembled (.ok count, records)⟩ place
        (assemble text.toList).toArray
  /-- A table. -/
  | written {files : FileTree} {path : String} {table : Bytes} {place : Place} :
      files.placeFor path = .ok place →
      Makes ⟨files, .writeTable path table, .written (.ok ())⟩ place table

/-- A call has made some file at a place. -/
def MakesAt (place : Place) (event : Event) : Prop :=
  ∃ content, event.Makes place content

/-- What a call that made a file at a place has left there. -/
def Leaves (place : Place) (event : Event) (entry : Entry) : Prop :=
  ∃ content, event.Makes place content ∧ entry = .file content

end Event

namespace Performed

variable {files after : FileTree} {call : Call} {reply : Reply} {place : Place} {content : Bytes}

/-- A file that is made is what stands there. -/
theorem entry?_of_makes (h : Performed files call reply after)
    (hmakes : Event.Makes ⟨files, call, reply⟩ place content) :
    after.entry? place = some (.file content) := by
  cases hmakes with
  | assembled hread hplace =>
    obtain ⟨text', place', hread', -, hwritten⟩ := h.assembled_ok
    obtain rfl : place' = place := Except.ok.inj (hwritten.placed.symm.trans hplace)
    obtain rfl := eq_of_toUTF8_data_eq (Except.ok.inj (hread'.symm.trans hread))
    exact hwritten.entry_eq
  | written hplace =>
    obtain ⟨-, place', hwritten⟩ := h.written_ok
    obtain rfl : place' = place := Except.ok.inj (hwritten.placed.symm.trans hplace)
    exact hwritten.entry_eq

/-- A place at which no file is made is left alone. -/
theorem entry?_of_not_makesAt (h : Performed files call reply after)
    (hnone : ¬ Event.MakesAt place ⟨files, call, reply⟩) :
    after.entry? place = files.entry? place := by
  cases h with
  | image | table | settings | refused => rfl
  | assembled hread hwritten =>
    refine hwritten.frame place ?_
    rintro rfl
    exact hnone ⟨_, .assembled hread hwritten.placed⟩
  | written heven hwritten =>
    refine hwritten.frame place ?_
    rintro rfl
    exact hnone ⟨_, .written hwritten.placed⟩

end Performed

/-! ## Calls one after the other -/

section History

variable {σ : Type} {view : σ → FileTree}

/-- The state after some calls. -/
def after (s : Storage (StateM σ)) (st : σ) (calls : List Call) : σ :=
  calls.foldl (fun st call => ((call.perform s).run st).2) st

/-- What has been done by some calls. -/
def journal (s : Storage (StateM σ)) (view : σ → FileTree) : σ → List Call → List Event
  | _, [] => []
  | st, call :: calls =>
    ⟨view st, call, ((call.perform s).run st).1⟩ ::
      journal s view ((call.perform s).run st).2 calls

theorem after_snoc (s : Storage (StateM σ)) (st : σ) (calls : List Call) (call : Call) :
    s.after st (calls ++ [call]) = ((call.perform s).run (s.after st calls)).2 := by
  simp [after]

theorem journal_snoc (s : Storage (StateM σ)) (view : σ → FileTree) (st : σ) (calls : List Call)
    (call : Call) :
    s.journal view st (calls ++ [call]) = s.journal view st calls ++
      [⟨view (s.after st calls), call, ((call.perform s).run (s.after st calls)).1⟩] := by
  induction calls generalizing st with
  | nil => rfl
  | cons first calls ih =>
    rw [List.cons_append, journal, ih]
    rfl

variable {s : Storage (StateM σ)}

namespace Faithful

theorem performed_run (hs : s.Faithful view) (st : σ) (call : Call) :
    Performed (view st) call ((call.perform s).run st).1 (view ((call.perform s).run st).2) :=
  hs.performed rfl

/-- No sequence of calls makes or removes a directory. -/
theorem sameDirectories_after (hs : s.Faithful view) (st : σ) (calls : List Call) :
    (view st).SameDirectories (view (s.after st calls)) := by
  induction calls using List.reverseRecOn with
  | nil => exact .refl _
  | append_singleton calls call ih =>
    rw [after_snoc]
    exact ih.trans (hs.performed_run _ call).sameDirectories

/-- What stands at a place after some calls is the last file made there, or else what stood there at
first. -/
theorem entry?_after_iff (hs : s.Faithful view) (st : σ) (calls : List Call) (place : Place)
    (entry : Entry) :
    FileTree.entry? (view (s.after st calls)) place = some entry ↔
      Recalled (Event.MakesAt place) (Event.Leaves place)
        (fun first => FileTree.entry? (view st) place = some first)
        (s.journal view st calls) entry := by
  induction calls using List.reverseRecOn generalizing entry with
  | nil =>
    rw [journal, recalled_nil_iff]
    exact Iff.rfl
  | append_singleton calls call ih =>
    rw [after_snoc, journal_snoc]
    have hperformed := hs.performed_run (s.after st calls) call
    by_cases hmakes : Event.MakesAt place
        ⟨view (s.after st calls), call, ((call.perform s).run (s.after st calls)).1⟩
    · rw [recalled_snoc_of_pos hmakes]
      obtain ⟨content, hcontent⟩ := hmakes
      rw [hperformed.entry?_of_makes hcontent, Option.some.injEq]
      constructor
      · rintro rfl
        exact ⟨content, hcontent, rfl⟩
      · rintro ⟨content', hcontent', rfl⟩
        have hentry := hperformed.entry?_of_makes hcontent
        rw [hperformed.entry?_of_makes hcontent'] at hentry
        exact (Option.some.inj hentry).symm
    · rw [recalled_snoc_of_neg hmakes, ← ih, hperformed.entry?_of_not_makesAt hmakes]

/-- What came of the calls before, and that the directories are still the same. -/
theorem performed_of_mem_journal (hs : s.Faithful view) {st : σ} {calls : List Call}
    {event : Event} (h : event ∈ s.journal view st calls) :
    (∃ files, Performed event.files event.call event.reply files) ∧
      event.files.SameDirectories (view (s.after st calls)) := by
  induction calls generalizing st with
  | nil => cases h
  | cons call calls ih =>
    rcases List.mem_cons.1 h with rfl | hlater
    · exact ⟨⟨_, hs.performed_run st call⟩, hs.sameDirectories_after st (call :: calls)⟩
    · exact ih hlater

/-- If a table was the last file made at a place, then it is the table that stands there, for every
path that leads there. -/
theorem readTable_after (hs : s.Faithful view) {st : σ} {calls : List Call} {place : Place}
    {before later : List Event} {files : FileTree} {path : String} {table : Bytes} {reply : Reply}
    (hlast : LastWith (Event.MakesAt place) (s.journal view st calls) before
      ⟨files, .writeTable path table, reply⟩ later) :
    (view (s.after st calls)).LeadsTo path place ∧
      ∀ other, (view (s.after st calls)).LeadsTo other place →
        let answer := (((Call.readTable other).perform s).run (s.after st calls)).1
        answer = .table (.ok table) ∨
          ∃ fault, ((s.read other).run (s.after st calls)).1 = .error fault ∧
            answer = .table (.error fault) := by
  have hmem : ⟨files, .writeTable path table, reply⟩ ∈ s.journal view st calls := by
    rw [hlast.eq]
    exact List.mem_append_right before List.mem_cons_self
  obtain ⟨⟨made, hperformed⟩, hsame⟩ := hs.performed_of_mem_journal hmem
  obtain ⟨content, hmakes⟩ := hlast.holds
  have hentry := (hs.entry?_after_iff st calls place _).2 (.given hlast ⟨content, hmakes, rfl⟩)
  cases hmakes with
  | written hplace =>
    refine ⟨hsame.leadsTo (FileTree.leadsTo_of_placeFor hplace), fun other hother => ?_⟩
    obtain ⟨found, next, hread⟩ := exists_run (s.read other) (s.after st calls)
    rw [Call.run_readTable hread, hread]
    cases found with
    | error fault => exact Or.inr ⟨fault, rfl, rfl⟩
    | ok content =>
      left
      obtain rfl : content = table :=
        Except.ok.inj ((hs.read_ok hread).symm.trans (FileTree.read_of_leadsTo hother hentry))
      have hwhole : Word.isWhole content = true := beq_iff_eq.2 hperformed.written_ok.1
      exact congrArg Reply.table (if_pos hwhole)

end Faithful

/-- **Calls on storage.** Take any storage that keeps a tree of files, and any calls on it. Then one
more call leaves every file as it was if it fails or only reads. An odd table is refused before the
storage is asked for anything, and a source that is no text as soon as it is read. A call that goes
well makes one file and touches no other: the image of the text that its source held before, even if
the two are one file, or the table that it was given.

What stands at a place is the last file made there, or else what stood there at first. If that was a
table, then the same table is read at every path that leads to the place, unless the storage refuses
to read it. A table that is read always has whole words. -/
theorem file_calls_over_any_history {σ : Type} {s : Storage (StateM σ)} {view : σ → FileTree}
    (hs : s.Faithful view) (st : σ) (calls : List Call) :
    let now := s.after st calls
    s.Careful view now ∧
    (∀ (place : Place) (entry : Entry), FileTree.entry? (view now) place = some entry ↔
      Recalled (Event.MakesAt place) (Event.Leaves place)
        (fun first => FileTree.entry? (view st) place = some first)
        (s.journal view st calls) entry) ∧
    ∀ {place : Place} {before later : List Event} {files : FileTree} {path : String}
      {table : Bytes} {reply : Reply},
      LastWith (Event.MakesAt place) (s.journal view st calls) before
        ⟨files, .writeTable path table, reply⟩ later →
      (view now).LeadsTo path place ∧
        ∀ other, (view now).LeadsTo other place →
          let answer := (((Call.readTable other).perform s).run now).1
          answer = .table (.ok table) ∨
            ∃ fault, ((s.read other).run now).1 = .error fault ∧
              answer = .table (.error fault) :=
  ⟨hs.careful _, hs.entry?_after_iff st calls, hs.readTable_after⟩

/-- A text is assembled over itself and a table written over the image. An odd table does not
replace it. -/
theorem file_calls_over_any_history_one_file :
    let files : FileTree := ⟨[(["a"], .file "x[y".toUTF8.data)], []⟩
    let now := tree.after files [.assemble "a" "a", .writeTable "a" #[1, 2], .writeTable "a" #[3]]
    Faithful tree id ∧ now.LeadsTo "./a" ["a"] ∧
      (((Call.readTable "./a").perform tree).run now).1 = .table (.ok #[1, 2]) ∧
      ((Call.writeTable "./a" #[3]).perform tree).run now =
        (.written (.error (.unevenTable 1)), now) := by
  intro files now
  obtain ⟨hcareful, -, hread⟩ := file_calls_over_any_history faithful_tree files
    [.assemble "a" "a", .writeTable "a" #[1, 2], .writeTable "a" #[3]]
  have hleads : now.LeadsTo "./a" ["a"] := ⟨[".", "a"], rfl, rfl⟩
  have hjournal : tree.journal id files
      [.assemble "a" "a", .writeTable "a" #[1, 2], .writeTable "a" #[3]] =
      [⟨files, .assemble "a" "a", .assembled (.ok 1, [.assembled 1 "a"])⟩,
        ⟨⟨[(["a"], .file #[6])], []⟩, .writeTable "a" #[1, 2], .written (.ok ())⟩,
        ⟨⟨[(["a"], .file #[1, 2])], []⟩, .writeTable "a" #[3],
          .written (.error (.unevenTable 1))⟩] := rfl
  have hlast : LastWith (Event.MakesAt ["a"]) (tree.journal id files
      [.assemble "a" "a", .writeTable "a" #[1, 2], .writeTable "a" #[3]])
      [⟨files, .assemble "a" "a", .assembled (.ok 1, [.assembled 1 "a"])⟩]
      ⟨⟨[(["a"], .file #[6])], []⟩, .writeTable "a" #[1, 2], .written (.ok ())⟩
      [⟨⟨[(["a"], .file #[1, 2])], []⟩, .writeTable "a" #[3],
        .written (.error (.unevenTable 1))⟩] := by
    refine ⟨hjournal, ⟨#[1, 2], .written rfl⟩, fun event hevent => ?_⟩
    obtain rfl := List.mem_singleton.1 hevent
    rintro ⟨content, hmakes⟩
    cases hmakes
  refine ⟨faithful_tree, hleads, ?_, hcareful.uneven "./a" rfl⟩
  rcases (hread hlast).2 "./a" hleads with htable | ⟨fault, hfault, -⟩
  · exact htable
  · have hfound : ((tree.read "./a").run now).1 = .ok #[1, 2] := rfl
    cases hfound.symm.trans hfault

end History

end Storage

end LoopTable
