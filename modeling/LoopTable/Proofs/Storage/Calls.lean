import LoopTable.Proofs.Storage.Files

/-!
# Calls on storage

A call is one use of the library's operations on files. It is carried out on any storage that keeps
a tree of files (`Faithful`): a write either refuses and changes nothing, or makes the whole file.

* `Call.perform` carries out one call, and `Performed` is everything that can come of it
  (`Faithful.performed`).
* `Careful` says what calls do in one state. A call checks all that it was given before it writes,
  so one that fails leaves the files alone (`Faithful.careful`).
-/

namespace LoopTable

namespace FileTree

variable {tree tree' tree'' : FileTree}

namespace SameDirectories

theorem refl (tree : FileTree) : tree.SameDirectories tree := ⟨rfl, fun _ => Iff.rfl⟩

theorem trans (h : tree.SameDirectories tree') (h' : tree'.SameDirectories tree'') :
    tree.SameDirectories tree'' :=
  ⟨h'.home_eq.trans h.home_eq, fun place => (h'.directory_iff place).trans (h.directory_iff place)⟩

end SameDirectories

/-- A write that goes well has a place for its file. -/
theorem exists_written {path : String} {content : Bytes}
    (h : tree.write path content = .ok tree') :
    ∃ place, tree.Written tree' path place content := by
  obtain ⟨place, hplace, hset⟩ := exists_of_bind_eq_ok h
  obtain rfl := Except.ok.inj hset
  exact ⟨place, written_set hplace content⟩

end FileTree

namespace Storage

/-! ## Calls -/

/-- What the library can be asked to do with files. -/
inductive Call
  /-- Assembles the source text at one path into the image at another. -/
  | assemble (source image : String)
  /-- Reads an image. -/
  | readImage (path : String)
  /-- Reads a table. -/
  | readTable (path : String)
  /-- Writes a table. -/
  | writeTable (path : String) (table : Bytes)
  /-- Reads settings. -/
  | readSettings (path : String)

/-- What a call answers. -/
inductive Reply
  | assembled (result : Except Fault Nat × List Record)
  | image (result : Except Fault Bytes)
  | table (result : Except Fault Bytes)
  | written (result : Except Fault Unit)
  | settings (result : Except Fault Settings)

/-- A call fails. -/
inductive Reply.Refused : Reply → Prop
  | assembled {fault : Fault} {records : List Record} :
      Refused (.assembled (.error fault, records))
  | image {fault : Fault} : Refused (.image (.error fault))
  | table {fault : Fault} : Refused (.table (.error fault))
  | written {fault : Fault} : Refused (.written (.error fault))
  | settings {fault : Fault} : Refused (.settings (.error fault))

/-- Calls that make no file. -/
inductive Call.Reads : Call → Prop
  | image {path : String} : Reads (.readImage path)
  | table {path : String} : Reads (.readTable path)
  | settings {path : String} : Reads (.readSettings path)

/-- Carries out a call. -/
def Call.perform {m : Type → Type} [Monad m] (s : Storage m) : Call → m Reply
  | assemble source image => .assembled <$> s.assembleFile source image
  | readImage path => .image <$> s.readImage path
  | readTable path => .table <$> s.readTable path
  | writeTable path table => .written <$> s.writeTable path table
  | readSettings path => .settings <$> s.readSettings path

/-- A storage keeps a tree of files, of which its state gives a view. It may refuse to read or to
write whatever it likes. -/
structure Faithful {σ : Type} (s : Storage (StateM σ)) (view : σ → FileTree) : Prop where
  /-- To read a file leaves the files alone. -/
  view_read : ∀ {st st' : σ} {path : String} {found : Except Fault Bytes},
    (s.read path).run st = (found, st') → view st' = view st
  /-- What is read is what stands there. -/
  read_ok : ∀ {st st' : σ} {path : String} {content : Bytes},
    (s.read path).run st = (.ok content, st') → (view st).read path = .ok content
  /-- To write a file makes it with all of its content. -/
  write_ok : ∀ {st st' : σ} {path : String} {content : Bytes},
    (s.write path content).run st = (.ok (), st') →
      (view st).write path content = .ok (view st')
  /-- Where no file is made, nothing is changed. -/
  view_write : ∀ {st st' : σ} {path : String} {content : Bytes} {fault : Fault},
    (s.write path content).run st = (.error fault, st') → view st' = view st

/-- A tree of files keeps itself. -/
theorem faithful_tree : Faithful tree id where
  view_read h := (congrArg Prod.snd h).symm
  read_ok h := congrArg Prod.fst h
  write_ok {files after path content} h := by
    cases hwrite : files.write path content with
    | error fault =>
      simp only [tree, StateT.run, hwrite] at h
      cases h
    | ok made =>
      simp only [tree, StateT.run, hwrite] at h
      cases h
      exact hwrite
  view_write {files after path content fault} h := by
    cases hwrite : files.write path content with
    | error refusal =>
      simp only [tree, StateT.run, hwrite] at h
      cases h
      rfl
    | ok made =>
      simp only [tree, StateT.run, hwrite] at h
      cases h

/-! ## One call -/

/-- Everything that can come of a call: its answer, and the files after it. -/
inductive Performed (files : FileTree) : Call → Reply → FileTree → Prop
  /-- The source is a text, and its image is made. -/
  | assembled {source image text : String} {place : Place} {after : FileTree} :
      files.read source = .ok text.toUTF8.data →
      files.Written after image place (assemble text.toList).toArray →
      Performed files (.assemble source image)
        (.assembled (.ok (assemble text.toList).length,
          [.assembled (assemble text.toList).length source])) after
  /-- An image is read. -/
  | image {path : String} {content : Bytes} :
      files.read path = .ok content →
      Performed files (.readImage path) (.image (.ok content)) files
  /-- A table of whole words is read. -/
  | table {path : String} {content : Bytes} :
      files.read path = .ok content → content.size % 2 = 0 →
      Performed files (.readTable path) (.table (.ok content)) files
  /-- A table of whole words is made. -/
  | written {path : String} {content : Bytes} {place : Place} {after : FileTree} :
      content.size % 2 = 0 → files.Written after path place content →
      Performed files (.writeTable path content) (.written (.ok ())) after
  /-- Settings are read from a text. -/
  | settings {path text : String} {settings : Settings} :
      files.read path = .ok text.toUTF8.data → Settings.ofText text = .ok settings →
      Performed files (.readSettings path) (.settings (.ok settings)) files
  /-- The call fails, and the files stay. -/
  | refused {call : Call} {reply : Reply} : reply.Refused → Performed files call reply files

namespace Performed

variable {files after : FileTree} {call : Call} {reply : Reply} {path : String} {content : Bytes}

theorem eq_of_refused (h : Performed files call reply after) (hrefused : reply.Refused) :
    after = files := by
  cases h with
  | assembled | written => cases hrefused
  | image | table | settings | refused => rfl

theorem eq_of_reads (h : Performed files call reply after) (hreads : call.Reads) :
    after = files := by
  cases h with
  | assembled | written => cases hreads
  | image | table | settings | refused => rfl

theorem assembled_ok {source image : String} {count : Nat} {records : List Record}
    (h : Performed files (.assemble source image) (.assembled (.ok count, records)) after) :
    ∃ (text : String) (place : Place), files.read source = .ok text.toUTF8.data ∧
      count = (assemble text.toList).length ∧
      files.Written after image place (assemble text.toList).toArray := by
  cases h with
  | assembled hread hwritten => exact ⟨_, _, hread, rfl, hwritten⟩
  | refused hrefused => cases hrefused

theorem written_ok (h : Performed files (.writeTable path content) (.written (.ok ())) after) :
    content.size % 2 = 0 ∧ ∃ place, files.Written after path place content := by
  cases h with
  | written heven hwritten => exact ⟨heven, _, hwritten⟩
  | refused hrefused => cases hrefused

theorem table_ok (h : Performed files (.readTable path) (.table (.ok content)) after) :
    content.size % 2 = 0 ∧ files.read path = .ok content := by
  cases h with
  | table hread heven => exact ⟨heven, hread⟩
  | refused hrefused => cases hrefused

/-- No directory comes or goes. -/
theorem sameDirectories (h : Performed files call reply after) : files.SameDirectories after := by
  cases h with
  | assembled _ hwritten | written _ hwritten => exact hwritten.directories
  | image | table | settings | refused => exact .refl files

end Performed

section Step

variable {σ : Type} {s : Storage (StateM σ)} {view : σ → FileTree} {st st' : σ} {path : String}

theorem writeTable_of_odd {m : Type → Type} [Monad m] (s : Storage m) (path : String)
    {table : Bytes} (h : table.size % 2 = 1) :
    s.writeTable path table = pure (.error (.unevenTable table.size)) :=
  if_neg fun hwhole => absurd (beq_iff_eq.1 hwhole) (by omega)

namespace Call

theorem run_readImage {found : Except Fault Bytes} (h : (s.read path).run st = (found, st')) :
    ((readImage path).perform s).run st = (.image found, st') := by
  rw [perform, StateT.run_map, Storage.readImage, h]
  rfl

theorem run_readTable {found : Except Fault Bytes} (h : (s.read path).run st = (found, st')) :
    ((readTable path).perform s).run st =
      (.table (found >>= fun table =>
        if Word.isWhole table then .ok table else .error .truncatedTable), st') := by
  rw [perform, StateT.run_map, run_readTable_of_read h]
  rfl

theorem run_readSettings {found : Except Fault Bytes} (h : (s.read path).run st = (found, st')) :
    ((readSettings path).perform s).run st =
      (.settings (found >>= textOf >>= Settings.ofText), st') := by
  rw [perform, StateT.run_map, run_readSettings_of_read h]
  rfl

/-- An odd table is not written: the storage is not asked at all. -/
theorem run_writeTable_of_odd (st : σ) (path : String) {table : Bytes} (h : table.size % 2 = 1) :
    ((writeTable path table).perform s).run st =
      (.written (.error (.unevenTable table.size)), st) := by
  rw [perform, writeTable_of_odd s path h]
  rfl

end Call

/-- What is read of a text comes from the bytes of its file. -/
theorem exists_read_of_readText {result : Except Fault String}
    (h : (s.readText path).run st = (result, st')) :
    ∃ found, (s.read path).run st = (found, st') ∧ result = found >>= textOf := by
  obtain ⟨found, next, hread⟩ := exists_run (s.read path) st
  rw [run_readText_of_read hread] at h
  cases h
  exact ⟨found, hread, rfl⟩

namespace Faithful

theorem view_readText (hs : s.Faithful view) {result : Except Fault String}
    (h : (s.readText path).run st = (result, st')) : view st' = view st := by
  obtain ⟨found, hread, -⟩ := exists_read_of_readText h
  exact hs.view_read hread

/-- What is read as a text are the bytes of the text. -/
theorem readText_ok (hs : s.Faithful view) {text : String}
    (h : (s.readText path).run st = (.ok text, st')) :
    (view st).read path = .ok text.toUTF8.data := by
  obtain ⟨found, hread, hresult⟩ := exists_read_of_readText h
  obtain ⟨content, rfl, hvalid⟩ := exists_of_bind_eq_ok hresult.symm
  rw [textOf_eq_ok_iff.1 hvalid] at hread
  exact hs.read_ok hread

/-- Without a source text there is no image: nothing is done after reading. -/
theorem run_assemble_of_no_text (hs : s.Faithful view) {source : String} (image : String)
    (h : ∀ text : String, (view st).read source ≠ .ok text.toUTF8.data) :
    ∃ fault, ((Call.assemble source image).perform s).run st =
      (.assembled (.error fault, []), ((s.read source).run st).2) := by
  obtain ⟨result, next, htext⟩ := exists_run (s.readText source) st
  cases result with
  | ok text => exact absurd (hs.readText_ok htext) (h text)
  | error fault =>
    obtain ⟨found, hread, -⟩ := exists_read_of_readText htext
    refine ⟨fault, ?_⟩
    rw [Call.perform, StateT.run_map, run_assembleFile_of_error htext, hread]
    rfl

/-- What can come of assembling a file. -/
theorem performed_assemble (hs : s.Faithful view) {source image : String} {reply : Reply}
    (h : ((Call.assemble source image).perform s).run st = (reply, st')) :
    Performed (view st) (.assemble source image) reply (view st') := by
  rw [Call.perform, StateT.run_map] at h
  obtain ⟨result, next, htext⟩ := exists_run (s.readText source) st
  have hfirst := hs.view_readText htext
  cases result with
  | error fault =>
    rw [run_assembleFile_of_error htext] at h
    cases h
    rw [hfirst]
    exact .refused .assembled
  | ok text =>
    obtain ⟨made, last, hwrite⟩ := exists_run (s.write image (assemble text.toList).toArray) next
    rw [run_assembleFile_of_text htext hwrite] at h
    cases made with
    | error fault =>
      cases h
      rw [hs.view_write hwrite, hfirst]
      exact .refused .assembled
    | ok _ =>
      cases h
      obtain ⟨place, hwritten⟩ := FileTree.exists_written (hs.write_ok hwrite)
      -- the text was read from the files that the image is then written to
      rw [hfirst] at hwritten
      exact .assembled (hs.readText_ok htext) hwritten

/-- What can come of writing a table. -/
theorem performed_writeTable (hs : s.Faithful view) {table : Bytes} {reply : Reply}
    (h : ((Call.writeTable path table).perform s).run st = (reply, st')) :
    Performed (view st) (.writeTable path table) reply (view st') := by
  rcases Nat.mod_two_eq_zero_or_one table.size with heven | hodd
  · rw [Call.perform, StateT.run_map, writeTable_of_even s path heven] at h
    obtain ⟨made, next, hwrite⟩ := exists_run (s.write path table) st
    rw [hwrite] at h
    cases h
    cases made with
    | error fault =>
      rw [hs.view_write hwrite]
      exact .refused .written
    | ok _ =>
      obtain ⟨place, hwritten⟩ := FileTree.exists_written (hs.write_ok hwrite)
      exact .written heven hwritten
  · rw [Call.run_writeTable_of_odd st path hodd] at h
    cases h
    exact .refused .written

/-- What can come of a call that answers by what it reads. -/
theorem performed_read (hs : s.Faithful view) {call : Call}
    {answer : Except Fault Bytes → Reply} {reply : Reply}
    (hrun : ∀ {found : Except Fault Bytes} {next : σ}, (s.read path).run st = (found, next) →
      (call.perform s).run st = (answer found, next))
    (hok : ∀ content, (view st).read path = .ok content →
      Performed (view st) call (answer (.ok content)) (view st))
    (herror : ∀ fault, (answer (.error fault)).Refused)
    (h : (call.perform s).run st = (reply, st')) :
    Performed (view st) call reply (view st') := by
  obtain ⟨found, next, hread⟩ := exists_run (s.read path) st
  rw [hrun hread] at h
  cases h
  rw [hs.view_read hread]
  cases found with
  | error fault => exact .refused (herror fault)
  | ok content => exact hok content (hs.read_ok hread)

/-- Nothing else can come of a call. -/
theorem performed (hs : s.Faithful view) {call : Call} {reply : Reply}
    (h : (call.perform s).run st = (reply, st')) :
    Performed (view st) call reply (view st') := by
  cases call with
  | assemble source image => exact hs.performed_assemble h
  | writeTable path table => exact hs.performed_writeTable h
  | readImage path =>
    exact hs.performed_read Call.run_readImage (fun content => .image) (fun fault => .image) h
  | readTable path =>
    refine hs.performed_read Call.run_readTable (fun content hread => ?_) (fun fault => .table) h
    show Performed _ _ (.table (if Word.isWhole content then .ok content else _)) _
    by_cases hwhole : Word.isWhole content
    · rw [if_pos hwhole]
      exact .table hread (beq_iff_eq.1 hwhole)
    · rw [if_neg hwhole]
      exact .refused .table
  | readSettings path =>
    refine hs.performed_read Call.run_readSettings (fun content hread => ?_)
      (fun fault => .settings) h
    show Performed _ _ (.settings (textOf content >>= Settings.ofText)) _
    cases hsettings : textOf content >>= Settings.ofText with
    | error fault => exact .refused .settings
    | ok settings =>
      obtain ⟨text, htext, hparsed⟩ := exists_of_bind_eq_ok hsettings
      rw [textOf_eq_ok_iff.1 htext] at hread
      exact .settings hread hparsed

end Faithful

end Step

/-- What the calls do in some state of a storage. -/
structure Careful {σ : Type} (s : Storage (StateM σ)) (view : σ → FileTree) (st : σ) : Prop where
  /-- A call that fails leaves every file as it was. -/
  refused : ∀ {call : Call} {reply : Reply} {st' : σ},
    (call.perform s).run st = (reply, st') → reply.Refused → view st' = view st
  /-- So does a call that reads. -/
  reads : ∀ {call : Call} {reply : Reply} {st' : σ},
    (call.perform s).run st = (reply, st') → call.Reads → view st' = view st
  /-- An odd table is refused without asking the storage for anything. -/
  uneven : ∀ path {table : Bytes}, table.size % 2 = 1 →
    ((Call.writeTable path table).perform s).run st =
      (.written (.error (.unevenTable table.size)), st)
  /-- A source that is missing, a directory or no text is refused after reading it. -/
  noText : ∀ {source : String} image,
    (∀ text : String, (view st).read source ≠ .ok text.toUTF8.data) →
      ∃ fault, ((Call.assemble source image).perform s).run st =
        (.assembled (.error fault, []), ((s.read source).run st).2)
  /-- An image is the one of the text that stood at the source before. No other file is changed. -/
  assembled : ∀ {source image : String} {count : Nat} {records : List Record} {st' : σ},
    ((Call.assemble source image).perform s).run st = (.assembled (.ok count, records), st') →
      ∃ (text : String) (place : Place), (view st).read source = .ok text.toUTF8.data ∧
        count = (assemble text.toList).length ∧
        (view st).Written (view st') image place (assemble text.toList).toArray
  /-- A table that is written is the one given. No other file is changed. -/
  written : ∀ {path : String} {table : Bytes} {st' : σ},
    ((Call.writeTable path table).perform s).run st = (.written (.ok ()), st') →
      table.size % 2 = 0 ∧ ∃ place, (view st).Written (view st') path place table
  /-- A table that is read stands there, and has only whole words. -/
  table : ∀ {path : String} {content : Bytes} {st' : σ},
    ((Call.readTable path).perform s).run st = (.table (.ok content), st') →
      content.size % 2 = 0 ∧ (view st).read path = .ok content

theorem Faithful.careful {σ : Type} {s : Storage (StateM σ)} {view : σ → FileTree}
    (hs : s.Faithful view) (st : σ) : s.Careful view st where
  refused hrun := (hs.performed hrun).eq_of_refused
  reads hrun := (hs.performed hrun).eq_of_reads
  uneven path _ hodd := Call.run_writeTable_of_odd st path hodd
  noText image hsource := hs.run_assemble_of_no_text image hsource
  assembled hrun := (hs.performed hrun).assembled_ok
  written hrun := (hs.performed hrun).written_ok
  table hrun := (hs.performed hrun).table_ok

end Storage

end LoopTable
