import LoopTable.Proofs.Analysis.Layout
import LoopTable.Proofs.Command.Arguments
import LoopTable.Proofs.Command.FaultLines
import LoopTable.Proofs.Storage.Files

/-!
# The resolving command

What a call of the command to resolve an image does to the files, what status it has, and when it
tells of an instruction at fault.

* `Tabled` lists what can come of resolving an image, and `Resolved` what can come of the whole job
  on a file tree; `tabled_tableOf` and `resolved_run` say that nothing else can.
* `Fulfilled` is what a call has to do, read off `Resolved` in `fulfilled_of_resolved`, and
  `resolve_call` says that every well-formed call does it.
-/

namespace LoopTable.Command

/-! ## The table of an image -/

/-- What comes of resolving an image under settings, with the lines about instructions at fault. -/
inductive Tabled (settings : Settings) (processor : String) (image : Bytes) : Told Bytes → Prop
  /-- The table of the image is made. -/
  | made {table : Bytes} {lines : List Line} : processor = settings.processor →
      settings.imageBlock ≠ settings.tableBlock → branchTable image = .ok table →
      lines.filter Line.isAtFault = [] → Tabled settings processor image (.ok table, lines)
  /-- The image has no table. -/
  | failed {cause : ResolutionError} {address : UInt64} {failure : Failure} {lines : List Line} :
      processor = settings.processor → settings.imageBlock ≠ settings.tableBlock →
      branchTable image = .error cause → cause.address? = some address →
      lines.filter Line.isAtFault = [.atFault address] →
      Tabled settings processor image (.error failure, lines)
  /-- The image is for another processor, or its block has no other beside it. -/
  | refused {failure : Failure} {lines : List Line} :
      ¬ (processor = settings.processor ∧ settings.imageBlock ≠ settings.tableBlock) →
      lines.filter Line.isAtFault = [] → Tabled settings processor image (.error failure, lines)

theorem tabled_tableOf (settings : Settings) (processor path : String) {image : Bytes}
    (himage : 2 * image.size < UInt64.size) :
    Tabled settings processor image (tableOf settings processor path image) := by
  unfold tableOf
  by_cases hprocessor : processor = settings.processor
  · have hcan : settings.canAnalyze (.withBlocks processor settings.imageBlock image
        settings.tableBlock image.size) = true := beq_iff_eq.2 hprocessor
    simp only [hcan, if_true]
    by_cases hapart : settings.imageBlock = settings.tableBlock
    · rw [analyze_withBlocks_self processor image image.size .task _ .empty hapart]
      refine .refused (fun h => h.2 hapart) ?_
      rw [filter_isAtFault_told]
      exact filter_isAtFault_complaints _
    · have hquiet : Monitor.task.Quiet (.ofNat image.size)
          (.new TokenPool.empty.issue.1, TokenPool.empty.issue.2) := Monitor.quiet_task _ rfl
      have hmakes := makes_analyze hapart himage hquiet processor .empty
      generalize analyze settings .task _ _ .empty = analysis at hmakes ⊢
      generalize hbranch : branchTable image = made at hmakes
      cases hmakes with
      | @table table block hresult hget hbytes =>
        simp only [hresult, hget]
        refine .made hprocessor hapart (hbytes ▸ hbranch) ?_
        rw [← List.append_nil (_ ++ _), filter_isAtFault_told]
        rfl
      | @failure cause hresult hlog =>
        obtain ⟨-, address, haddress⟩ := exists_address_of_branchTable himage hbranch
        simp only [hresult]
        refine .failed hprocessor hapart hbranch haddress ?_
        rw [filter_isAtFault_told, hlog, filter_isAtFault_complaints, haddress]
        rfl
  · have hcan : ¬ settings.canAnalyze (.withBlocks processor settings.imageBlock image
        settings.tableBlock image.size) = true := fun h => hprocessor (beq_iff_eq.1 h)
    simp only [hcan]
    exact .refused (fun h => hprocessor h.1) rfl

/-! ## The job -/

/-- The settings that a job is given: those of a file if one is named. -/
def settingsAt (files : FileTree) : Option String → Except Fault Settings
  | none => .ok .standard
  | some path => files.read path >>= textOf >>= Settings.ofText

/-- A job that can be begun: there are settings and an image, the image is for the processor of the
settings, and these name two blocks. -/
structure Prepared (files : FileTree) (image : String) (config processor : Option String)
    (settings : Settings) (bytes : Bytes) : Prop where
  /-- There are settings. -/
  settings_eq : settingsAt files config = .ok settings
  /-- There is an image. -/
  image_eq : files.read image = .ok bytes
  /-- It is for the processor of the settings. -/
  processor_eq : processor.getD "brainfuck" = settings.processor
  /-- The settings name two blocks. -/
  apart : settings.imageBlock ≠ settings.tableBlock

theorem Prepared.unique {files : FileTree} {image : String} {config processor : Option String}
    {settings settings' : Settings} {bytes bytes' : Bytes}
    (h : Prepared files image config processor settings bytes)
    (h' : Prepared files image config processor settings' bytes') :
    settings = settings' ∧ bytes = bytes' :=
  ⟨Except.ok.inj (h.settings_eq.symm.trans h'.settings_eq),
    Except.ok.inj (h.image_eq.symm.trans h'.image_eq)⟩

/-- Everything that can come of the job to resolve an image: what is told, with the lines about
instructions at fault, and the files after it. -/
inductive Resolved (files : FileTree) (image table : String) (config processor : Option String) :
    Told Unit → FileTree → Prop
  /-- The job cannot be begun. -/
  | unprepared {failure : Failure} {lines : List Line} :
      (∀ settings bytes, ¬ Prepared files image config processor settings bytes) →
      lines.filter Line.isAtFault = [] →
      Resolved files image table config processor (.error failure, lines) files
  /-- The image has no table. -/
  | failed {settings : Settings} {bytes : Bytes} {cause : ResolutionError} {address : UInt64}
      {failure : Failure} {lines : List Line} :
      Prepared files image config processor settings bytes →
      branchTable bytes = .error cause → cause.address? = some address →
      lines.filter Line.isAtFault = [.atFault address] →
      Resolved files image table config processor (.error failure, lines) files
  /-- There is no place for the table. -/
  | unplaced {settings : Settings} {bytes stored : Bytes} {fault : Fault} {failure : Failure}
      {lines : List Line} :
      Prepared files image config processor settings bytes → branchTable bytes = .ok stored →
      files.placeFor table = .error fault → lines.filter Line.isAtFault = [] →
      Resolved files image table config processor (.error failure, lines) files
  /-- The table is written. -/
  | written {settings : Settings} {bytes stored : Bytes} {place : Place} {lines : List Line} :
      Prepared files image config processor settings bytes → branchTable bytes = .ok stored →
      files.placeFor table = .ok place → lines.filter Line.isAtFault = [] →
      Resolved files image table config processor (.ok (), lines)
        (files.set place (.file stored))

section Job

variable {files : FileTree} {image table : String} {config processor : Option String}

theorem run_settingsOf (files : FileTree) (config : Option String) :
    (settingsOf Storage.tree config).run files =
      ((settingsAt files config).mapError (.file (config.getD "")), files) := by
  cases config with
  | none => rfl
  | some path =>
    rw [settingsOf, Storage.run_bind_eq (Storage.run_readSettings files path), settingsAt]
    cases files.read path >>= textOf >>= Settings.ofText <;> rfl

theorem resolved_run
    (hsize : ∀ bytes, files.read image = .ok bytes → 2 * bytes.size < UInt64.size) :
    Resolved files image table config processor
      ((Job.run Storage.tree (.resolve image table config processor)).run files).1
      ((Job.run Storage.tree (.resolve image table config processor)).run files).2 := by
  rw [Job.run, Storage.run_bind_eq (run_settingsOf files config)]
  cases hsettings : settingsAt files config with
  | error fault =>
    exact .unprepared (fun settings bytes h => by cases hsettings.symm.trans h.settings_eq) rfl
  | ok settings =>
    dsimp only [Except.mapError]
    rw [Storage.run_bind_eq (Storage.run_readImage files image)]
    cases himage : files.read image with
    | error fault =>
      exact .unprepared (fun settings bytes h => by cases himage.symm.trans h.image_eq) rfl
    | ok bytes =>
      dsimp only
      have htabled := tabled_tableOf settings (processor.getD processorName) image
        (hsize bytes himage)
      generalize tableOf settings (processor.getD processorName) image bytes = told at htabled ⊢
      cases htabled with
      | refused hrefused hlines =>
        refine .unprepared (fun settings' bytes' h => hrefused ?_) hlines
        obtain rfl := Except.ok.inj (hsettings.symm.trans h.settings_eq)
        exact ⟨h.processor_eq, h.apart⟩
      | failed hprocessor hapart hbranch haddress hlines =>
        exact .failed ⟨hsettings, himage, hprocessor, hapart⟩ hbranch haddress hlines
      | @made stored lines hprocessor hapart hbranch hlines =>
        have hprepared : Prepared files image config processor settings bytes :=
          ⟨hsettings, himage, hprocessor, hapart⟩
        have hstored := size_of_branchTable (by have := hsize bytes himage; omega) hbranch
        -- a table has whole words, so it can only lack a place
        rw [writeTold, Storage.writeTable_of_even _ _ (by omega)]
        cases hplace : files.placeFor table with
        | error fault =>
          rw [Storage.run_bind_eq (Storage.run_write_of_error hplace stored)]
          exact .unplaced hprepared hbranch hplace hlines
        | ok place =>
          rw [Storage.run_bind_eq (Storage.run_write_of_placeFor hplace stored)]
          refine .written hprepared hbranch hplace ?_
          rw [List.filter_append, hlines]
          rfl

/-- An image that has a table: its loops are nested, and none ends too far behind. -/
def Resolvable (image : Bytes) : Prop :=
  Balanced image.toList ∧ ∀ c, image[c]? = some closeByte → c < 0xFFFF

namespace Resolved

variable {told : Told Unit} {after : FileTree}

/-- The job is done exactly if it can be begun, the image has a table, and there is a place for
that. -/
theorem isOk_iff (h : Resolved files image table config processor told after)
    (hsize : ∀ bytes, files.read image = .ok bytes → 2 * bytes.size < UInt64.size) :
    told.1.isOk = true ↔ ∃ settings bytes place,
      Prepared files image config processor settings bytes ∧ Resolvable bytes ∧
        files.placeFor table = .ok place := by
  cases h with
  | unprepared hunprepared =>
    refine ⟨fun hok => (by cases hok), ?_⟩
    rintro ⟨settings, bytes, place, hprepared, -, -⟩
    exact absurd hprepared (hunprepared settings bytes)
  | @failed settings bytes cause address failure lines hprepared hbranch =>
    refine ⟨fun hok => (by cases hok), ?_⟩
    rintro ⟨settings', bytes', place, hprepared', hresolvable, -⟩
    obtain ⟨rfl, rfl⟩ := hprepared.unique hprepared'
    obtain ⟨stored, hstored⟩ :=
      (exists_branchTable_iff (hsize bytes hprepared.image_eq)).2 hresolvable
    cases hbranch.symm.trans hstored
  | unplaced _ _ hplace =>
    refine ⟨fun hok => (by cases hok), ?_⟩
    rintro ⟨settings, bytes, place, -, -, hplace'⟩
    cases hplace.symm.trans hplace'
  | @written settings bytes stored place lines hprepared hbranch hplace =>
    have hresolvable :=
      (exists_branchTable_iff (hsize bytes hprepared.image_eq)).1 ⟨stored, hbranch⟩
    exact ⟨fun _ => ⟨settings, bytes, place, hprepared, hresolvable, hplace⟩, fun _ => rfl⟩

/-- A job that is done has written the table of the image, and nothing else. -/
theorem written_of_isOk (h : Resolved files image table config processor told after)
    (hok : told.1.isOk = true) :
    ∃ bytes stored place, files.read image = .ok bytes ∧ branchTable bytes = .ok stored ∧
      files.Written after table place stored := by
  cases h with
  | unprepared | failed | unplaced => cases hok
  | @written settings bytes stored place lines hprepared hbranch hplace =>
    exact ⟨bytes, stored, place, hprepared.image_eq, hbranch, FileTree.written_set hplace stored⟩

/-- A job that is not done leaves all files alone. -/
theorem eq_of_not_isOk (h : Resolved files image table config processor told after)
    (hok : ¬ told.1.isOk = true) : after = files := by
  cases h with
  | unprepared | failed | unplaced => rfl
  | written => exact absurd rfl hok

/-- An image without a table is told with the instruction at fault. -/
theorem filter_isAtFault_of_not_resolvable
    (h : Resolved files image table config processor told after)
    (hsize : ∀ bytes, files.read image = .ok bytes → 2 * bytes.size < UInt64.size)
    {settings : Settings} {bytes : Bytes}
    (hprepared : Prepared files image config processor settings bytes)
    (hnot : ¬ Resolvable bytes) :
    ∃ cause address, branchTable bytes = .error cause ∧ cause.address? = some address ∧
      told.2.filter Line.isAtFault = [.atFault address] := by
  have hmade : ∀ {stored settings' bytes'}, Prepared files image config processor settings' bytes' →
      branchTable bytes' ≠ .ok stored := by
    intro stored settings' bytes' hprepared' hbranch
    obtain ⟨rfl, rfl⟩ := hprepared.unique hprepared'
    exact hnot ((exists_branchTable_iff (hsize bytes hprepared.image_eq)).1 ⟨stored, hbranch⟩)
  cases h with
  | unprepared hunprepared => exact absurd hprepared (hunprepared settings bytes)
  | @failed settings' bytes' cause address failure lines hprepared' hbranch haddress hlines =>
    obtain ⟨rfl, rfl⟩ := hprepared.unique hprepared'
    exact ⟨cause, address, hbranch, haddress, hlines⟩
  | unplaced hprepared' hbranch => exact absurd hbranch (hmade hprepared')
  | written hprepared' hbranch => exact absurd hbranch (hmade hprepared')

/-- In all other cases there is no such line. -/
theorem filter_isAtFault_of_resolvable
    (h : Resolved files image table config processor told after)
    (hsize : ∀ bytes, files.read image = .ok bytes → 2 * bytes.size < UInt64.size)
    (hresolvable : ∀ settings bytes, Prepared files image config processor settings bytes →
      Resolvable bytes) : told.2.filter Line.isAtFault = [] := by
  cases h with
  | unprepared _ hlines => exact hlines
  | @failed settings bytes cause address failure lines hprepared hbranch =>
    obtain ⟨stored, hstored⟩ := (exists_branchTable_iff (hsize bytes hprepared.image_eq)).2
      (hresolvable settings bytes hprepared)
    cases hbranch.symm.trans hstored
  | unplaced _ _ _ hlines => exact hlines
  | written _ _ _ hlines => exact hlines

end Resolved

end Job

/-! ## The call -/

theorem status_transcriptOf (verbose : Bool) (filterText : Option String) (told : Told Unit) :
    (transcriptOf verbose filterText told).status = if told.1.isOk then 0 else 1 := by
  obtain ⟨result, lines⟩ := told
  cases result <;> rfl

theorem run_of_call {arguments : List String} {verbose : Bool} {job : Job}
    (hcall : Request.ofArguments arguments = .ok (.run verbose job)) (filterText : Option String)
    (files : FileTree) :
    (run Storage.tree arguments filterText).run files =
      (transcriptOf verbose filterText ((job.run Storage.tree).run files).1,
        ((job.run Storage.tree).run files).2) := by
  rw [run, hcall]
  exact Storage.run_bind_eq rfl _

/-- What a call to resolve an image has to do, with what is seen of it and the files after it. -/
structure Fulfilled (files : FileTree) (image table : String) (config processor : Option String)
    (ended : Transcript × FileTree) : Prop where
  /-- It has status 0 exactly if the job can be begun, the image has a table, and there is a place
  for that. -/
  status_iff : ended.1.status = 0 ↔ ∃ settings bytes place,
    Prepared files image config processor settings bytes ∧ Resolvable bytes ∧
      files.placeFor table = .ok place
  /-- Then the table of the image stands there, with two bytes for each instruction, also if it is
  in the place of another file of the call, and everywhere else there is what was there before. -/
  written : ended.1.status = 0 → ∃ bytes stored place, files.read image = .ok bytes ∧
    branchTable bytes = .ok stored ∧ stored.size = 2 * bytes.size ∧
      files.Written ended.2 table place stored
  /-- In all other cases it has status 1, and all files are as before. -/
  refused : ended.1.status ≠ 0 → ended.1.status = 1 ∧ ended.2 = files
  /-- If the job can be begun and the image has no table, the instruction at fault is told. -/
  told : ∀ settings bytes, Prepared files image config processor settings bytes →
    ¬ Resolvable bytes → ∃ cause address, branchTable bytes = .error cause ∧
      cause.address? = some address ∧ ended.1.told.filter Line.isAtFault = [.atFault address]
  /-- In all other cases no such line is told. -/
  not_told : (∀ settings bytes, Prepared files image config processor settings bytes →
    Resolvable bytes) → ended.1.told.filter Line.isAtFault = []

/-- A job that can be begun, for an image that has a table, is done. -/
theorem Fulfilled.written_of_prepared {files : FileTree} {image table : String}
    {config processor : Option String} {ended : Transcript × FileTree}
    (h : Fulfilled files image table config processor ended) {settings : Settings} {bytes : Bytes}
    {place : Place} (hprepared : Prepared files image config processor settings bytes)
    (hresolvable : Resolvable bytes) (hplace : files.placeFor table = .ok place) :
    ended.1.status = 0 ∧ ∃ stored, branchTable bytes = .ok stored ∧
      files.Written ended.2 table place stored := by
  have hzero := h.status_iff.2 ⟨settings, bytes, place, hprepared, hresolvable, hplace⟩
  obtain ⟨bytes', stored, place', hread, hbranch, -, hwritten⟩ := h.written hzero
  obtain rfl := Except.ok.inj (hprepared.image_eq.symm.trans hread)
  obtain rfl := Except.ok.inj (hplace.symm.trans hwritten.placed)
  exact ⟨hzero, stored, hbranch, hwritten⟩

theorem fulfilled_of_resolved {files after : FileTree} {image table : String}
    {config processor : Option String} {told : Told Unit}
    (h : Resolved files image table config processor told after)
    (hsize : ∀ bytes, files.read image = .ok bytes → 2 * bytes.size < UInt64.size)
    (verbose : Bool) (filterText : Option String) :
    Fulfilled files image table config processor
      (transcriptOf verbose filterText told, after) := by
  have hstatus : (transcriptOf verbose filterText told).status = 0 ↔ told.1.isOk = true := by
    rw [status_transcriptOf]
    cases told.1.isOk <;> decide
  refine ⟨hstatus.trans (h.isOk_iff hsize), fun hzero => ?_, fun hzero => ?_,
    fun settings bytes hprepared hnot => ?_, fun hresolvable => ?_⟩
  · obtain ⟨bytes, stored, place, himage, hbranch, hwritten⟩ :=
      h.written_of_isOk (hstatus.1 hzero)
    have hsmall := hsize bytes himage
    exact ⟨bytes, stored, place, himage, hbranch, size_of_branchTable (by omega) hbranch, hwritten⟩
  · have hnot : ¬ told.1.isOk = true := fun hok => hzero (hstatus.2 hok)
    rw [status_transcriptOf, if_neg hnot]
    exact ⟨rfl, h.eq_of_not_isOk hnot⟩
  · rw [filter_isAtFault_transcriptOf]
    exact h.filter_isAtFault_of_not_resolvable hsize hprepared hnot
  · rw [filter_isAtFault_transcriptOf]
    exact h.filter_isAtFault_of_resolvable hsize hresolvable

theorem fulfilled_of_resolveCall {files : FileTree} {image table : String}
    {config processor : Option String} {verbose : Bool} {arguments : List String}
    (h : ResolveCall image table config processor verbose arguments)
    (hsize : ∀ bytes, files.read image = .ok bytes → 2 * bytes.size < UInt64.size)
    (filterText : Option String) :
    Fulfilled files image table config processor
      ((run Storage.tree arguments filterText).run files) := by
  rw [run_of_call (resolveCall_iff.1 h)]
  exact fulfilled_of_resolved (resolved_run hsize) hsize verbose filterText

/-- **The resolving call.** `resolve ROM BDEST`, with `--config F` and `--processor P` behind it or
without, asks to resolve the image at `ROM` into a table at `BDEST` and does so: see `Fulfilled`. It
is the same in any other order and spelling, and no other calls ask for it: see `ResolveCall`. -/
theorem resolve_call {files : FileTree} {image table : String} {config processor : Option String}
    (hsize : ∀ bytes, files.read image = .ok bytes → 2 * bytes.size < UInt64.size)
    (filterText : Option String) :
    (IsPath image → IsPath table → (∀ path ∈ config, IsPath path) →
      (∀ name ∈ processor, IsPlain name) →
      let arguments := "resolve" :: image :: table ::
        (config.elim [] fun path => ["--config", path]) ++
          processor.elim [] fun name => ["--processor", name]
      Request.ofArguments arguments =
          .ok (.run false (.resolve image table config processor)) ∧
        Fulfilled files image table config processor
          ((run Storage.tree arguments filterText).run files)) ∧
    ∀ verbose arguments,
      (ResolveCall image table config processor verbose arguments ↔
        Request.ofArguments arguments =
          .ok (.run verbose (.resolve image table config processor))) ∧
      (ResolveCall image table config processor verbose arguments →
        Fulfilled files image table config processor
          ((run Storage.tree arguments filterText).run files)) := by
  refine ⟨fun himage htable hconfig hprocessor => ?_, fun verbose arguments =>
    ⟨resolveCall_iff, fun hcall => fulfilled_of_resolveCall hcall hsize filterText⟩⟩
  have hcall := resolveCall_usual himage htable hconfig hprocessor
  exact ⟨resolveCall_iff.1 hcall, fulfilled_of_resolveCall hcall hsize filterText⟩

/-- A table beside its image, for a processor that a file of settings names, and a table in the
place of that file. -/
theorem resolve_call_with_settings :
    let text := "processor = 'z80'"
    let files : FileTree :=
      ⟨[(["prog.rom"], .file #[6, 7]), (["z80.toml"], .file text.toUTF8.data)], []⟩
    let beside := (run Storage.tree ["resolve", "prog.rom", "prog.bdest", "--config", "z80.toml",
      "--processor", "z80"] none).run files
    let instead := (run Storage.tree ["-v", "resolve", "--processor=z80", "-cz80.toml", "prog.rom",
      "z80.toml"] none).run files
    (∀ bytes, files.read "prog.rom" = .ok bytes → 2 * bytes.size < UInt64.size) ∧
      beside.1.status = 0 ∧ instead.1.status = 0 ∧ ∃ stored, branchTable #[6, 7] = .ok stored ∧
        beside.2.read "prog.bdest" = .ok stored ∧
        FileTree.entry? beside.2 ["prog.rom"] = some (.file #[6, 7]) ∧
        FileTree.entry? beside.2 ["z80.toml"] = some (.file text.toUTF8.data) ∧
        instead.2.read "z80.toml" = .ok stored ∧
        FileTree.entry? instead.2 ["prog.rom"] = some (.file #[6, 7]) := by
  intro text files beside instead
  have himage : files.read "prog.rom" = .ok #[6, 7] := by rfl
  have hsize : ∀ bytes, files.read "prog.rom" = .ok bytes → 2 * bytes.size < UInt64.size := by
    intro bytes h
    obtain rfl := Except.ok.inj (himage.symm.trans h)
    decide
  have hsettings : settingsAt files (some "z80.toml") = .ok ⟨"z80", "rom", "bdest"⟩ := by
    have hread : files.read "z80.toml" = .ok text.toUTF8.data := by rfl
    rw [settingsAt, hread]
    show textOf text.toUTF8.data >>= Settings.ofText = _
    rw [textOf_toUTF8]
    decide +kernel
  have hprepared : Prepared files "prog.rom" (some "z80.toml") (some "z80")
      ⟨"z80", "rom", "bdest"⟩ #[6, 7] :=
    ⟨hsettings, himage, rfl, by decide⟩
  have hresolvable : Resolvable #[6, 7] := by
    refine ⟨.loop .nil, fun c hclose => ?_⟩
    have hc : c < 2 := (Array.getElem?_eq_some_iff.1 hclose).1
    omega
  have hrom : IsPath "prog.rom" := ⟨.inl (by decide), by decide⟩
  have hbdest : IsPath "prog.bdest" := ⟨.inl (by decide), by decide⟩
  have hconfig : ∀ path ∈ some "z80.toml", IsPath path := by
    rintro path ⟨rfl⟩
    exact ⟨.inl (by decide), by decide⟩
  have hprocessor : ∀ name ∈ some "z80", IsPlain name := by
    rintro name ⟨rfl⟩
    exact .inl (by decide)
  obtain ⟨-, hbeside⟩ := (resolve_call hsize none).1 hrom hbdest hconfig hprocessor
  obtain ⟨hcall, hinstead⟩ := (resolve_call hsize none).2 true ["-v", "resolve", "--processor=z80",
    "-cz80.toml", "prog.rom", "z80.toml"]
  have hplace : files.placeFor "prog.bdest" = .ok ["prog.bdest"] := by rfl
  have hplace' : files.placeFor "z80.toml" = .ok ["z80.toml"] := by rfl
  obtain ⟨hzero, stored, hbranch, hwritten⟩ :=
    hbeside.written_of_prepared hprepared hresolvable hplace
  obtain ⟨hzero', stored', hbranch', hwritten'⟩ :=
    (hinstead (hcall.2 (by rfl))).written_of_prepared hprepared hresolvable hplace'
  obtain rfl := Except.ok.inj (hbranch.symm.trans hbranch')
  exact ⟨hsize, hzero, hzero', stored, hbranch, hwritten.read_eq,
    (hwritten.frame _ (by decide)).trans (by rfl), (hwritten.frame _ (by decide)).trans (by rfl),
    hwritten'.read_eq, (hwritten'.frame _ (by decide)).trans (by rfl)⟩

end LoopTable.Command
