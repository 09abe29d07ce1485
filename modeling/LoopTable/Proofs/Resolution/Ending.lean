import LoopTable.Proofs.Region
import LoopTable.Proofs.Resolution.Run
import LoopTable.Proofs.Resolution.Passage

/-!
# Scans over bytes in memory

When the image is plain bytes and the table an honest region with room for it, no access fails. What
is left of the ways in which a scan can end is `Ending`, told by the image alone: each way says what
the course of the image is up to there, and which words of the table are rewritten. A scan that is
not cancelled ends in one of these ways (`ending_resolve`).
-/

namespace LoopTable

/-- Beyond the greatest destination of a word. -/
theorem ofNat_gt_maxDestination_iff {n : Nat} (h : n < UInt64.size) :
    UInt64.ofNat n > Word.maxDestination ↔ 65535 < n := by
  rw [gt_iff_lt, UInt64.lt_iff_toNat_lt, UInt64.toNat_ofNat_of_lt' h]
  rfl

theorem ofNat_succ (n : Nat) : UInt64.ofNat n + 1 = UInt64.ofNat (n + 1) := by
  rw [UInt64.ofNat_add]
  rfl

/-- The last end of a loop with a destination that fits into a word is before address 65535. -/
theorem ofNat_succ_gt_maxDestination_iff {n : Nat} (h : n + 1 < UInt64.size) :
    UInt64.ofNat n + 1 > Word.maxDestination ↔ 65535 ≤ n := by
  rw [ofNat_succ, ofNat_gt_maxDestination_iff h]
  exact Nat.lt_succ_iff

/-! ## Entries of a table -/

/-- The words that some closed loops call for. -/
def CalledFor (closed : List (Nat × Nat)) (a v : Nat) : Prop :=
  ∃ o c, (o, c) ∈ closed ∧ ((a = c ∧ v = o) ∨ (a = o ∧ v = c + 1))

theorem calledFor_snoc_iff {closed : List (Nat × Nat)} {o c a v : Nat} :
    CalledFor (closed ++ [(o, c)]) a v ↔
      (CalledFor closed a v ∨ (a = c ∧ v = o)) ∨ (a = o ∧ v = c + 1) := by
  constructor
  · rintro ⟨o', c', hmem, heq⟩
    rcases List.mem_append.1 hmem with hmem | hmem
    · exact Or.inl (Or.inl ⟨o', c', hmem, heq⟩)
    · obtain ⟨rfl, rfl⟩ := Prod.mk.inj (List.mem_singleton.1 hmem)
      rcases heq with heq | heq
      · exact Or.inl (Or.inr heq)
      · exact Or.inr heq
  · rintro ((⟨o', c', hmem, heq⟩ | heq) | heq)
    · exact ⟨o', c', List.mem_append_left _ hmem, heq⟩
    · exact ⟨o, c, List.mem_append_right _ (List.mem_singleton_self _), Or.inl heq⟩
    · exact ⟨o, c, List.mem_append_right _ (List.mem_singleton_self _), Or.inr heq⟩

/-- A course calls for words at the ends of loops it has closed. -/
theorem Course.calledFor_lt {bytes : List UInt8} {opened : List Nat} {closed : List (Nat × Nat)}
    (h : Course bytes opened closed) {a v : Nat} (he : CalledFor closed a v) :
    a < bytes.length := by
  obtain ⟨o, c, hmem, ⟨rfl, -⟩ | ⟨rfl, -⟩⟩ := he
  · exact (h.mem_closed_iff.1 hmem).closing_lt_length
  · have hm := h.mem_closed_iff.1 hmem
    exact Nat.lt_trans hm.lt hm.closing_lt_length

/-- A course calls for no word at the start of a loop that it leaves open. -/
theorem Course.not_calledFor_of_opened {bytes : List UInt8} {opened : List Nat}
    {closed : List (Nat × Nat)} (h : Course bytes opened closed) {o : Nat} (ho : o ∈ opened)
    (v : Nat) : ¬ CalledFor closed o v := by
  have hopen := h.mem_opened_iff.1 ho
  rintro ⟨o', c', hmem, ⟨rfl, -⟩ | ⟨rfl, -⟩⟩
  · exact openByte_ne_closeByte
      (Option.some.inj (hopen.2.1.symm.trans (h.mem_closed_iff.1 hmem).closes))
  · have hm := h.mem_closed_iff.1 hmem
    exact hopen.2.2 c' hm.closing_lt_length hm

/-- The entries of the course up to an address, told by the whole image. -/
theorem Course.calledFor_iff {image : List UInt8} {k : Nat} {opened : List Nat}
    {closed : List (Nat × Nat)} (h : Course (image.take k) opened closed) {a v : Nat} :
    CalledFor closed a v ↔ Destination image k a v := by
  constructor
  · rintro ⟨o, c, hmem, heq⟩
    have hm := h.mem_closed_iff.1 hmem
    have hc := hm.closing_lt_length
    rw [List.length_take] at hc
    exact ⟨o, c, (matched_take_iff (by omega)).1 hm, by omega, heq⟩
  · rintro ⟨o, c, hm, hc, heq⟩
    exact ⟨o, c, h.mem_closed_iff.2 ((matched_take_iff hc).2 hm), heq⟩

/-! ## The end of a loop in an honest table -/

section Honest

variable {σ μ : Type} {w : Writable σ} {view : σ → Bytes}

theorem Writable.Honest.wordAnswer_eq (hw : w.Honest view) {s : Scan σ μ} {a v : Nat}
    (hsize : (view s.table).size < UInt64.size) (hv : v < 65536)
    (ha : 2 * a + 2 ≤ (view s.table).size) : s.wordAnswer w (.ofNat a) (.ofNat v) = .ok () :=
  (hw.put_word hsize hv ha).1

theorem Writable.Honest.view_wordSent (hw : w.Honest view) {s : Scan σ μ} {a v : Nat}
    (hsize : (view s.table).size < UInt64.size) (hv : v < 65536)
    (ha : 2 * a + 2 ≤ (view s.table).size) :
    view (s.wordSent w (.ofNat a) (.ofNat v)).table =
      (view s.table).overwrite (2 * a) [UInt8.ofNat (v % 256), UInt8.ofNat (v / 256)] :=
  (hw.put_word hsize hv ha).2

/-- A word that a table stores is one entry more. -/
theorem Writable.Faithful.rewritten_wordSent (hw : w.Faithful view) {before : Bytes}
    {entry : Nat → Nat → Prop} {s : Scan σ μ} {a v : Nat}
    (h : Bytes.Rewritten before (view s.table) entry) (ha : 2 * a < UInt64.size) (hv : v < 65536)
    (hok : s.wordAnswer w (.ofNat a) (.ofNat v) = .ok ()) (hfree : ∀ u, ¬ entry a u) :
    Bytes.Rewritten before (view (s.wordSent w (.ofNat a) (.ofNat v)).table)
      fun b u => entry b u ∨ (b = a ∧ u = v) := by
  obtain ⟨hinside, hview⟩ := hw.put_word ha hv hok
  rw [Scan.wordSent, hview]
  exact h.overwrite hv hinside hfree

/-- In an honest table with room for it, the end of a loop fails only when a destination is too far
for a word. -/
theorem Settled.honest (hw : w.Honest view) {o c : Nat} {s : Scan σ μ}
    {result : EStateM.Result ResolutionError (Scan σ μ) Unit}
    (h : Settled w (.ofNat o) (.ofNat c) s result) (hoc : o < c)
    (hsize : (view s.table).size < UInt64.size) (hc : 2 * c + 2 ≤ (view s.table).size) :
    (65535 < o ∧ result = .error (.unencodable (.ofNat c) (.ofNat o)) s) ∨
    (o ≤ 65535 ∧ 65535 ≤ c ∧ result = .error (.unencodable (.ofNat o) (.ofNat (c + 1)))
      (s.wordSent w (.ofNat c) (.ofNat o))) ∨
    (c < 65535 ∧ result = .ok () (((s.wordSent w (.ofNat c) (.ofNat o)).wordSent w (.ofNat o)
      (.ofNat (c + 1))).resolved (.ofNat o) (.ofNat c))) := by
  have hstart : UInt64.ofNat o > Word.maxDestination ↔ 65535 < o :=
    ofNat_gt_maxDestination_iff (by omega)
  have hend : UInt64.ofNat c + 1 > Word.maxDestination ↔ 65535 ≤ c :=
    ofNat_succ_gt_maxDestination_iff (by omega)
  cases h with
  | farStart hfar => exact Or.inl ⟨hstart.1 hfar, rfl⟩
  | faultAtEnd hnear hfault =>
    rw [hstart] at hnear
    rw [hw.wordAnswer_eq hsize (by omega) hc] at hfault
    cases hfault
  | farEnd hnear _ hfar =>
    rw [hstart] at hnear
    rw [hend] at hfar
    rw [ofNat_succ]
    exact Or.inr (Or.inl ⟨by omega, by omega, rfl⟩)
  | faultAtStart hnear _ hnear' hfault =>
    rw [hstart] at hnear
    rw [hend] at hnear'
    have hview := hw.view_wordSent hsize (by omega : o < 65536) hc
    rw [ofNat_succ, hw.wordAnswer_eq (by rw [hview, Bytes.size_overwrite]; exact hsize) (by omega)
      (by rw [hview, Bytes.size_overwrite]; omega)] at hfault
    cases hfault
  | done hnear _ hnear' _ =>
    rw [hend] at hnear'
    rw [ofNat_succ]
    exact Or.inr (Or.inr ⟨by omega, rfl⟩)

end Honest

/-! ## Runs that are going well -/

section Went

variable {σ μ : Type} {region : Readable} {w : Writable σ} {view : σ → Bytes} {m : Monitor μ}
  {table : σ} {monitor : μ} {bytes : List UInt8} {opened : List Nat} {closed : List (Nat × Nat)}
  {s : Scan σ μ}

/-- The bytes read from a region that reflects an image are the first bytes of the image. -/
theorem Went.eq_take (h : Went region w m table monitor bytes opened closed s) {image : Bytes}
    (hr : region.Reflects image) : bytes = image.toList.take bytes.length := by
  refine List.ext_getElem? fun i => ?_
  rcases Nat.lt_or_ge i bytes.length with hi | hi
  · have hread := hr _ _ (h.read_eq (List.getElem?_eq_getElem hi))
    have hlength := Nat.lt_of_lt_of_le hi h.length_le
    rw [UInt64.toNat_ofNat_of_lt' (Nat.lt_trans hlength region.size.toNat_lt_size)] at hread
    rw [List.getElem?_take_of_lt hi, List.getElem?_eq_getElem hi, ← hread]
    exact Array.getElem?_toList.symm
  · rw [List.getElem?_eq_none hi, List.getElem?_eq_none (by rw [List.length_take]; omega)]

/-- As long as a run goes well, every loop closed has its end before the last destination. -/
theorem Went.closing_lt (h : Went region w m table monitor bytes opened closed s) :
    ∀ o c, (o, c) ∈ closed → c < 65535 := by
  induction h with
  | start => simp
  | inert _ _ _ _ _ ih | opened _ _ _ _ ih => exact ih
  | closed hwent hlt _ _ hsettled ih =>
    intro o' c' hmem
    rcases List.mem_append.1 hmem with hmem | hmem
    · exact ih o' c' hmem
    · obtain ⟨-, rfl⟩ := Prod.mk.inj (List.mem_singleton.1 hmem)
      cases hsettled with
      | done _ _ hnear _ =>
        have := region.size.toNat_lt_size
        rw [ofNat_succ_gt_maxDestination_iff (by omega)] at hnear
        omega

/-- A run over a region that reflects an image passes the addresses of the image. -/
theorem Went.passed (h : Went region w m table monitor bytes opened closed s) {image : Bytes}
    (hr : region.Reflects image) : Passed image.toList bytes.length opened closed := by
  have htake := h.eq_take hr
  have hcourse := h.course
  refine ⟨?_, htake ▸ hcourse, h.closing_lt⟩
  have hlength := congrArg List.length htake
  rw [List.length_take] at hlength
  omega

/-- As long as a run goes well, the words of the loops closed are rewritten and nothing else. -/
theorem Went.rewritten (h : Went region w m table monitor bytes opened closed s)
    (hw : w.Faithful view) (hsize : 2 * region.size.toNat < UInt64.size) :
    Bytes.Rewritten (view table) (view s.table) (CalledFor closed) := by
  induction h with
  | start => exact (Bytes.Rewritten.refl _).congr fun a v => by simp [CalledFor]
  | inert _ _ _ _ _ ih | opened _ _ _ _ ih => exact ih
  | @closed bytes o opened closed s s' hwent hlt _ _ hsettled ih =>
    have hcourse := hwent.course
    have hoc : o < bytes.length := hcourse.opened_lt o (List.mem_cons_self ..)
    cases hsettled with
    | done _ hend hnear hstart =>
      rw [ofNat_succ_gt_maxDestination_iff (by omega)] at hnear
      rw [ofNat_succ] at hstart ⊢
      have hfirst := hw.rewritten_wordSent ih (by omega) (by omega : o < 65536) hend
        fun u hu => Nat.lt_irrefl _ (hcourse.calledFor_lt hu)
      have hboth := hw.rewritten_wordSent hfirst (by omega) (by omega : bytes.length + 1 < 65536)
        hstart fun u hu => by
          rcases hu with hu | ⟨heq, -⟩
          · exact hcourse.not_calledFor_of_opened (List.mem_cons_self ..) u hu
          · omega
      exact hboth.congr fun a v => calledFor_snoc_iff.symm

end Went

/-! ## Ends of a scan over bytes in memory -/

/-- A scan over an image has come to an address, and the table is rewritten accordingly. -/
structure Reached (image : List UInt8) (before after : Bytes) (k : Nat) (opened : List Nat)
    (closed : List (Nat × Nat)) : Prop extends Passed image k opened closed where
  /-- The words of the loops closed so far are rewritten and nothing else. -/
  rewritten : Bytes.Rewritten before after (Destination image k)

/-- How a scan over an image can end in which no access fails and no poll asks to stop: the writes
it asks for, and the result. -/
inductive Ending (image : List UInt8) (before after : Bytes) :
    List (UInt64 × List UInt8) → Except ResolutionError Statistics → Prop
  /-- Every loop is closed. -/
  | finished {closed : List (Nat × Nat)} {statistics : Statistics} :
      Reached image before after image.length [] closed →
      Ending image before after (closed.flatMap pairPuts) (.ok statistics)
  /-- Some loops are left open, `o` the outermost of them. -/
  | leftOpen {opened : List Nat} {o : Nat} {closed : List (Nat × Nat)} :
      Reached image before after image.length (opened ++ [o]) closed →
      Ending image before after (closed.flatMap pairPuts) (.error (.unmatched (some (.ofNat o))))
  /-- No loop is open where one is closed. -/
  | stray {k : Nat} {closed : List (Nat × Nat)} : image[k]? = some closeByte →
      Reached image before after k [] closed →
      Ending image before after (closed.flatMap pairPuts) (.error (.unmatched (some (.ofNat k))))
  /-- A loop is closed that starts too far for a word. -/
  | farStart {k o : Nat} {opened : List Nat} {closed : List (Nat × Nat)} :
      image[k]? = some closeByte → 65535 < o →
      Reached image before after k (o :: opened) closed →
      Ending image before after (closed.flatMap pairPuts)
        (.error (.unencodable (.ofNat k) (.ofNat o)))
  /-- A loop is closed whose end is too far for a word; the word of the end is written already. -/
  | farEnd {k o : Nat} {opened : List Nat} {closed : List (Nat × Nat)} {reached : Bytes} :
      image[k]? = some closeByte → o ≤ 65535 → 65535 ≤ k →
      Reached image before reached k (o :: opened) closed →
      Bytes.Rewritten before after (fun a v => Destination image k a v ∨ (a = k ∧ v = o)) →
      Ending image before after (closed.flatMap pairPuts ++ [Scan.wordPut (.ofNat k) (.ofNat o)])
        (.error (.unencodable (.ofNat o) (.ofNat (k + 1))))

/-- A scan that succeeds has come to the end of the image with every loop closed. -/
theorem Ending.exists_reached {image : List UInt8} {before after : Bytes}
    {puts : List (UInt64 × List UInt8)} {statistics : Statistics}
    (h : Ending image before after puts (.ok statistics)) :
    ∃ closed, Reached image before after image.length [] closed := by
  cases h with
  | finished hreached => exact ⟨_, hreached⟩

section Memory

variable {σ μ : Type} {image : Bytes} {w : Writable σ} {view : σ → Bytes} {m : Monitor μ}
  {table : σ} {monitor : μ}

theorem HasRoom.toNat_size (h : HasRoom image (view table)) :
    (Readable.ofBytes image).size.toNat = image.size :=
  UInt64.toNat_ofNat_of_lt' h.image_lt

/-- An honest table is large enough for a scan exactly when it has two bytes for each
instruction. -/
theorem Writable.Honest.tooSmall_iff (hw : w.Honest view) (himage : image.size < UInt64.size)
    (htable : (view table).size < UInt64.size) :
    w.size table / Word.size < (Readable.ofBytes image).size ↔
      (view table).size < 2 * image.size := by
  have hsize : (Readable.ofBytes image).size.toNat = image.size :=
    UInt64.toNat_ofNat_of_lt' himage
  rw [Word.div_size_lt_iff, hw.size_eq, UInt64.toNat_ofNat_of_lt' htable, hsize]

/-- A scan into an honest table with fewer bytes is given up before anything is done. -/
theorem Writable.Honest.resolve_eq_of_lt (hw : w.Honest view) (himage : image.size < UInt64.size)
    (htable : (view table).size < UInt64.size) (hlt : (view table).size < 2 * image.size)
    (m : Monitor μ) (monitor : μ) :
    resolve (.ofBytes image) w m table monitor =
      ⟨.error (.tableTooSmall (.ofNat image.size) (.ofNat (view table).size)), table, monitor,
        []⟩ := by
  rw [resolve, if_pos ((hw.tooSmall_iff himage htable).2 hlt), hw.size_eq]
  rfl

/-- A table with room for the image is large enough. -/
theorem Writable.Honest.not_tooSmall (hw : w.Honest view) (hroom : HasRoom image (view table)) :
    ¬ w.size table / Word.size < (Readable.ofBytes image).size := by
  rw [hw.tooSmall_iff hroom.image_lt hroom.addressable]
  exact Nat.not_lt.2 hroom.enough

theorem Went.reached (hw : w.Honest view) (hroom : HasRoom image (view table))
    {bytes : List UInt8} {opened : List Nat} {closed : List (Nat × Nat)} {s : Scan σ μ}
    (h : Went (.ofBytes image) w m table monitor bytes opened closed s) :
    Reached image.toList (view table) (view s.table) bytes.length opened closed := by
  have hpassed := h.passed (Readable.reflects_ofBytes image)
  refine ⟨hpassed, ?_⟩
  refine (h.rewritten hw.faithful ?_).congr fun a v => hpassed.course.calledFor_iff
  rw [hroom.toNat_size]
  exact Nat.lt_of_le_of_lt hroom.enough hroom.addressable

/-- A byte of the image is what a scan reads there. -/
theorem getElem?_toList_of_read (hroom : HasRoom image (view table)) {k : Nat}
    (hk : k < image.size) {byte : UInt8} (hread : Bytes.read image (.ofNat k) = .ok byte) :
    image.toList[k]? = some byte := by
  rw [Bytes.read_eq_ok_iff, UInt64.toNat_ofNat_of_lt' (Nat.lt_trans hk hroom.image_lt)] at hread
  rwa [Array.getElem?_toList]

/-- No byte of the image is unreadable. -/
theorem HasRoom.read_ne_error (hroom : HasRoom image (view table)) {k : Nat} (hk : k < image.size)
    (fault : Fault) : Bytes.read image (.ofNat k) ≠ .error fault := by
  have hok : Bytes.read image (.ofNat k) = .ok image[k] := by
    rw [Bytes.read_eq_ok_iff, UInt64.toNat_ofNat_of_lt' (Nat.lt_trans hk hroom.image_lt),
      Array.getElem?_eq_getElem hk]
  rw [hok]
  exact fun heq => by cases heq

/-- The end of a loop that cannot be settled in an honest table is too far, or its start is. -/
theorem Settled.ending (hw : w.Honest view) (hroom : HasRoom image (view table))
    {bytes : List UInt8} {o : Nat} {opened : List Nat} {closed : List (Nat × Nat)}
    {s s' : Scan σ μ} {cause : ResolutionError}
    (hwent : Went (.ofBytes image) w m table monitor bytes (o :: opened) closed s)
    (hclose : image.toList[bytes.length]? = some closeByte)
    (h : Settled w (.ofNat o) (.ofNat bytes.length) (s.asked m (.ofNat bytes.length)).taken
      (.error cause s')) :
    Ending image.toList (view table) (view s'.table) s'.puts (.error cause) := by
  have hreached := hwent.reached hw hroom
  have hoc := hwent.course.opened_lt o (List.mem_cons_self ..)
  have hlt := (List.getElem?_eq_some_iff.1 hclose).1
  have hlength : image.toList.length = image.size := Array.length_toList
  have henough := hroom.enough
  have hsmall := hroom.addressable
  have hrewritten : Bytes.Rewritten (view table)
      (view (s.asked m (.ofNat bytes.length)).taken.table) _ := hreached.rewritten
  have htable := hrewritten.size_eq
  rcases h.honest hw hoc (by omega) (by omega) with
    ⟨hfar, heq⟩ | ⟨hnear, hfar, heq⟩ | ⟨-, heq⟩
  · obtain ⟨rfl, rfl⟩ := EStateM.Result.error.inj heq
    rw [Scan.puts_taken, Scan.puts_asked, hwent.puts_eq]
    exact .farStart hclose hfar hreached
  · obtain ⟨rfl, rfl⟩ := EStateM.Result.error.inj heq
    rw [Scan.puts_wordSent, Scan.puts_taken, Scan.puts_asked, hwent.puts_eq]
    refine .farEnd hclose hnear hfar hreached ?_
    refine hw.faithful.rewritten_wordSent hrewritten (by omega) (by omega)
      (hw.wordAnswer_eq (by omega) (by omega) (by omega)) fun u hu => ?_
    have hentry := hreached.course.calledFor_lt (hreached.course.calledFor_iff.2 hu)
    rw [hreached.length_take] at hentry
    exact Nat.lt_irrefl _ hentry
  · cases heq

/-- A visit that fails without being cancelled meets the end of a loop. -/
theorem Visited.ending (hw : w.Honest view) (hroom : HasRoom image (view table))
    {bytes : List UInt8} {opened : List Nat} {closed : List (Nat × Nat)}
    {s s' : Scan σ μ} {cause : ResolutionError}
    (hwent : Went (.ofBytes image) w m table monitor bytes opened closed s)
    (hlt : bytes.length < image.size) (hcause : cause ≠ .cancelled)
    (h : Visited (.ofBytes image) w m (.ofNat bytes.length) s (.error cause s')) :
    Ending image.toList (view table) (view s'.table) s'.puts (.error cause) := by
  have hreached := hwent.reached hw hroom
  cases h with
  | cancelled => exact absurd rfl hcause
  | unreadable _ hread => exact absurd hread (hroom.read_ne_error hlt _)
  | stray _ hread hpeek =>
    rw [hwent.peek?_eq, Option.map_eq_none_iff, List.head?_eq_none_iff] at hpeek
    subst hpeek
    rw [Scan.puts_logged, Scan.puts_taken, Scan.puts_asked, hwent.puts_eq]
    exact .stray (getElem?_toList_of_read hroom hlt hread) hreached
  | closed _ hread hpeek hsettled =>
    obtain ⟨o, rest, rfl, rfl⟩ := hwent.eq_cons_of_peek? hpeek
    exact hsettled.ending hw hroom hwent (getElem?_toList_of_read hroom hlt hread)

/-- A scan over bytes in memory that is not cancelled ends in one of the ways listed. -/
theorem ending_resolve (hw : w.Honest view) (hroom : HasRoom image (view table))
    (hcancelled : (resolve (.ofBytes image) w m table monitor).result ≠ .error .cancelled) :
    Ending image.toList (view table) (view (resolve (.ofBytes image) w m table monitor).table)
      (resolve (.ofBytes image) w m table monitor).puts
      (resolve (.ofBytes image) w m table monitor).result := by
  have hsize := hroom.toNat_size
  have hended := ended_resolve (.ofBytes image) w m table monitor
  generalize resolve (.ofBytes image) w m table monitor = outcome at hended hcancelled ⊢
  cases hended with
  | tooSmall h => exact absurd h (hw.not_tooSmall hroom)
  | leftOpen _ hwent hlength =>
    have hreached := hwent.reached hw hroom
    rw [hlength, hsize, ← Array.length_toList] at hreached
    rw [Outcome.puts_ofResult_error, Scan.puts_logged, hwent.puts_eq]
    exact .leftOpen hreached
  | finished _ hwent hlength =>
    have hreached := hwent.reached hw hroom
    rw [hlength, hsize, ← Array.length_toList] at hreached
    rw [Outcome.puts_ofResult_ok, Scan.puts_logged, hwent.puts_eq]
    exact .finished hreached
  | stopped _ hwent hlt hvisited =>
    rw [hsize] at hlt
    refine hvisited.ending hw hroom hwent hlt ?_
    rintro rfl
    exact hcancelled rfl

end Memory

end LoopTable
