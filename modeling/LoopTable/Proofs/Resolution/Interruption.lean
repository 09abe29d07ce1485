import LoopTable.Proofs.Resolution.Calls
import LoopTable.Proofs.Resolution.Ending

/-!
# Interrupted scans

A scan can be interrupted in many ways: the monitor asks to stop, a byte cannot be read, a write is
refused, the image is shorter or longer than it claims to be, or the table is. Whatever happens, the
writes it has asked for are the first of those that an undisturbed scan of the same image asks for,
and it makes no call after one that failed (`resolve_puts_isPrefix_of_reflects`).

Two scans of one image are compared by the addresses where they stop. Up to the nearer one both have
closed the same loops in the same order (`Passed.closed_isPrefix_of_le`), so only the writes at that
very address remain. `Sent` lists what can be asked for there, and a scan that nothing interrupts
has asked for all of it (`Ending.exists_longest`).
-/

namespace LoopTable

/-! ## Writes up to an address -/

/-- The writes that a scan can have asked for at the address where it stops. -/
inductive Sent (image : List UInt8) (k : Nat) : List Nat → List (UInt64 × List UInt8) → Prop
  /-- None. -/
  | nothing {opened : List Nat} : Sent image k opened []
  /-- The word of the end of a loop, which leads to its start. -/
  | ofEnd {o : Nat} {opened : List Nat} : image[k]? = some closeByte → o ≤ 65535 →
      Sent image k (o :: opened) [Scan.wordPut (.ofNat k) (.ofNat o)]
  /-- The word of the start as well, which leads behind the end. -/
  | both {o : Nat} {opened : List Nat} : image[k]? = some closeByte → k < 65535 →
      Sent image k (o :: opened) (pairPuts (o, k))

/-- The writes that a scan of an image asked for before it stopped at some address. -/
inductive Halted (image : List UInt8) (k : Nat) (opened : List Nat) :
    List (UInt64 × List UInt8) → Prop
  | mk {closed : List (Nat × Nat)} {last : List (UInt64 × List UInt8)} :
      Passed image k opened closed → Sent image k opened last →
      Halted image k opened (closed.flatMap pairPuts ++ last)

section Settled

variable {σ μ : Type} {w : Writable σ} {s s' : Scan σ μ} {o k : Nat} {cause : ResolutionError}

/-- The end of a loop that cannot be settled has asked for its own word at most, or for both. -/
theorem Settled.sent (h : Settled w (.ofNat o) (.ofNat k) s (.error cause s'))
    {image : List UInt8} (hclose : image[k]? = some closeByte) (hok : o < k)
    (hk : k + 1 < UInt64.size) (opened : List Nat) :
    ∃ last, Sent image k (o :: opened) last ∧ s'.puts = s.puts ++ last := by
  have hstart : UInt64.ofNat o > Word.maxDestination ↔ 65535 < o :=
    ofNat_gt_maxDestination_iff (by omega)
  have hend : UInt64.ofNat k + 1 > Word.maxDestination ↔ 65535 ≤ k :=
    ofNat_succ_gt_maxDestination_iff hk
  cases h with
  | farStart => exact ⟨[], .nothing, (List.append_nil _).symm⟩
  | faultAtEnd hnear _ | farEnd hnear _ _ =>
    rw [hstart] at hnear
    exact ⟨_, .ofEnd hclose (Nat.le_of_not_lt hnear), Scan.puts_wordSent ..⟩
  | faultAtStart _ _ hnear _ =>
    rw [hend] at hnear
    refine ⟨_, .both hclose (by omega), ?_⟩
    rw [Scan.puts_wordSent, Scan.puts_wordSent, List.append_assoc]
    rfl

end Settled

section Prefix

variable {image : List UInt8} {k k' : Nat} {opened opened' : List Nat}
  {puts puts' : List (UInt64 × List UInt8)}

/-- What was asked for at an address that can be passed is asked for by every scan that passes
it. -/
theorem Halted.puts_isPrefix_of_lt (h : Halted image k opened puts)
    {closed' : List (Nat × Nat)} (h' : Passed image k' opened' closed') (hk : k < k') :
    puts <+: closed'.flatMap pairPuts := by
  have hclosed : ∀ {more : List (Nat × Nat)}, more <+: closed' →
      more.flatMap pairPuts <+: closed'.flatMap pairPuts := by
    rintro more ⟨rest, rfl⟩
    rw [List.flatMap_append]
    exact List.prefix_append _ _
  obtain @⟨closed, last, hpassed, hsent⟩ := h
  cases hsent with
  | nothing =>
    rw [List.append_nil]
    exact hclosed (hpassed.closed_isPrefix_of_le h' (Nat.le_of_lt hk))
  | @ofEnd o opened hclose _ =>
    obtain ⟨-, -, hnear⟩ := h'.exists_opening hk hclose
    have hboth := hclosed ((hpassed.close hclose hnear).closed_isPrefix_of_le h' hk)
    rw [List.flatMap_append, List.flatMap_singleton] at hboth
    refine List.IsPrefix.trans ?_ hboth
    exact (List.prefix_append_right_inj _).2 ⟨[_], rfl⟩
  | @both o opened hclose hnear =>
    have hboth := hclosed ((hpassed.close hclose hnear).closed_isPrefix_of_le h' hk)
    rwa [List.flatMap_append, List.flatMap_singleton] at hboth

/-- Nothing is asked for behind the image. -/
theorem Sent.eq_nil {last : List (UInt64 × List UInt8)} (h : Sent image image.length opened last) :
    last = [] := by
  cases h with
  | nothing => rfl
  | ofEnd hclose | both hclose =>
    rw [List.getElem?_eq_none (Nat.le_refl _)] at hclose
    cases hclose

/-- A scan that nothing interrupts stops behind the image or at an address that blocks, with all
writes asked for that can be asked for there. -/
theorem Ending.exists_longest {before after : Bytes}
    {result : Except ResolutionError Statistics} (h : Ending image before after puts result) :
    ∃ k opened closed last, Passed image k opened closed ∧ (k = image.length ∨ Blocks image k) ∧
      puts = closed.flatMap pairPuts ++ last ∧
      ∀ sent, Sent image k opened sent → sent <+: last := by
  cases h with
  | finished hreached | leftOpen hreached =>
    refine ⟨_, _, _, [], hreached.toPassed, Or.inl rfl, (List.append_nil _).symm, ?_⟩
    intro sent hsent
    obtain rfl := hsent.eq_nil
    exact List.prefix_refl _
  | stray hclose hreached =>
    refine ⟨_, _, _, [], hreached.toPassed, Or.inr (hreached.blocks_of_nil hclose),
      (List.append_nil _).symm, ?_⟩
    rintro sent ⟨⟩
    exact List.nil_prefix
  | farStart hclose hfar hreached =>
    have hlt := (hreached.matched_next hclose).lt
    refine ⟨_, _, _, [], hreached.toPassed, Or.inr ⟨hclose, Or.inr (by omega)⟩,
      (List.append_nil _).symm, ?_⟩
    rintro sent (_ | ⟨-, hnear⟩ | ⟨-, hnear⟩)
    · exact List.nil_prefix
    · omega
    · omega
  | farEnd hclose _ hfar hreached _ =>
    refine ⟨_, _, _, _, hreached.toPassed, Or.inr ⟨hclose, Or.inr hfar⟩, rfl, ?_⟩
    rintro sent (_ | ⟨-, -⟩ | ⟨-, hnear⟩)
    · exact List.nil_prefix
    · exact List.prefix_refl _
    · omega

/-- Wherever a scan stops, it has asked for the first writes of the scan that nothing interrupts. -/
theorem Halted.puts_isPrefix_of_ending (h : Halted image k opened puts) {before after : Bytes}
    {result : Except ResolutionError Statistics} (h' : Ending image before after puts' result) :
    puts <+: puts' := by
  obtain ⟨k', opened', closed', last', hpassed', hstop, rfl, hlongest⟩ := h'.exists_longest
  have hcases : k < k' ∨ k = k' := by
    obtain ⟨hpassed, -⟩ := h
    refine Nat.lt_or_eq_of_le (Nat.le_of_not_lt fun hlt => ?_)
    rcases hstop with rfl | hblocks
    · exact Nat.not_lt.2 hpassed.le_length hlt
    · exact hpassed.not_blocks hlt hblocks
  rcases hcases with hlt | rfl
  · exact (h.puts_isPrefix_of_lt hpassed' hlt).trans (List.prefix_append _ _)
  · obtain ⟨hpassed, hsent⟩ := h
    obtain ⟨rfl, rfl⟩ := hpassed.unique hpassed'
    exact (List.prefix_append_right_inj _).2 (hlongest _ hsent)

end Prefix

section Run

variable {σ μ : Type} {image : Bytes} {region : Readable}

/-- Whatever interrupts a scan over a region that reflects an image, it stops at an address of the
image or right behind it. -/
theorem halted_resolve (hr : region.Reflects image) (w : Writable σ) (m : Monitor μ) (table : σ)
    (monitor : μ) :
    ∃ k opened, Halted image.toList k opened (resolve region w m table monitor).puts := by
  have hwell : ∀ {bytes : List UInt8} {opened : List Nat} {closed : List (Nat × Nat)}
      {s : Scan σ μ}, Went region w m table monitor bytes opened closed s →
      ∃ k opened, Halted image.toList k opened s.puts := by
    intro bytes opened closed s hwent
    rw [hwent.puts_eq, ← List.append_nil (closed.flatMap pairPuts)]
    exact ⟨_, _, .mk (hwent.passed hr) .nothing⟩
  have hended := ended_resolve region w m table monitor
  generalize resolve region w m table monitor = outcome at hended ⊢
  cases hended with
  | tooSmall => exact hwell .start
  | leftOpen _ hwent _ | finished _ hwent _ => simpa using hwell hwent
  | @stopped bytes opened closed s s' cause _ hwent hlt hvisited =>
    cases hvisited with
    | cancelled | unreadable | stray => simpa using hwell hwent
    | closed _ hread hpeek hsettled =>
      obtain ⟨o, rest, rfl, rfl⟩ := hwent.eq_cons_of_peek? hpeek
      have hbyte := hr _ _ hread
      have hsize := region.size.toNat_lt_size
      rw [UInt64.toNat_ofNat_of_lt' (by omega), ← Array.getElem?_toList] at hbyte
      obtain ⟨last, hsent, hputs⟩ := hsettled.sent hbyte
        (hwent.course.opened_lt o (List.mem_cons_self ..)) (by omega) rest
      rw [Outcome.puts_ofResult_error, hputs, Scan.puts_taken, Scan.puts_asked, hwent.puts_eq]
      exact ⟨_, _, .mk (hwent.passed hr) hsent⟩

variable {μ₀ : Type} {w : Writable σ} {m : Monitor μ} {table : σ} {monitor : μ} {m₀ : Monitor μ₀}
  {monitor₀ : μ₀} {table₀ : Bytes}

/-- **Interruption.** Let `whole` be a scan of an image in memory that is not asked to stop. Any
other scan over a region that answers with the bytes of that image, where it answers, asks for the
first writes of `whole`. All of them but possibly the last are accepted, and after a read or a write
that failed nothing is done. -/
theorem resolve_puts_isPrefix_of_reflects (hr : region.Reflects image)
    (hroom : HasRoom image table₀) (hquiet : m₀.Quiet (.ofNat image.size) monitor₀) :
    let whole := resolve (.ofBytes image) .bytes m₀ table₀ monitor₀
    let outcome := resolve region w m table monitor
    outcome.puts <+: whole.puts ∧
    (∀ before put after, outcome.puts = before ++ put :: after → after ≠ [] →
      (w.put put.1 put.2 (w.replay table before)).1 = .ok ()) ∧
    (∀ before event after, outcome.events = before ++ event :: after →
      event.Fails region w (w.replay table (before.filterMap Event.put?)) → after = []) := by
  intro whole outcome
  obtain ⟨k, opened, hhalted⟩ := halted_resolve hr w m table monitor
  have hwhole := ending_resolve Writable.honest_bytes hroom
    (result_ne_cancelled hquiet .bytes table₀)
  exact ⟨hhalted.puts_isPrefix_of_ending hwhole, fun _ _ _ => put_accepted,
    fun _ _ _ => eq_nil_of_fails⟩

/-- A table that refuses the third of four writes, while both regions claim too large a size. -/
theorem resolve_puts_isPrefix_refused :
    let region := ((Readable.ofBytes #[6, 7, 6, 7]).failingFrom 4 .isDirectory).claiming 9
    let w := (Writable.bytes.failingFrom 6 .isDirectory).claiming 64
    let whole := resolve (.ofBytes #[6, 7, 6, 7]) .bytes .silent (.zeros 8) ()
    let outcome := resolve region w .silent (.zeros 8) ()
    region.Reflects #[6, 7, 6, 7] ∧ HasRoom #[6, 7, 6, 7] (.zeros 8) ∧
      Monitor.silent.Quiet (.ofNat 4) () ∧ outcome.puts <+: whole.puts := by
  intro region w whole outcome
  have hr : region.Reflects #[6, 7, 6, 7] :=
    ((Readable.reflects_ofBytes _).failingFrom 4 .isDirectory).claiming 9
  have hroom : HasRoom #[6, 7, 6, 7] (.zeros 8) := ⟨by decide, by decide⟩
  exact ⟨hr, hroom, Monitor.quiet_silent _,
    (resolve_puts_isPrefix_of_reflects hr hroom (Monitor.quiet_silent _)).1⟩

end Run

end LoopTable
