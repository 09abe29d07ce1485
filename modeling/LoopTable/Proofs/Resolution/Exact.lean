import LoopTable.Proofs.Resolution.Ending

/-!
# What a scan accepts, what it writes and how it fails

How a scan over bytes in memory ends when its monitor never asks to stop, told by the image alone.

* `resolve_ok_iff_balanced`: a scan succeeds exactly on the balanced images whose loops end before
  the last destination, and then it writes the words of the matched pairs and nothing else.
* `resolve_failure_exact`: which of the ways to fail it takes, with which address, and which words
  it has written by then.

The second is read off a `Verdict`, which decides by the image alone what the result has to be: at
the first address that blocks, or behind the image when none does.
-/

namespace LoopTable

/-! ## Acceptance -/

namespace Ending

variable {image : List UInt8} {before after : Bytes} {puts : List (UInt64 × List UInt8)}
  {result : Except ResolutionError Statistics}

/-- A scan comes to its end well exactly on balanced images whose loops end early enough. -/
theorem ok_iff (h : Ending image before after puts result) :
    (∃ statistics, result = .ok statistics) ↔
      Balanced image ∧ ∀ c, image[c]? = some closeByte → c < 65535 := by
  cases h with
  | @finished closed statistics hreached =>
    refine ⟨fun _ => ⟨?_, fun c hclose => ?_⟩, fun _ => ⟨statistics, rfl⟩⟩
    · have hbalanced := hreached.course.balanced
      rwa [List.take_length] at hbalanced
    · obtain ⟨o, -, hlt⟩ := hreached.exists_opening (List.getElem?_eq_some_iff.1 hclose).1 hclose
      exact hlt
  | leftOpen hreached =>
    refine ⟨fun ⟨_, heq⟩ => (by cases heq), fun ⟨hbalanced, _⟩ => ?_⟩
    have hdepth := hreached.depthAfter_eq
    rw [hbalanced.depthAfter_length, List.length_append, List.length_singleton] at hdepth
    omega
  | @stray k closed hclose hreached =>
    refine ⟨fun ⟨_, heq⟩ => (by cases heq), fun ⟨hbalanced, _⟩ => ?_⟩
    have hdepth := hreached.depthAfter_eq
    have hbelow := hbalanced.depthAfter_nonneg (k + 1)
    rw [depthAfter_succ_of_close hclose, hdepth, List.length_nil] at hbelow
    omega
  | farStart hclose hfar hreached =>
    refine ⟨fun ⟨_, heq⟩ => (by cases heq), fun ⟨_, hnear⟩ => ?_⟩
    have := (hreached.matched_next hclose).lt
    have := hnear _ hclose
    omega
  | farEnd hclose _ hfar _ _ =>
    refine ⟨fun ⟨_, heq⟩ => (by cases heq), fun ⟨_, hnear⟩ => ?_⟩
    have := hnear _ hclose
    omega

end Ending

section Memory

variable {σ μ : Type} {image : Bytes} {w : Writable σ} {view : σ → Bytes} {m : Monitor μ}
  {table : σ} {monitor : μ}

theorem ending_of_quiet (hw : w.Honest view) (hroom : HasRoom image (view table))
    (hquiet : m.Quiet (.ofNat image.size) monitor) :
    Ending image.toList (view table) (view (resolve (.ofBytes image) w m table monitor).table)
      (resolve (.ofBytes image) w m table monitor).puts
      (resolve (.ofBytes image) w m table monitor).result :=
  ending_resolve hw hroom (result_ne_cancelled hquiet w table)

/-- **Acceptance and output.** A scan that is not asked to stop succeeds exactly on balanced images
without an end of a loop at address 65535 or behind. Then the word of each end is the address of its
start, the word of each start is the address behind its end, and every other byte of the table is as
it was. -/
theorem resolve_ok_iff_balanced (hw : w.Honest view) (hroom : HasRoom image (view table))
    (hquiet : m.Quiet (.ofNat image.size) monitor) :
    let outcome := resolve (.ofBytes image) w m table monitor
    ((∃ statistics, outcome.result = .ok statistics) ↔
      Balanced image.toList ∧ ∀ c, image[c]? = some closeByte → c < 0xFFFF) ∧
    ((∃ statistics, outcome.result = .ok statistics) →
      (view outcome.table).size = (view table).size ∧
      (∀ o c, Matched image.toList o c →
        (view outcome.table).HoldsWord c o ∧ (view outcome.table).HoldsWord o (c + 1)) ∧
      ∀ i, (∀ o c, Matched image.toList o c → i / 2 ≠ o ∧ i / 2 ≠ c) →
        (view outcome.table)[i]? = (view table)[i]?) := by
  intro outcome
  have hending : Ending image.toList (view table) (view outcome.table) outcome.puts
      outcome.result := ending_of_quiet hw hroom hquiet
  refine ⟨?_, fun ⟨statistics, hok⟩ => ?_⟩
  · simpa only [Array.getElem?_toList] using hending.ok_iff
  · rw [hok] at hending
    obtain ⟨closed, hreached⟩ := hending.exists_reached
    have hrewritten := hreached.rewritten
    refine ⟨hrewritten.size_eq, fun o c hm => ⟨?_, ?_⟩, fun i hi => hrewritten.frame i ?_⟩
    · exact hrewritten.holds c o ⟨o, c, hm, hm.closing_lt_length, Or.inl ⟨rfl, rfl⟩⟩
    · exact hrewritten.holds o (c + 1) ⟨o, c, hm, hm.closing_lt_length, Or.inr ⟨rfl, rfl⟩⟩
    · rintro v ⟨o, c, hm, -, ⟨heq, -⟩ | ⟨heq, -⟩⟩
      · exact (hi o c hm).2 heq
      · exact (hi o c hm).1 heq

/-- A loop inside a loop, with a byte behind the inner one, is accepted. -/
theorem resolve_ok_nested :
    Writable.bytes.Honest id ∧ HasRoom #[6, 6, 7, 2, 7] (.zeros 12) ∧
      Monitor.silent.Quiet (.ofNat 5) () ∧
      ∃ statistics, (resolve (.ofBytes #[6, 6, 7, 2, 7]) .bytes .silent (.zeros 12) ()).result =
        .ok statistics := by
  have hroom : HasRoom #[6, 6, 7, 2, 7] (.zeros 12) := ⟨by decide, by decide⟩
  have hbody : Balanced [6, 7, 2] := .append (.loop .nil) (.inert ⟨by decide, by decide⟩)
  have hbalanced : Balanced [6, 6, 7, 2, 7] := .loop hbody
  refine ⟨Writable.honest_bytes, hroom, Monitor.quiet_silent _, ?_⟩
  refine (resolve_ok_iff_balanced Writable.honest_bytes hroom (Monitor.quiet_silent _)).1.2
    ⟨hbalanced, fun c hclose => ?_⟩
  have hc : c < 5 := (Array.getElem?_eq_some_iff.1 hclose).1
  omega

end Memory

/-! ## Failure -/

/-- What the image says about how a scan over it ends: the result, and the words of the table that
are rewritten by then. -/
structure Verdict (image : List UInt8) (before after : Bytes)
    (result : Except ResolutionError Statistics) : Prop where
  /-- There is nothing to close at the first address that blocks. -/
  stray : ∀ e, FirstBlock image e → (∀ o, ¬ Unclosed image e o) →
    result = .error (.unmatched (some (.ofNat e))) ∧
      Bytes.Rewritten before after (Destination image e)
  /-- The loop closed there starts near enough for the word of its end, but no word leads behind
  it. -/
  farEnd : ∀ e o, FirstBlock image e → Matched image o e → o ≤ 0xFFFF →
    result = .error (.unencodable (.ofNat o) (.ofNat (e + 1))) ∧
      Bytes.Rewritten before after fun a v => Destination image e a v ∨ (a = e ∧ v = o)
  /-- The loop closed there starts too far already for the word of its end. -/
  farStart : ∀ e o, FirstBlock image e → Matched image o e → 0xFFFF < o →
    result = .error (.unencodable (.ofNat e) (.ofNat o)) ∧
      Bytes.Rewritten before after (Destination image e)
  /-- No address blocks, and the loop opened at `a` is the first that is never closed. -/
  leftOpen : ∀ a, (∀ e, ¬ Blocks image e) → Unclosed image image.length a →
    (∀ b, Unclosed image image.length b → a ≤ b) →
    result = .error (.unmatched (some (.ofNat a))) ∧
      Bytes.Rewritten before after (Destination image image.length)
  /-- No address blocks, and every loop is closed. -/
  finished : (∀ e, ¬ Blocks image e) → (∀ a, ¬ Unclosed image image.length a) →
    (∃ statistics, result = .ok statistics) ∧
      Bytes.Rewritten before after (Destination image image.length)
  /-- At the first address that blocks, there is nothing to close or there is a loop. -/
  blocked : ∀ e, FirstBlock image e → (∀ o, ¬ Unclosed image e o) ∨ ∃ o, Matched image o e
  /-- There are no other failures. -/
  cause : ∀ cause, result = .error cause →
    (∃ a, cause = .unmatched (some a)) ∨ ∃ a v, cause = .unencodable a v

namespace Verdict

variable {image : List UInt8} {before after : Bytes}
  {result : Except ResolutionError Statistics}

/-- The verdict on an image without an address that blocks. -/
theorem of_not_blocks (hfree : ∀ e, ¬ Blocks image e)
    (hopen : ∀ a, Unclosed image image.length a →
      (∀ b, Unclosed image image.length b → a ≤ b) → result = .error (.unmatched (some (.ofNat a))))
    (hclosed : (∀ a, ¬ Unclosed image image.length a) → ∃ statistics, result = .ok statistics)
    (hcause : ∀ cause, result = .error cause → ∃ a, cause = .unmatched (some a))
    (hrewritten : Bytes.Rewritten before after (Destination image image.length)) :
    Verdict image before after result where
  stray := fun e he => absurd he.blocks (hfree e)
  farEnd := fun e _ he => absurd he.blocks (hfree e)
  farStart := fun e _ he => absurd he.blocks (hfree e)
  leftOpen := fun a _ ha hfirst => ⟨hopen a ha hfirst, hrewritten⟩
  finished := fun _ hall => ⟨hclosed hall, hrewritten⟩
  blocked := fun e he => absurd he.blocks (hfree e)
  cause := fun cause heq => Or.inl (hcause cause heq)

/-- The verdict on an image whose first address that blocks has nothing to close. -/
theorem of_stray {k : Nat} (hfirst : FirstBlock image k) (hfree : ∀ o, ¬ Unclosed image k o)
    (hrewritten : Bytes.Rewritten before after (Destination image k)) :
    Verdict image before after (.error (.unmatched (some (.ofNat k)))) where
  stray := fun e he _ => by
    rw [he.unique hfirst]
    exact ⟨rfl, hrewritten⟩
  farEnd := fun e o he hm => absurd (he.unique hfirst ▸ hm.unclosed) (hfree o)
  farStart := fun e o he hm => absurd (he.unique hfirst ▸ hm.unclosed) (hfree o)
  leftOpen := fun _ hnone => absurd hfirst.blocks (hnone k)
  finished := fun hnone => absurd hfirst.blocks (hnone k)
  blocked := fun e he => Or.inl (he.unique hfirst ▸ hfree)
  cause := fun cause heq => Or.inl ⟨_, (Except.error.inj heq).symm⟩

/-- The verdict on an image whose first address that blocks is the end of a loop. -/
theorem of_matched {k o : Nat} (hfirst : FirstBlock image k) (hmatched : Matched image o k)
    (hnear : o ≤ 65535 → result = .error (.unencodable (.ofNat o) (.ofNat (k + 1))) ∧
      Bytes.Rewritten before after fun a v => Destination image k a v ∨ (a = k ∧ v = o))
    (hfar : 65535 < o → result = .error (.unencodable (.ofNat k) (.ofNat o)) ∧
      Bytes.Rewritten before after (Destination image k)) :
    Verdict image before after result where
  stray := fun e he hfree => absurd (he.unique hfirst ▸ hmatched.unclosed) (hfree o)
  farEnd := fun e o' he hm => by
    obtain rfl := he.unique hfirst
    obtain rfl := hm.opening_unique hmatched
    exact hnear
  farStart := fun e o' he hm => by
    obtain rfl := he.unique hfirst
    obtain rfl := hm.opening_unique hmatched
    exact hfar
  leftOpen := fun _ hnone => absurd hfirst.blocks (hnone k)
  finished := fun hnone => absurd hfirst.blocks (hnone k)
  blocked := fun e he => Or.inr ⟨o, he.unique hfirst ▸ hmatched⟩
  cause := fun cause heq => by
    rcases Nat.lt_or_ge 65535 o with hlt | hge
    · exact Or.inr ⟨_, _, Except.error.inj (heq.symm.trans (hfar hlt).1)⟩
    · exact Or.inr ⟨_, _, Except.error.inj (heq.symm.trans (hnear hge).1)⟩

end Verdict

/-- However a scan ends, it ends as the image says. -/
theorem Ending.verdict {image : List UInt8} {before after : Bytes}
    {puts : List (UInt64 × List UInt8)} {result : Except ResolutionError Statistics}
    (h : Ending image before after puts result) :
    Verdict image before after result := by
  cases h with
  | @finished closed statistics hreached =>
    have hclosed : ∀ a, ¬ Unclosed image image.length a := fun a ha =>
      List.not_mem_nil (hreached.mem_opened_iff.2 ha)
    refine .of_not_blocks hreached.not_blocks_of_length (fun a ha => absurd ha (hclosed a))
      (fun _ => ⟨statistics, rfl⟩) (fun cause heq => ?_) hreached.rewritten
    cases heq
  | @leftOpen opened o closed hreached =>
    have ho : Unclosed image image.length o := hreached.mem_opened_iff.1 (by simp)
    have hleast : ∀ a, Unclosed image image.length a → o ≤ a := by
      intro a ha
      have horder := List.pairwise_append.1 hreached.course.pairwise_opened
      rcases List.mem_append.1 (hreached.mem_opened_iff.2 ha) with ha | ha
      · exact Nat.le_of_lt (horder.2.2 a ha o (List.mem_singleton_self o))
      · exact Nat.le_of_eq (List.mem_singleton.1 ha).symm
    refine .of_not_blocks hreached.not_blocks_of_length (fun a ha hfirst => ?_)
      (fun hclosed => absurd ho (hclosed o)) (fun cause heq => ?_) hreached.rewritten
    · rw [Nat.le_antisymm (hfirst o ho) (hleast a ha)]
    · exact ⟨_, (Except.error.inj heq).symm⟩
  | @stray k closed hclose hreached =>
    have hfree : ∀ o, ¬ Unclosed image k o := fun o ho =>
      List.not_mem_nil (hreached.mem_opened_iff.2 ho)
    exact .of_stray (hreached.firstBlock ⟨hclose, Or.inl hfree⟩) hfree hreached.rewritten
  | @farStart k o opened closed hclose hfar hreached =>
    have hmatched := hreached.matched_next hclose
    have hk : 65535 ≤ k := Nat.le_of_lt (Nat.lt_trans hfar hmatched.lt)
    exact .of_matched (hreached.firstBlock ⟨hclose, Or.inr hk⟩) hmatched
      (fun hnear => absurd hfar (Nat.not_lt.2 hnear)) (fun _ => ⟨rfl, hreached.rewritten⟩)
  | farEnd hclose hnear hk hreached hrewritten =>
    exact .of_matched (hreached.firstBlock ⟨hclose, Or.inr hk⟩) (hreached.matched_next hclose)
      (fun _ => ⟨rfl, hrewritten⟩) (fun hfar => absurd hfar (Nat.not_lt.2 hnear))

section Memory

variable {σ μ : Type} {image : Bytes} {w : Writable σ} {view : σ → Bytes} {m : Monitor μ}
  {table : σ} {monitor : μ}

/-- **Failure.** How a scan ends that is not asked to stop, and what it has written by then, is
what the image says. -/
theorem resolve_failure_exact (hw : w.Honest view) (hroom : HasRoom image (view table))
    (hquiet : m.Quiet (.ofNat image.size) monitor) :
    let outcome := resolve (.ofBytes image) w m table monitor
    Verdict image.toList (view table) (view outcome.table) outcome.result :=
  (ending_of_quiet hw hroom hquiet).verdict

/-- A scan stops at the second of two ends for one start. -/
theorem resolve_failure_stray :
    Writable.block.Honest Block.bytes ∧
      HasRoom #[6, 7, 7, 6] (Block.zeroed tableBlockName 4 8).bytes ∧
      Monitor.silent.Quiet (.ofNat 4) () ∧ FirstBlock [6, 7, 7, 6] 2 ∧
      (resolve (.ofBytes #[6, 7, 7, 6]) .block .silent (.zeroed tableBlockName 4 8) ()).result =
        .error (.unmatched (some 2)) := by
  have hroom : HasRoom #[6, 7, 7, 6] (Block.zeroed tableBlockName 4 8).bytes :=
    ⟨by decide, by decide⟩
  have hloop : Matched [6, 7, 7, 6] 0 1 := ⟨by decide, rfl, rfl, .nil⟩
  have hfree : ∀ o, ¬ Unclosed [6, 7, 7, 6] 2 o := by
    rintro o ⟨hlt, hopen, hnever⟩
    rcases o with _ | _ | o
    · exact hnever 1 (by decide) hloop
    · cases hopen
    · omega
  have hfirst : FirstBlock [6, 7, 7, 6] 2 := by
    refine ⟨⟨rfl, Or.inl hfree⟩, fun e ⟨hclose, hblock⟩ => ?_⟩
    rcases e with _ | _ | e
    · cases hclose
    · rcases hblock with hnone | hfar
      · exact absurd hloop.unclosed (hnone 0)
      · omega
    · omega
  have hverdict := resolve_failure_exact Writable.honest_block hroom (Monitor.quiet_silent _)
  exact ⟨Writable.honest_block, hroom, Monitor.quiet_silent _, hfirst,
    (hverdict.stray 2 hfirst hfree).1⟩

end Memory

end LoopTable
