import Mathlib.Logic.Relation
import LoopTable.Proofs.Resolution.Agreement
import LoopTable.Proofs.Resolution.Replay

/-!
# Scanning again

A table on which scans were interrupted is none the worse for it: one more scan that nothing
disturbs gives the result and leaves the bytes that a single such scan of the original table would
have given and left (`resolve_heals`).

Whatever interrupts a scan, it has written only where the undisturbed scan writes as well, since it
has asked for the first writes of that one. So after any number of attempts the table agrees with
the original outside of those writes (`agreeOutside_of_attempts`), and the next scan overwrites the
rest.
-/

namespace LoopTable

/-- A scan of an image, however it ended, has changed the bytes of a table. The image may be
unreadable in places, the table may refuse writes and even garble the bytes they are sent to, both
may claim sizes that are not theirs, and the monitor may ask to stop. -/
inductive Attempt (image : Bytes) : Bytes → Bytes → Prop
  | mk {σ μ : Type} {region : Readable} {w : Writable σ} (view : σ → Bytes) (m : Monitor μ)
      (table : σ) (monitor : μ) : region.Reflects image → w.Confined view →
      Attempt image (view table) (view (resolve region w m table monitor).table)

/-! ## Where writes are sent to -/

/-- A scan sends words to addresses of the image only. -/
theorem Halted.exists_address {image : List UInt8} {k : Nat} {opened : List Nat}
    {puts : List (UInt64 × List UInt8)} (h : Halted image k opened puts)
    {put : UInt64 × List UInt8} (hput : put ∈ puts) :
    ∃ a destination, a < image.length ∧ put = Scan.wordPut (.ofNat a) destination := by
  obtain @⟨closed, last, hpassed, hsent⟩ := h
  have hpair : ∀ o c, o < c → c < image.length → put ∈ pairPuts (o, c) →
      ∃ a destination, a < image.length ∧ put = Scan.wordPut (.ofNat a) destination := by
    intro o c hoc hc hmem
    rw [pairPuts, List.mem_cons, List.mem_singleton] at hmem
    rcases hmem with rfl | rfl
    · exact ⟨c, _, hc, rfl⟩
    · exact ⟨o, _, Nat.lt_trans hoc hc, rfl⟩
  rcases List.mem_append.1 hput with hput | hput
  · obtain ⟨⟨o, c⟩, hclosed, hmem⟩ := List.mem_flatMap.1 hput
    have hm := hpassed.course.mem_closed_iff.1 hclosed
    have hc := hm.closing_lt_length
    rw [hpassed.length_take] at hc
    exact hpair o c hm.lt (Nat.lt_of_lt_of_le hc hpassed.le_length) hmem
  · cases hsent with
    | nothing => exact absurd hput List.not_mem_nil
    | ofEnd hclose =>
      obtain rfl := List.mem_singleton.1 hput
      exact ⟨k, _, (List.getElem?_eq_some_iff.1 hclose).1, rfl⟩
    | both hclose =>
      have hm := hpassed.matched_next hclose
      exact hpair _ k hm.lt hm.closing_lt_length hput

/-- All words that a scan sends lie inside a table with room for the image. -/
theorem puts_fit {σ μ : Type} {image table : Bytes} {region : Readable} (hr : region.Reflects image)
    (hroom : HasRoom image table) (w : Writable σ) (m : Monitor μ) (held : σ) (monitor : μ) :
    ∀ put ∈ (resolve region w m held monitor).puts,
      put.1.toNat + put.2.length ≤ table.size := by
  intro put hput
  obtain ⟨k, opened, hhalted⟩ := halted_resolve hr w m held monitor
  obtain ⟨a, destination, ha, rfl⟩ := hhalted.exists_address hput
  have henough := hroom.enough
  have hsmall := hroom.addressable
  rw [Array.length_toList] at ha
  show (UInt64.ofNat a * Word.size).toNat + 2 ≤ table.size
  rw [Word.toNat_offset (by omega)]
  omega

/-! ## Attempts -/

section Memory

variable {σ₁ μ₁ σ₂ μ₂ : Type} {image : Bytes} {w₁ : Writable σ₁} {view₁ : σ₁ → Bytes}
  {m₁ : Monitor μ₁} {fresh : σ₁} {monitor₁ : μ₁} {w₂ : Writable σ₂} {view₂ : σ₂ → Bytes}
  {m₂ : Monitor μ₂} {used : σ₂} {monitor₂ : μ₂}

/-- Attempts change only what an undisturbed scan writes as well. -/
theorem agreeOutside_of_attempts {before after : Bytes}
    (hattempts : Relation.ReflTransGen (Attempt image) before after) (hw : w₁.Honest view₁)
    (hroom : HasRoom image (view₁ fresh))
    (hcancelled : (resolve (.ofBytes image) w₁ m₁ fresh monitor₁).result ≠ .error .cancelled) :
    Bytes.AgreeOutside (resolve (.ofBytes image) w₁ m₁ fresh monitor₁).puts after before := by
  induction hattempts with
  | refl => exact .refl _ _
  | tail _ hattempt ih =>
    refine .trans ?_ ih
    obtain @⟨σ, μ, region, w, view, m, table, monitor, hr, hconfined⟩ := hattempt
    have hprefix := puts_isPrefix_of_ne_cancelled hr w m table monitor hw hroom hcancelled
    rw [table_eq_replay]
    exact (hconfined.replay table _).of_subset hprefix.subset

/-- A scan that overwrites all that is different gives the same result and leaves the same bytes. -/
theorem eq_of_agreeOutside (hw₁ : w₁.Honest view₁) (hroom : HasRoom image (view₁ fresh))
    (hquiet₁ : m₁.Quiet (.ofNat image.size) monitor₁) (hw₂ : w₂.Honest view₂)
    (hquiet₂ : m₂.Quiet (.ofNat image.size) monitor₂)
    (hagree : Bytes.AgreeOutside (resolve (.ofBytes image) w₁ m₁ fresh monitor₁).puts (view₂ used)
      (view₁ fresh)) :
    (resolve (.ofBytes image) w₂ m₂ used monitor₂).result =
        (resolve (.ofBytes image) w₁ m₁ fresh monitor₁).result ∧
      view₂ (resolve (.ofBytes image) w₂ m₂ used monitor₂).table =
        view₁ (resolve (.ofBytes image) w₁ m₁ fresh monitor₁).table := by
  have hroom₂ : HasRoom image (view₂ used) :=
    ⟨hagree.size_eq ▸ hroom.enough, hagree.size_eq ▸ hroom.addressable⟩
  have hcancelled₁ : (resolve (.ofBytes image) w₁ m₁ fresh monitor₁).result ≠ .error .cancelled :=
    result_ne_cancelled hquiet₁ w₁ fresh
  have hcancelled₂ : (resolve (.ofBytes image) w₂ m₂ used monitor₂).result ≠ .error .cancelled :=
    result_ne_cancelled hquiet₂ w₂ used
  obtain ⟨hresult, hputs⟩ := undisturbed_agree hw₂ hroom₂ hcancelled₂ hw₁ hroom hcancelled₁
  refine ⟨hresult, ?_⟩
  rw [table_eq_replay, table_eq_replay, hw₂.view_replay, hw₁.view_replay, hputs]
  exact hagree.replay_eq (puts_fit (Readable.reflects_ofBytes image) hroom w₁ m₁ fresh monitor₁)

/-- **Healing.** After any attempts to resolve an image into a table, a scan that nothing disturbs
gives the result and leaves the bytes that it would have given and left on the original table. So a
scan that nothing disturbs can be repeated without changing anything. -/
theorem resolve_heals (hw₁ : w₁.Honest view₁) (hroom : HasRoom image (view₁ fresh))
    (hquiet₁ : m₁.Quiet (.ofNat image.size) monitor₁) (hw₂ : w₂.Honest view₂)
    (hquiet₂ : m₂.Quiet (.ofNat image.size) monitor₂)
    (hattempts : Relation.ReflTransGen (Attempt image) (view₁ fresh) (view₂ used)) :
    let once := resolve (.ofBytes image) w₁ m₁ fresh monitor₁
    let again := resolve (.ofBytes image) w₂ m₂ used monitor₂
    let twice := resolve (.ofBytes image) w₁ m₁ once.table monitor₁
    (again.result = once.result ∧ view₂ again.table = view₁ once.table) ∧
      twice.result = once.result ∧ view₁ twice.table = view₁ once.table := by
  intro once again twice
  have hcancelled : once.result ≠ .error .cancelled := result_ne_cancelled hquiet₁ w₁ fresh
  have honce : Attempt image (view₁ fresh) (view₁ once.table) :=
    .mk view₁ m₁ fresh monitor₁ (Readable.reflects_ofBytes image) hw₁.confined
  exact ⟨eq_of_agreeOutside hw₁ hroom hquiet₁ hw₂ hquiet₂
      (agreeOutside_of_attempts hattempts hw₁ hroom hcancelled),
    eq_of_agreeOutside hw₁ hroom hquiet₁ hw₁ hquiet₁
      (agreeOutside_of_attempts (.single honce) hw₁ hroom hcancelled)⟩

/-- A table that refused the third of four writes, and on which a scan was then cancelled, is healed
by the next scan. -/
theorem resolve_heals_refused :
    let refusing := Writable.bytes.failingFrom 6 .isDirectory
    let refused := (resolve (.ofBytes #[6, 7, 6, 7]) refusing .silent (.zeros 8) ()).table
    let stopped := resolve (.ofBytes #[6, 7, 6, 7]) .bytes (.taskUntil 1) refused
      (.new 0, ⟨#[false]⟩)
    let once := resolve (.ofBytes #[6, 7, 6, 7]) .bytes .silent (.zeros 8) ()
    let again := resolve (.ofBytes #[6, 7, 6, 7]) .bytes .silent stopped.table ()
    Writable.bytes.Honest id ∧ HasRoom #[6, 7, 6, 7] (.zeros 8) ∧
      Monitor.silent.Quiet (.ofNat 4) () ∧
      Relation.ReflTransGen (Attempt #[6, 7, 6, 7]) (.zeros 8) stopped.table ∧
      again.result = once.result ∧ again.table = once.table := by
  intro refusing refused stopped once again
  have hr := Readable.reflects_ofBytes #[6, 7, 6, 7]
  have hroom : HasRoom #[6, 7, 6, 7] (.zeros 8) := ⟨by decide, by decide⟩
  have hhonest := Writable.honest_bytes
  have hquiet : Monitor.silent.Quiet (.ofNat 4) () := Monitor.quiet_silent _
  have hfirst : Attempt #[6, 7, 6, 7] (.zeros 8) refused :=
    .mk id .silent (.zeros 8) () hr (hhonest.confined.failingFrom 6 .isDirectory)
  have hsecond : Attempt #[6, 7, 6, 7] refused stopped.table :=
    .mk id (.taskUntil 1) refused (.new 0, ⟨#[false]⟩) hr hhonest.confined
  have hattempts : Relation.ReflTransGen (Attempt #[6, 7, 6, 7]) (.zeros 8) stopped.table :=
    .tail (.single hfirst) hsecond
  exact ⟨hhonest, hroom, hquiet, hattempts,
    (resolve_heals hhonest hroom hquiet hhonest hquiet hattempts).1⟩

end Memory

end LoopTable
