import LoopTable.Proofs.Resolution.Counting
import LoopTable.Proofs.Resolution.Exact
import LoopTable.Proofs.Resolution.Interruption

/-!
# Scans that nothing disturbs

What an image says about how a scan over it ends leaves no choice (`Verdict.result_eq`). So all
scans of one image in memory that are not cancelled give the same result and ask for the same
writes, whatever their tables hold and whoever watches them (`undisturbed_agree`).
-/

namespace LoopTable

/-! ## One verdict at most -/

theorem Blocks.exists_first {image : List UInt8} {e : Nat} (h : Blocks image e) :
    ∃ first, FirstBlock image first := by
  classical
  have hexists : ∃ e, Blocks image e := ⟨e, h⟩
  exact ⟨Nat.find hexists, Nat.find_spec hexists, fun _ he => Nat.find_min' hexists he⟩

/-- When a loop is left open, there is a first one. -/
theorem Unclosed.exists_first {image : List UInt8} {a o : Nat} (h : Unclosed image a o) :
    ∃ first, Unclosed image a first ∧ ∀ b, Unclosed image a b → first ≤ b := by
  classical
  have hexists : ∃ o, Unclosed image a o := ⟨o, h⟩
  exact ⟨Nat.find hexists, Nat.find_spec hexists, fun _ ho => Nat.find_min' hexists ho⟩

/-- What the image says about a result leaves open only what a scan that succeeds has counted. -/
theorem Verdict.result_eq {image : List UInt8} {before before' after after' : Bytes}
    {result result' : Except ResolutionError Statistics} (h : Verdict image before after result)
    (h' : Verdict image before' after' result') :
    result = result' ∨
      ∃ statistics statistics', result = .ok statistics ∧ result' = .ok statistics' := by
  by_cases hblocks : ∃ e, Blocks image e
  · obtain ⟨e, hfirst⟩ := hblocks.choose_spec.exists_first
    rcases h.blocked e hfirst with hfree | ⟨o, hm⟩
    · exact Or.inl ((h.stray e hfirst hfree).1.trans (h'.stray e hfirst hfree).1.symm)
    · rcases Nat.lt_or_ge 65535 o with hfar | hnear
      · exact Or.inl ((h.farStart e o hfirst hm hfar).1.trans
          (h'.farStart e o hfirst hm hfar).1.symm)
      · exact Or.inl ((h.farEnd e o hfirst hm hnear).1.trans
          (h'.farEnd e o hfirst hm hnear).1.symm)
  · have hfree : ∀ e, ¬ Blocks image e := fun e he => hblocks ⟨e, he⟩
    by_cases hopen : ∃ o, Unclosed image image.length o
    · obtain ⟨a, ha, hleast⟩ := hopen.choose_spec.exists_first
      exact Or.inl ((h.leftOpen a hfree ha hleast).1.trans (h'.leftOpen a hfree ha hleast).1.symm)
    · have hclosed : ∀ o, ¬ Unclosed image image.length o := fun o ho => hopen ⟨o, ho⟩
      obtain ⟨statistics, hok⟩ := (h.finished hfree hclosed).1
      obtain ⟨statistics', hok'⟩ := (h'.finished hfree hclosed).1
      exact Or.inr ⟨statistics, statistics', hok, hok'⟩

/-! ## One undisturbed scan at most -/

section Memory

variable {σ₁ μ₁ σ₂ μ₂ : Type} {image : Bytes} {w₁ : Writable σ₁} {view₁ : σ₁ → Bytes}
  {m₁ : Monitor μ₁} {table₁ : σ₁} {monitor₁ : μ₁} {w₂ : Writable σ₂} {view₂ : σ₂ → Bytes}
  {m₂ : Monitor μ₂} {table₂ : σ₂} {monitor₂ : μ₂}

/-- A scan of an image in memory has asked for the first writes of one that is not cancelled. -/
theorem puts_isPrefix_of_ne_cancelled {region : Readable} (hr : region.Reflects image)
    (w₁ : Writable σ₁) (m₁ : Monitor μ₁) (table₁ : σ₁) (monitor₁ : μ₁) (hw₂ : w₂.Honest view₂)
    (hroom₂ : HasRoom image (view₂ table₂))
    (hcancelled₂ : (resolve (.ofBytes image) w₂ m₂ table₂ monitor₂).result ≠ .error .cancelled) :
    (resolve region w₁ m₁ table₁ monitor₁).puts <+:
      (resolve (.ofBytes image) w₂ m₂ table₂ monitor₂).puts := by
  obtain ⟨k, opened, hhalted⟩ := halted_resolve hr w₁ m₁ table₁ monitor₁
  exact hhalted.puts_isPrefix_of_ending (ending_resolve hw₂ hroom₂ hcancelled₂)

/-- Two scans of one image in memory that are not cancelled give the same result and ask for the
same writes. -/
theorem undisturbed_agree (hw₁ : w₁.Honest view₁) (hroom₁ : HasRoom image (view₁ table₁))
    (hcancelled₁ : (resolve (.ofBytes image) w₁ m₁ table₁ monitor₁).result ≠ .error .cancelled)
    (hw₂ : w₂.Honest view₂) (hroom₂ : HasRoom image (view₂ table₂))
    (hcancelled₂ : (resolve (.ofBytes image) w₂ m₂ table₂ monitor₂).result ≠ .error .cancelled) :
    (resolve (.ofBytes image) w₁ m₁ table₁ monitor₁).result =
        (resolve (.ofBytes image) w₂ m₂ table₂ monitor₂).result ∧
      (resolve (.ofBytes image) w₁ m₁ table₁ monitor₁).puts =
        (resolve (.ofBytes image) w₂ m₂ table₂ monitor₂).puts := by
  have hr := Readable.reflects_ofBytes image
  constructor
  · have himage := hroom₁.image_lt
    have hverdict₁ := (ending_resolve hw₁ hroom₁ hcancelled₁).verdict
    have hverdict₂ := (ending_resolve hw₂ hroom₂ hcancelled₂).verdict
    rcases hverdict₁.result_eq hverdict₂ with heq | ⟨statistics₁, statistics₂, hok₁, hok₂⟩
    · exact heq
    · rw [hok₁, hok₂, statistics_eq_ofImage himage hok₁, statistics_eq_ofImage himage hok₂]
  · have hfirst := puts_isPrefix_of_ne_cancelled hr w₁ m₁ table₁ monitor₁ hw₂ hroom₂ hcancelled₂
    have hsecond := puts_isPrefix_of_ne_cancelled hr w₂ m₂ table₂ monitor₂ hw₁ hroom₁ hcancelled₁
    exact hfirst.eq_of_length_le hsecond.length_le

end Memory

end LoopTable
