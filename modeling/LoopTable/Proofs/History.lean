import Mathlib.Data.List.Induction

/-!
# The last entry of a history that has a property

A history is a list that grows at its end. An entry of a history with one entry more is that one, or
an entry of the history before (`snoc_eq_append_cons_iff`).

Much of what holds after a history depends on its last entry of some kind, such as the last write to
a position. `LastWith` picks that entry out, with what came before it and after it. One entry more
is the last one itself (`lastWith_snoc_of_pos`), or leaves the last one where it was
(`lastWith_snoc_of_neg`).

`Recalled` says what such a history leaves behind: what its last entry of the kind gives, or else
what there was at first. One entry more gives the new value or changes nothing
(`recalled_snoc_of_pos`, `recalled_snoc_of_neg`).
-/

namespace LoopTable

section

variable {α : Type} {p : α → Prop} {history before after : List α} {a b : α}

/-- An entry of a history with one entry more is that one, or an entry of the history before. -/
theorem snoc_eq_append_cons_iff :
    history ++ [a] = before ++ b :: after ↔
      (before = history ∧ b = a ∧ after = []) ∨
        ∃ rest, after = rest ++ [a] ∧ history = before ++ b :: rest := by
  constructor
  · intro heq
    rcases List.eq_nil_or_concat after with rfl | ⟨rest, last, rfl⟩
    · obtain ⟨rfl, hlast⟩ := List.append_inj' heq rfl
      cases hlast
      exact Or.inl ⟨rfl, rfl, rfl⟩
    · rw [List.concat_eq_append] at heq ⊢
      rw [← List.cons_append, ← List.append_assoc] at heq
      obtain ⟨rfl, hlast⟩ := List.append_inj' heq rfl
      cases hlast
      exact Or.inr ⟨rest, rfl, rfl⟩
  · rintro (⟨rfl, rfl, rfl⟩ | ⟨rest, rfl, rfl⟩)
    · rfl
    · rw [List.append_assoc, List.cons_append]

/-- The last entry of a history with a property, and what came before and after it. -/
structure LastWith (p : α → Prop) (history before : List α) (a : α) (after : List α) : Prop where
  /-- It is an entry of the history. -/
  eq : history = before ++ a :: after
  /-- It has the property. -/
  holds : p a
  /-- No later entry has it. -/
  not_after : ∀ b ∈ after, ¬ p b

/-- An entry with the property is the last one when it is added. -/
theorem lastWith_snoc_of_pos (ha : p a) :
    LastWith p (history ++ [a]) before b after ↔ before = history ∧ b = a ∧ after = [] := by
  constructor
  · rintro ⟨heq, -, hafter⟩
    rcases snoc_eq_append_cons_iff.1 heq with hlast | ⟨rest, rfl, -⟩
    · exact hlast
    · exact absurd ha (hafter a (List.mem_append_right rest (List.mem_singleton_self a)))
  · rintro ⟨rfl, rfl, rfl⟩
    exact ⟨rfl, ha, fun _ hb => absurd hb List.not_mem_nil⟩

/-- An entry without the property leaves the last one where it was. -/
theorem lastWith_snoc_of_neg (ha : ¬ p a) :
    LastWith p (history ++ [a]) before b after ↔
      ∃ rest, after = rest ++ [a] ∧ LastWith p history before b rest := by
  constructor
  · rintro ⟨heq, hb, hafter⟩
    rcases snoc_eq_append_cons_iff.1 heq with ⟨-, rfl, -⟩ | ⟨rest, rfl, hhistory⟩
    · exact absurd hb ha
    · exact ⟨rest, rfl, hhistory, hb, fun c hc => hafter c (List.mem_append_left _ hc)⟩
  · rintro ⟨rest, rfl, heq, hb, hrest⟩
    refine ⟨snoc_eq_append_cons_iff.2 (Or.inr ⟨rest, rfl, heq⟩), hb, fun c hc => ?_⟩
    rcases List.mem_append.1 hc with hc | hc
    · exact hrest c hc
    · exact List.mem_singleton.1 hc ▸ ha

/-! ## What is left behind -/

variable {β : Type} {gives : α → β → Prop} {first : β → Prop} {x : β}

/-- What a history leaves behind of a thing that the entries with some property set. -/
inductive Recalled (p : α → Prop) (gives : α → β → Prop) (first : β → Prop) (history : List α)
    (x : β) : Prop
  /-- The last entry with the property gives it. -/
  | given {before after : List α} {a : α} :
      LastWith p history before a after → gives a x → Recalled p gives first history x
  /-- No entry has the property, and it was there at first. -/
  | untouched : (∀ a ∈ history, ¬ p a) → first x → Recalled p gives first history x

theorem recalled_nil_iff : Recalled p gives first [] x ↔ first x := by
  constructor
  · rintro (⟨hlast, -⟩ | ⟨-, hfirst⟩)
    · exact absurd hlast.eq (by simp)
    · exact hfirst
  · exact fun hfirst => .untouched (fun _ ha => absurd ha List.not_mem_nil) hfirst

/-- An entry with the property sets what is left behind. -/
theorem recalled_snoc_of_pos (ha : p a) :
    Recalled p gives first (history ++ [a]) x ↔ gives a x := by
  constructor
  · rintro (⟨hlast, hgives⟩ | ⟨hnone, -⟩)
    · obtain ⟨-, rfl, -⟩ := (lastWith_snoc_of_pos ha).1 hlast
      exact hgives
    · exact absurd ha (hnone a (List.mem_append_right history (List.mem_singleton_self a)))
  · exact .given ((lastWith_snoc_of_pos ha).2 ⟨rfl, rfl, rfl⟩)

/-- An entry without the property leaves it as it was. -/
theorem recalled_snoc_of_neg (ha : ¬ p a) :
    Recalled p gives first (history ++ [a]) x ↔ Recalled p gives first history x := by
  constructor
  · rintro (⟨hlast, hgives⟩ | ⟨hnone, hfirst⟩)
    · obtain ⟨_, -, hearlier⟩ := (lastWith_snoc_of_neg ha).1 hlast
      exact .given hearlier hgives
    · exact .untouched (fun b hb => hnone b (List.mem_append_left _ hb)) hfirst
  · rintro (⟨hlast, hgives⟩ | ⟨hnone, hfirst⟩)
    · exact .given ((lastWith_snoc_of_neg ha).2 ⟨_, rfl, hlast⟩) hgives
    · refine .untouched (fun b hb => ?_) hfirst
      rcases List.mem_append.1 hb with hb | hb
      · exact hnone b hb
      · exact List.mem_singleton.1 hb ▸ ha

end

end LoopTable
