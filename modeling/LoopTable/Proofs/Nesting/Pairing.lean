import LoopTable.Proofs.Nesting.Course

/-!
# Pairings without crossings

A table of words pairs the loop instructions of an image if the word of each start points behind an
end whose word points back. `NonCrossing` asks for that at every loop instruction, and that two
pairs lie apart or one inside the other.

Such a table leaves no choice: every pair of it is the two ends of one loop (`NonCrossing.matched`),
because a stretch of bytes that no pair leaves is balanced (`NonCrossing.balanced_stretch`). And the
words of the loops of a balanced image are such a table (`Course.nonCrossing`).
-/

namespace LoopTable

/-- A table of words, by address, pairs the start at `opening` with the end at `closing`. -/
def Paired (image : List UInt8) (word : Nat → Option Nat) (opening closing : Nat) : Prop :=
  image[opening]? = some openByte ∧ word opening = some (closing + 1)

/-- A table of words that pairs all loop instructions of an image, none across another. -/
structure NonCrossing (image : List UInt8) (word : Nat → Option Nat) : Prop where
  /-- The word of a start points behind a later end, whose word points back. -/
  opens : ∀ o, image[o]? = some openByte →
    ∃ c, word o = some (c + 1) ∧ o < c ∧ image[c]? = some closeByte ∧ word c = some o
  /-- The word of an end points at an earlier start, whose word points behind the end. -/
  closes : ∀ c, image[c]? = some closeByte →
    ∃ o, word c = some o ∧ o < c ∧ image[o]? = some openByte ∧ word o = some (c + 1)
  /-- Two pairs lie apart, or one lies inside the other. -/
  laminar : ∀ o₁ c₁ o₂ c₂, Paired image word o₁ c₁ → Paired image word o₂ c₂ →
    (o₁, c₁) ≠ (o₂, c₂) →
      c₁ < o₂ ∨ c₂ < o₁ ∨ (o₁ < o₂ ∧ c₂ < c₁) ∨ (o₂ < o₁ ∧ c₁ < c₂)

/-! ## Stretches of an image -/

theorem drop_take_succ {image : List UInt8} {i : Nat} {byte : UInt8} (h : image[i]? = some byte)
    (n : Nat) : (image.drop i).take (n + 1) = byte :: (image.drop (i + 1)).take n := by
  obtain ⟨hi, rfl⟩ := List.getElem?_eq_some_iff.1 h
  rw [List.drop_eq_getElem_cons hi, List.take_succ_cons]

theorem drop_take_add (image : List UInt8) (i m n : Nat) :
    (image.drop i).take (m + n) = (image.drop i).take m ++ (image.drop (i + m)).take n := by
  rw [List.take_add, List.drop_drop]

theorem between_eq (image : List UInt8) (o c : Nat) :
    between image o c = (image.drop (o + 1)).take (c - (o + 1)) := by
  rw [between, List.drop_take]

/-- A stretch that begins with a loop is the loop and what follows it. -/
theorem drop_take_loop {image : List UInt8} {o c n : Nat} (ho : image[o]? = some openByte)
    (hc : image[c]? = some closeByte) (hoc : o < c) (hcn : c < o + n) :
    (image.drop o).take n = (openByte :: between image o c ++ [closeByte]) ++
      (image.drop (c + 1)).take (o + n - (c + 1)) := by
  obtain ⟨m, rfl⟩ : ∃ m, c = o + 1 + m := ⟨c - (o + 1), by omega⟩
  obtain ⟨r, rfl⟩ : ∃ r, n = m + (r + 1) + 1 := ⟨n - (m + 2), by omega⟩
  rw [drop_take_succ ho, drop_take_add, drop_take_succ hc, between_eq]
  have hm : o + 1 + m - (o + 1) = m := by omega
  have hr : o + (m + (r + 1) + 1) - (o + 1 + m + 1) = r := by omega
  rw [hm, hr]
  simp

/-! ## One pairing at most -/

namespace NonCrossing

variable {image : List UInt8} {word : Nat → Option Nat}

theorem paired_lt (h : NonCrossing image word) {o c : Nat} (hp : Paired image word o c) :
    o < c ∧ image[c]? = some closeByte := by
  obtain ⟨c', hword, hlt, hclose, -⟩ := h.opens o hp.1
  obtain rfl : c' = c := by simpa [hword] using hp.2
  exact ⟨hlt, hclose⟩

/-- Two pairs are the same, lie apart, or lie one inside the other. -/
theorem eq_or_laminar (h : NonCrossing image word) {o c o' c' : Nat} (hp : Paired image word o c)
    (hp' : Paired image word o' c') :
    (o = o' ∧ c = c') ∨ c < o' ∨ c' < o ∨ (o < o' ∧ c' < c) ∨ (o' < o ∧ c < c') := by
  by_cases heq : (o, c) = (o', c')
  · exact Or.inl (Prod.mk.inj heq)
  · exact Or.inr (h.laminar o c o' c' hp hp' heq)

/-- A stretch of bytes that no pair leaves or enters is balanced. -/
theorem balanced_stretch (h : NonCrossing image word) (n i : Nat) (hi : i + n ≤ image.length)
    (hwhole : ∀ o c, Paired image word o c → ((i ≤ o ∧ o < i + n) ↔ (i ≤ c ∧ c < i + n))) :
    Balanced ((image.drop i).take n) := by
  induction n using Nat.strongRecOn generalizing i with
  | ind n ih =>
    rcases n with _ | n
    · exact .nil
    · have hbyte : image[i]? = some image[i] := List.getElem?_eq_getElem (by omega)
      by_cases hopen : image[i] = openByte
      · -- A loop starts here: its body and what follows it are stretches of that kind again.
        rw [hopen] at hbyte
        obtain ⟨c, hword, hic, hclose, -⟩ := h.opens i hbyte
        have hpair : Paired image word i c := ⟨hbyte, hword⟩
        have hcn : c < i + (n + 1) := ((hwhole i c hpair).1 ⟨by omega, by omega⟩).2
        rw [drop_take_loop hbyte hclose hic hcn]
        refine .append (.loop ?_) (ih _ (by omega) _ (by omega) ?_)
        · rw [between_eq]
          refine ih _ (by omega) _ (by omega) fun o' c' hp => ?_
          have hlt := (h.paired_lt hp).1
          have hapart := h.eq_or_laminar hpair hp
          omega
        · intro o' c' hp
          have hlt := (h.paired_lt hp).1
          have hboth := hwhole o' c' hp
          have hapart := h.eq_or_laminar hpair hp
          omega
      · by_cases hclose : image[i] = closeByte
        · -- No stretch begins with an end, for its start would lie before it.
          rw [hclose] at hbyte
          obtain ⟨o, -, hlt, ho, hword⟩ := h.closes i hbyte
          have := (hwhole o i ⟨ho, hword⟩).2 ⟨by omega, by omega⟩
          omega
        · rw [drop_take_succ hbyte, ← List.singleton_append]
          refine .append (.inert ⟨hopen, hclose⟩) (ih n (by omega) _ (by omega) fun o c hp => ?_)
          have hboth := hwhole o c hp
          have ho : o ≠ i := by
            rintro rfl
            exact hopen (Option.some.inj (hbyte.symm.trans hp.1))
          have hc : c ≠ i := by
            rintro rfl
            exact hclose (Option.some.inj (hbyte.symm.trans (h.paired_lt hp).2))
          omega

/-- Every pair is the two ends of one loop. -/
theorem matched (h : NonCrossing image word) {o c : Nat} (hp : Paired image word o c) :
    Matched image o c := by
  obtain ⟨hlt, hclose⟩ := h.paired_lt hp
  have hc := (List.getElem?_eq_some_iff.1 hclose).1
  refine ⟨hlt, hp.1, hclose, ?_⟩
  rw [between_eq]
  refine h.balanced_stretch _ _ (by omega) fun o' c' hp' => ?_
  have hlt' := (h.paired_lt hp').1
  have hapart := h.eq_or_laminar hp hp'
  omega

/-- Two such tables agree at every loop instruction. -/
theorem agree {word' : Nat → Option Nat} (h : NonCrossing image word)
    (h' : NonCrossing image word') {a : Nat}
    (ha : image[a]? = some openByte ∨ image[a]? = some closeByte) : word' a = word a := by
  rcases ha with ho | hc
  · obtain ⟨c, hw, -⟩ := h.opens a ho
    obtain ⟨c', hw', -⟩ := h'.opens a ho
    rw [hw, hw', (h.matched ⟨ho, hw⟩).closing_unique (h'.matched ⟨ho, hw'⟩)]
  · obtain ⟨o, hw, -, ho, hwo⟩ := h.closes a hc
    obtain ⟨o', hw', -, ho', hwo'⟩ := h'.closes a hc
    rw [hw, hw', (h.matched ⟨ho, hwo⟩).opening_unique (h'.matched ⟨ho', hwo'⟩)]

end NonCrossing

/-! ## The pairing of a balanced image -/

/-- Words that point from the ends of the loops of an image to their starts, and from the starts
behind the ends, pair its loop instructions without crossings. -/
theorem Course.nonCrossing {image : List UInt8} {closed : List (Nat × Nat)}
    (h : Course image [] closed) {word : Nat → Option Nat}
    (hword : ∀ o c, Matched image o c → word c = some o ∧ word o = some (c + 1)) :
    NonCrossing image word where
  opens := by
    intro o ho
    obtain ⟨c, hm⟩ := h.exists_closing ho
    exact ⟨c, (hword o c hm).2, hm.lt, hm.closes, (hword o c hm).1⟩
  closes := by
    intro c hc
    obtain ⟨o, hm⟩ := h.exists_opening hc
    exact ⟨o, (hword o c hm).1, hm.lt, hm.opens, (hword o c hm).2⟩
  laminar := by
    have hmatched : ∀ o c, Paired image word o c → Matched image o c := by
      intro o c hp
      obtain ⟨c', hm⟩ := h.exists_closing hp.1
      obtain rfl : c' = c := by simpa [(hword o c' hm).2] using hp.2
      exact hm
    intro o₁ c₁ o₂ c₂ hp₁ hp₂ hne
    refine (hmatched _ _ hp₁).laminar (hmatched _ _ hp₂) ?_
    rintro rfl
    exact hne (by rw [(hmatched _ _ hp₁).closing_unique (hmatched _ _ hp₂)])

end LoopTable
