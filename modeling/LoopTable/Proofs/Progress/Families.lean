import Mathlib.Order.Monotone.Basic
import LoopTable.Proofs.History
import LoopTable.Proofs.Progress
import LoopTable.Proofs.Resolution.Step

/-!
# Families of handles

A token or a progress is made with a flag of its own, or it is a copy of another one and shares its
flag. `Makes` lists the steps that make a handle, with the handle that is copied, and `Descends`
follows the copies of a history back to the step that made the original. It says nothing of flags.

* What one step does to the flag of a handle is told by `token?_apply_eq_some_iff`, and what it does
  to the flags themselves by `isCancelled_apply_iff`.
* Two handles share a flag exactly if they descend from one original (`token?_eq_iff`), and a handle
  reads as cancelled exactly if some token of its family has been cancelled (`isCancelled_run_iff`),
  be it before the handle was made or after.
-/

namespace LoopTable

namespace Handles

/-- A token or a progress, by its position. -/
inductive Handle
  | token (position : Nat)
  | task (position : Nat)
  deriving DecidableEq

/-- The token that tells the flag of a handle, if the handle was made. -/
def token? (h : Handles) : Handle → Option Token
  | .token t => h.tokens[t]?
  | .task m => h.tasks[m]?.map Progress.token

/-- Whether a handle reads as cancelled. -/
def isCancelled (h : Handles) (a : Handle) : Bool :=
  (h.token? a).any h.pool.isCancelled

/-! ## Steps that make a handle -/

/-- A step makes a handle, either with a flag of its own or as a copy of another handle. -/
inductive Makes (h : Handles) : Step → Handle → Option Handle → Prop
  | newToken : Makes h .newToken (.token h.tokens.size) none
  | newTaskAlone : Makes h .newTaskAlone (.task h.tasks.size) none
  | copyToken {t : Nat} : t < h.tokens.size →
      Makes h (.copyToken t) (.token h.tokens.size) (some (.token t))
  | tokenOf {m : Nat} : m < h.tasks.size →
      Makes h (.tokenOf m) (.token h.tokens.size) (some (.task m))
  | newTask {t : Nat} : t < h.tokens.size →
      Makes h (.newTask t) (.task h.tasks.size) (some (.token t))
  | copyTask {m : Nat} : m < h.tasks.size →
      Makes h (.copyTask m) (.task h.tasks.size) (some (.task m))

/-- The flag of a handle that a step makes: a new one, or that of the handle copied. -/
def flagOf (h : Handles) : Option Handle → Option Token
  | none => some h.pool.flags.size
  | some p => h.token? p

section Step

variable {h : Handles} {step : Step} {a b : Handle} {source? source?' : Option Handle}
  {token : Token}

/-- A step makes one handle at most. -/
theorem Makes.unique (hmakes : Makes h step a source?) (hmakes' : Makes h step b source?') :
    b = a ∧ source?' = source? := by
  cases hmakes <;> cases hmakes' <;> exact ⟨rfl, rfl⟩

theorem token?_push_token (h : Handles) (pool : TokenPool) (token : Token) (b : Handle) :
    token? ⟨pool, h.tokens.push token, h.tasks⟩ b =
      if b = .token h.tokens.size then some token else h.token? b := by
  cases b with
  | token t => simp only [token?, Array.getElem?_push, Handle.token.injEq]
  | task m => simp [token?]

theorem token?_push_task (h : Handles) (pool : TokenPool) (p : Progress) (b : Handle) :
    token? ⟨pool, h.tokens, h.tasks.push p⟩ b =
      if b = .task h.tasks.size then some p.token else h.token? b := by
  cases b with
  | token t => simp [token?]
  | task m =>
    simp only [token?, Array.getElem?_push, Handle.task.injEq]
    split <;> rfl

theorem token?_modify (h : Handles) (m : Nat) (f : Progress → Progress)
    (hf : ∀ p, (f p).token = p.token) (b : Handle) :
    token? { h with tasks := h.tasks.modify m f } b = h.token? b := by
  cases b with
  | token t => rfl
  | task n =>
    simp only [token?, Array.getElem?_modify]
    split
    · rw [Option.map_map]
      exact Option.map_congr fun p _ => hf p
    · rfl

/-- A step that makes a handle gives it its flag, and keeps the flags of all others. -/
theorem Makes.token?_apply (hmakes : Makes h step a source?) (b : Handle) :
    (h.apply step).token? b = if b = a then h.flagOf source? else h.token? b := by
  cases hmakes with
  | newToken => exact token?_push_token h _ _ b
  | newTaskAlone => exact token?_push_task h _ _ b
  | @copyToken t ht =>
    have happly : h.apply (.copyToken t) = ⟨h.pool, h.tokens.push h.tokens[t], h.tasks⟩ := by
      simp only [apply, Array.getElem?_eq_getElem ht]
    rw [happly, token?_push_token, flagOf, token?, Array.getElem?_eq_getElem ht]
  | @tokenOf m hm =>
    have happly : h.apply (.tokenOf m) = ⟨h.pool, h.tokens.push h.tasks[m].token, h.tasks⟩ := by
      simp only [apply, Array.getElem?_eq_getElem hm]
    rw [happly, token?_push_token, flagOf, token?, Array.getElem?_eq_getElem hm, Option.map_some]
  | @newTask t ht =>
    have happly : h.apply (.newTask t) =
        ⟨h.pool, h.tokens, h.tasks.push (.new h.tokens[t])⟩ := by
      simp only [apply, Array.getElem?_eq_getElem ht]
    rw [happly, token?_push_task, flagOf, token?, Array.getElem?_eq_getElem ht, Progress.new]
  | @copyTask m hm =>
    have happly : h.apply (.copyTask m) = ⟨h.pool, h.tokens, h.tasks.push h.tasks[m]⟩ := by
      simp only [apply, Array.getElem?_eq_getElem hm]
    rw [happly, token?_push_task, flagOf, token?, Array.getElem?_eq_getElem hm, Option.map_some]

/-- A step that makes no handle keeps the flags of all handles. -/
theorem token?_apply_of_not_makes (hnone : ∀ a source?, ¬ Makes h step a source?) (b : Handle) :
    (h.apply step).token? b = h.token? b := by
  cases step with
  | newToken => exact absurd .newToken (hnone _ _)
  | newTaskAlone => exact absurd .newTaskAlone (hnone _ _)
  | copyToken t | newTask t =>
    have hsize : h.tokens.size ≤ t := by
      refine Nat.le_of_not_lt fun ht => ?_
      first | exact hnone _ _ (.copyToken ht) | exact hnone _ _ (.newTask ht)
    simp only [apply, Array.getElem?_eq_none hsize]
  | tokenOf m | copyTask m =>
    have hsize : h.tasks.size ≤ m := by
      refine Nat.le_of_not_lt fun hm => ?_
      first | exact hnone _ _ (.tokenOf hm) | exact hnone _ _ (.copyTask hm)
    simp only [apply, Array.getElem?_eq_none hsize]
  | cancel t =>
    simp only [apply]
    cases h.tokens[t]? <;> rfl
  | start m total => exact token?_modify h m (·.start total) (fun _ => rfl) b
  | advance m n => exact token?_modify h m (·.advance n) (fun _ => rfl) b

/-- A handle that a step makes was not there before. -/
theorem Makes.token?_eq_none (hmakes : Makes h step a source?) : h.token? a = none := by
  cases hmakes <;> simp [token?]

/-- A step keeps the flags of all handles, and gives one to the handle it makes. -/
theorem token?_apply_eq_some_iff : (h.apply step).token? a = some token ↔
    h.token? a = some token ∨
      ∃ source?, Makes h step a source? ∧ h.flagOf source? = some token := by
  by_cases hany : ∃ b source?, Makes h step b source?
  · obtain ⟨b, source?, hmakes⟩ := hany
    rw [hmakes.token?_apply a]
    by_cases hab : a = b
    · subst hab
      rw [if_pos rfl, hmakes.token?_eq_none]
      constructor
      · exact fun hflag => Or.inr ⟨source?, hmakes, hflag⟩
      · rintro (hbefore | ⟨source?', hmakes', hflag⟩)
        · cases hbefore
        · rwa [← (hmakes.unique hmakes').2]
    · rw [if_neg hab]
      refine ⟨Or.inl, ?_⟩
      rintro (hbefore | ⟨source?', hmakes', -⟩)
      · exact hbefore
      · exact absurd (hmakes.unique hmakes').1 hab
  · rw [token?_apply_of_not_makes (fun b source? hmakes => hany ⟨b, source?, hmakes⟩) a]
    refine ⟨Or.inl, ?_⟩
    rintro (hbefore | ⟨source?, hmakes, -⟩)
    · exact hbefore
    · exact absurd ⟨a, source?, hmakes⟩ hany

/-! ## Flags in the course of a history -/

/-- A step hands out one flag more if it makes an original, and takes none back. -/
theorem size_le_apply (h : Handles) (step : Step) :
    h.pool.flags.size ≤ (h.apply step).pool.flags.size := by
  have hflags := h.flags_apply step
  generalize (h.apply step).pool = pool at hflags ⊢
  cases hflags with
  | kept => exact Nat.le_refl _
  | issued =>
    rw [TokenPool.issue, Array.size_push]
    exact Nat.le_succ _
  | cancelled => exact Nat.le_of_eq (TokenPool.size_cancel _ _).symm

theorem Makes.size_apply (hmakes : Makes h step a none) :
    (h.apply step).pool.flags.size = h.pool.flags.size + 1 := by
  cases hmakes <;> rw [apply, TokenPool.issue, Array.size_push]

/-- A step cancels a flag only by cancelling a token on it. -/
theorem isCancelled_apply_iff (htokens : ∀ a token, h.token? a = some token →
    token < h.pool.flags.size) : (h.apply step).pool.isCancelled token = true ↔
      h.pool.isCancelled token = true ∨
        ∃ t, step = .cancel t ∧ h.token? (.token t) = some token := by
  have hflags := h.flags_apply step
  generalize (h.apply step).pool = pool at hflags ⊢
  cases hflags with
  | kept hnone =>
    refine ⟨Or.inl, ?_⟩
    rintro (hcancelled | ⟨t, heq, ht⟩)
    · exact hcancelled
    · rw [token?, hnone t heq] at ht
      cases ht
  | issued hother =>
    rw [TokenPool.isCancelled_issue]
    refine ⟨Or.inl, ?_⟩
    rintro (hcancelled | ⟨t, heq, -⟩)
    · exact hcancelled
    · exact absurd heq (hother t)
  | @cancelled t other ht =>
    rw [TokenPool.isCancelled_cancel_iff (htokens (.token t) other ht)]
    refine or_congr_right ⟨fun heq => ⟨t, rfl, heq ▸ ht⟩, ?_⟩
    rintro ⟨t', heq, ht'⟩
    cases heq
    exact Option.some.inj (ht.symm.trans ht')

end Step

/-! ## Families -/

/-- The handles after a history from the beginning. -/
def after (steps : List Step) : Handles :=
  empty.run steps

theorem after_snoc (steps : List Step) (step : Step) :
    after (steps ++ [step]) = (after steps).apply step := by
  rw [after, run_append]
  rfl

/-- The family of a handle after a history, by the position of the step that made the original: the
handle is the original, or it was copied from a handle of the family. -/
inductive Descends : List Step → Handle → Nat → Prop
  /-- The last step makes an original. -/
  | original {steps : List Step} {step : Step} {a : Handle} : Makes (after steps) step a none →
      Descends (steps ++ [step]) a steps.length
  /-- The last step copies a handle of the family. -/
  | copied {steps : List Step} {step : Step} {a p : Handle} {k : Nat} :
      Makes (after steps) step a (some p) → Descends steps p k → Descends (steps ++ [step]) a k
  /-- The handle was made before. -/
  | earlier {steps : List Step} {step : Step} {a : Handle} {k : Nat} : Descends steps a k →
      Descends (steps ++ [step]) a k

/-- The number of flags handed out before the step at some position. -/
def issued (steps : List Step) (k : Nat) : Nat :=
  (after (steps.take k)).pool.flags.size

section Descends

variable {steps : List Step} {a b : Handle} {k l : Nat} {token : Token}

theorem issued_append (more : List Step) (hk : k ≤ steps.length) :
    issued (steps ++ more) k = issued steps k := by
  rw [issued, issued, List.take_append_of_le_length hk]

theorem issued_length (steps : List Step) :
    issued steps steps.length = (after steps).pool.flags.size := by
  rw [issued, List.take_length]

theorem issued_mono (steps : List Step) : Monotone (issued steps) := by
  refine monotone_nat_of_le_succ fun k => ?_
  rcases Nat.lt_or_ge k steps.length with hlt | hge
  · rw [issued, issued, List.take_succ_eq_append_getElem hlt, after_snoc]
    exact size_le_apply _ _
  · rw [issued, issued, List.take_of_length_le hge, List.take_of_length_le (Nat.le_succ_of_le hge)]

namespace Descends

theorem lt_length (h : Descends steps a k) : k < steps.length := by
  induction h with
  | original => simp
  | copied _ _ ih | earlier _ ih =>
    rw [List.length_append]
    exact Nat.lt_add_right _ ih

theorem append (h : Descends steps a k) (more : List Step) : Descends (steps ++ more) a k := by
  induction more using List.reverseRecOn with
  | nil => rwa [List.append_nil]
  | append_singleton more step ih =>
    rw [← List.append_assoc]
    exact ih.earlier

/-- The flag of a family is the one that was handed out to the original. -/
theorem token?_eq (h : Descends steps a k) : (after steps).token? a = some (issued steps k) := by
  induction h with
  | @original steps step a hmakes =>
    rw [after_snoc, hmakes.token?_apply, if_pos rfl, issued_append [step] (Nat.le_refl _),
      issued_length]
    rfl
  | @copied steps step a p k hmakes hp ih =>
    rw [after_snoc, hmakes.token?_apply, if_pos rfl,
      issued_append [step] (Nat.le_of_lt hp.lt_length)]
    exact ih
  | @earlier steps step a k h ih =>
    rw [after_snoc, issued_append [step] (Nat.le_of_lt h.lt_length)]
    exact token?_apply_eq_some_iff.2 (Or.inl ih)

/-- The step that makes the original hands out one flag. -/
theorem issued_succ (h : Descends steps a k) : issued steps (k + 1) = issued steps k + 1 := by
  induction h with
  | @original steps step a hmakes =>
    have hwhole := issued_length (steps ++ [step])
    rw [List.length_append, List.length_singleton, after_snoc, hmakes.size_apply] at hwhole
    rw [hwhole, issued_append [step] (Nat.le_refl _), issued_length]
  | @copied steps step a p k _ hp ih =>
    have hlt := hp.lt_length
    rw [issued_append [step] hlt, issued_append [step] (Nat.le_of_lt hlt), ih]
  | @earlier steps step a k h ih =>
    have hlt := h.lt_length
    rw [issued_append [step] hlt, issued_append [step] (Nat.le_of_lt hlt), ih]

theorem issued_lt (h : Descends steps a k) (hkl : k < l) : issued steps k < issued steps l :=
  calc issued steps k < issued steps k + 1 := Nat.lt_succ_self _
    _ = issued steps (k + 1) := h.issued_succ.symm
    _ ≤ issued steps l := issued_mono steps hkl

/-- Families of different originals have different flags. -/
theorem eq_of_issued_eq (h : Descends steps a k) (h' : Descends steps b l)
    (heq : issued steps k = issued steps l) : k = l := by
  rcases Nat.lt_trichotomy k l with hlt | hkl | hgt
  · exact absurd heq (Nat.ne_of_lt (h.issued_lt hlt))
  · exact hkl
  · exact absurd heq (Nat.ne_of_gt (h'.issued_lt hgt))

theorem unique (h : Descends steps a k) (h' : Descends steps a l) : k = l :=
  h.eq_of_issued_eq h' (Option.some.inj (h.token?_eq.symm.trans h'.token?_eq))

end Descends

/-- Every handle that was made descends from an original. -/
theorem exists_descends (h : (after steps).token? a = some token) : ∃ k, Descends steps a k := by
  induction steps using List.reverseRecOn generalizing a token with
  | nil => cases a <;> simp [after, run, empty, token?] at h
  | append_singleton steps step ih =>
    rw [after_snoc, token?_apply_eq_some_iff] at h
    rcases h with hbefore | ⟨source?, hmakes, hflag⟩
    · obtain ⟨k, hk⟩ := ih hbefore
      exact ⟨k, hk.earlier⟩
    · cases source? with
      | none => exact ⟨steps.length, .original hmakes⟩
      | some p =>
        obtain ⟨k, hk⟩ := ih hflag
        exact ⟨k, .copied hmakes hk⟩

theorem token_lt_size (h : (after steps).token? a = some token) :
    token < (after steps).pool.flags.size := by
  obtain ⟨k, hk⟩ := exists_descends h
  obtain rfl := Option.some.inj (h.symm.trans hk.token?_eq)
  rw [← issued_length]
  exact hk.issued_lt hk.lt_length

/-- Two handles share a flag exactly if they descend from one original. -/
theorem token?_eq_iff {s t : Token} (ha : (after steps).token? a = some s)
    (hb : (after steps).token? b = some t) :
    s = t ↔ ∃ k, Descends steps a k ∧ Descends steps b k := by
  obtain ⟨k, hk⟩ := exists_descends ha
  obtain ⟨l, hl⟩ := exists_descends hb
  have hs := Option.some.inj (ha.symm.trans hk.token?_eq)
  have ht := Option.some.inj (hb.symm.trans hl.token?_eq)
  constructor
  · intro heq
    obtain rfl := hk.eq_of_issued_eq hl (by rw [← hs, ← ht, heq])
    exact ⟨k, hk, hl⟩
  · rintro ⟨j, hja, hjb⟩
    exact Option.some.inj (ha.symm.trans (hja.token?_eq.trans (hjb.token?_eq.symm.trans hb)))

/-- A flag is cancelled exactly if some token on it has been cancelled. -/
theorem isCancelled_after_iff : (after steps).pool.isCancelled token = true ↔
    ∃ before t later, steps = before ++ .cancel t :: later ∧
      (after before).token? (.token t) = some token := by
  induction steps using List.reverseRecOn with
  | nil => simp [after, run, empty, TokenPool.empty, TokenPool.isCancelled]
  | append_singleton steps step ih =>
    rw [after_snoc, isCancelled_apply_iff fun _ _ => token_lt_size, ih]
    constructor
    · rintro (⟨before, t, later, rfl, ht⟩ | ⟨t, rfl, ht⟩)
      · exact ⟨before, t, later ++ [step], by simp, ht⟩
      · exact ⟨steps, t, [], rfl, ht⟩
    · rintro ⟨before, t, later, heq, ht⟩
      rcases snoc_eq_append_cons_iff.1 heq with ⟨rfl, rfl, -⟩ | ⟨rest, -, rfl⟩
      · exact Or.inr ⟨t, rfl, ht⟩
      · exact Or.inl ⟨before, t, rest, rfl, ht⟩

/-- A handle reads as cancelled exactly if some token of its family has been cancelled. -/
theorem Descends.isCancelled_iff (h : Descends steps a k) :
    (after steps).isCancelled a = true ↔
      ∃ before t later, steps = before ++ .cancel t :: later ∧ Descends before (.token t) k := by
  rw [isCancelled, h.token?_eq, Option.any_some, isCancelled_after_iff]
  refine exists_congr fun before => exists_congr fun t => exists_congr fun later =>
    and_congr_right ?_
  rintro rfl
  constructor
  · intro ht
    obtain ⟨l, hl⟩ := exists_descends ht
    have hflag := Option.some.inj (ht.symm.trans hl.token?_eq)
    rw [← issued_append (.cancel t :: later) (Nat.le_of_lt hl.lt_length)] at hflag
    obtain rfl := h.eq_of_issued_eq (hl.append _) hflag
    exact hl
  · intro hl
    rw [hl.token?_eq, issued_append _ (Nat.le_of_lt hl.lt_length)]

/-- A handle that reads as cancelled does so forever. -/
theorem isCancelled_append (more : List Step) (h : (after steps).isCancelled a = true) :
    (after (steps ++ more)).isCancelled a = true := by
  cases htoken : (after steps).token? a with
  | none =>
    rw [isCancelled, htoken] at h
    cases h
  | some token =>
    obtain ⟨k, hk⟩ := exists_descends htoken
    obtain ⟨before, t, later, rfl, ht⟩ := hk.isCancelled_iff.1 h
    exact (hk.append more).isCancelled_iff.2 ⟨before, t, later ++ more, by simp, ht⟩

end Descends

end Handles

end LoopTable
