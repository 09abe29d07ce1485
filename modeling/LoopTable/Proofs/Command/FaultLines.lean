import LoopTable.Command.Run

/-!
# Lines about an instruction at fault

A failed analysis is told with a line about the instruction at fault, if it is known. Every other
line that the command tells is a log record or a message that begins otherwise. So these lines can
be picked out of all that is told (`Line.isAtFault`), and a call tells just those of its job
(`filter_isAtFault_transcriptOf`), whatever else it tells and whichever records are shown.
-/

namespace LoopTable.Command

/-! ## How they begin -/

/-- How such a line begins. -/
def faultPrefix : String := "Instruction fautive: 0x"

/-- The line about an instruction at fault. -/
def Line.atFault (address : UInt64) : Line :=
  .message (faultPrefix ++ Numeral.padLeft '0' 4 (Numeral.hex address.toNat))

/-- Whether a line is about an instruction at fault. -/
def Line.isAtFault : Line → Bool
  | .message text => faultPrefix.toList.isPrefixOf text.toList
  | .logged _ => false

theorem isAtFault_atFault (address : UInt64) : (Line.atFault address).isAtFault = true := by
  show faultPrefix.toList.isPrefixOf (faultPrefix ++ _).toList = true
  rw [String.toList_append, List.isPrefixOf_iff_prefix]
  exact List.prefix_append _ _

/-- Whether a text begins with another character than the lines about instructions at fault. -/
def beginsOtherwise (text : String) : Bool :=
  text.toList.head?.any (· != 'I')

theorem beginsOtherwise_append {first : String} (h : beginsOtherwise first = true)
    (rest : String) : beginsOtherwise (first ++ rest) = true := by
  unfold beginsOtherwise at h ⊢
  rw [String.toList_append, List.head?_append]
  cases hfirst : first.toList.head? with
  | none =>
    rw [hfirst] at h
    cases h
  | some c =>
    rw [hfirst] at h
    exact h

/-- A message that begins otherwise is about something else. -/
theorem isAtFault_eq_false {text : String} (h : beginsOtherwise text = true) :
    (Line.message text).isAtFault = false := by
  refine Bool.eq_false_iff.2 fun hprefix => ?_
  obtain ⟨rest, hrest⟩ := List.isPrefixOf_iff_prefix.1 hprefix
  rw [beginsOtherwise, ← hrest] at h
  cases h

/-- No failure of an analysis is worded so. -/
theorem isAtFault_cause (cause : ResolutionError) :
    (Line.message cause.message).isAtFault = false := by
  refine isAtFault_eq_false ?_
  unfold ResolutionError.message
  -- only the words in front of the first value count
  cases cause with
  | tableTooSmall =>
    exact beginsOtherwise_append (beginsOtherwise_append (beginsOtherwise_append
      (beginsOtherwise_append (by decide) _) _) _) _
  | unmatched address =>
    cases address with
    | none => decide
    | some address => exact beginsOtherwise_append (by decide) _
  | unencodable =>
    exact beginsOtherwise_append (beginsOtherwise_append (beginsOtherwise_append
      (beginsOtherwise_append (by decide) _) _) _) _
  | memory => exact beginsOtherwise_append (by decide) _
  | missingBlock => exact beginsOtherwise_append (by decide) _
  | sharedBlock => exact beginsOtherwise_append (beginsOtherwise_append (by decide) _) _
  | cancelled => decide

theorem filter_isAtFault_logged (records : List Record) :
    (records.map Line.logged).filter Line.isAtFault = [] := by
  rw [List.filter_eq_nil_iff]
  intro line hline
  obtain ⟨record, -, rfl⟩ := List.mem_map.1 hline
  exact Bool.false_ne_true

/-- A failed analysis is told with the line about its instruction, if it has one. -/
theorem filter_isAtFault_complaints (cause : ResolutionError) :
    (complaints (MessageLog.empty.append cause)).filter Line.isAtFault =
      (cause.address?.map Line.atFault).toList := by
  have hmessage : ¬ (Line.message cause.message).isAtFault = true :=
    Bool.eq_false_iff.1 (isAtFault_cause cause)
  have hcomplaints : complaints (MessageLog.empty.append cause) =
      .message cause.message :: (cause.address?.map Line.atFault).toList := by
    simp only [complaints, MessageLog.append, MessageLog.empty, Option.none_or]
    cases cause.address? <;> rfl
  rw [hcomplaints, List.filter_cons_of_neg hmessage]
  cases cause.address? with
  | none => rfl
  | some address => exact List.filter_cons_of_pos (isAtFault_atFault address)

/-! ## Among other lines -/

/-- The records of an analysis and of its progress say nothing about instructions at fault. -/
theorem filter_isAtFault_told (records : List Record) (progress : Record) (lines : List Line) :
    (records.map Line.logged ++ [Line.logged progress] ++ lines).filter Line.isAtFault =
      lines.filter Line.isAtFault := by
  rw [List.filter_append, List.filter_append, filter_isAtFault_logged]
  rfl

/-- A filter hides no line about an instruction at fault. -/
theorem filter_isAtFault_shown (filter : Filter) (lines : List Line) :
    (lines.filter (·.isShown filter)).filter Line.isAtFault = lines.filter Line.isAtFault := by
  rw [List.filter_filter]
  refine congrArg (List.filter · lines) (funext fun line => ?_)
  cases line with
  | message text => exact Bool.and_true _
  | logged record => rfl

/-- A warning about the filter is no such line. -/
theorem filter_isAtFault_warned (warnings : List String) :
    (warnings.map fun w => Line.message s!"warning: {w}, ignoring it").filter Line.isAtFault =
      [] := by
  rw [List.filter_eq_nil_iff]
  intro line hline
  obtain ⟨w, -, rfl⟩ := List.mem_map.1 hline
  have hwarning : beginsOtherwise (toString "warning: ") = true := by decide
  have htext := beginsOtherwise_append (beginsOtherwise_append hwarning w) ", ignoring it"
  exact Bool.eq_false_iff.1 (isAtFault_eq_false htext)

/-- A call tells the lines about instructions at fault that its job tells, and no others. -/
theorem filter_isAtFault_transcriptOf (verbose : Bool) (filterText : Option String)
    (told : Told Unit) :
    (transcriptOf verbose filterText told).told.filter Line.isAtFault =
      told.2.filter Line.isAtFault := by
  obtain ⟨result, lines⟩ := told
  cases result with
  | ok =>
    show (_ ++ List.filter _ lines).filter Line.isAtFault = _
    rw [List.filter_append, filter_isAtFault_warned, filter_isAtFault_shown]
    rfl
  | error failure =>
    show (_ ++ List.filter _ (lines ++ _)).filter Line.isAtFault = _
    rw [List.filter_append, filter_isAtFault_warned, filter_isAtFault_shown, List.filter_append]
    exact List.append_nil _

end LoopTable.Command
