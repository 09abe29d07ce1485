import LoopTable.Proofs.Command.Operands

/-!
# Reading a call to resolve an image

`resolveCall_iff`: the well-formed calls are those that ask for the job that they name.

A call can stop early, with a mistake or with a question. `AsksNoJob` says that a part of reading
never stops with a job, so that a job is only asked for by a call that is read to the end.
-/

namespace LoopTable.Command

/-! ## Stopping early -/

/-- Reading that stops, if it does, at a mistake or at a question, never at a job. -/
def AsksNoJob {α : Type} (reading : Reading α) : Prop :=
  ∀ verbose job, reading ≠ .error (.ok (.run verbose job))

theorem asksNoJob_ok {α : Type} (a : α) : AsksNoJob (.ok a) :=
  fun _ _ => nofun

theorem asksNoJob_refuse {α : Type} (e : UsageError) : AsksNoJob (refuse e : Reading α) :=
  fun _ _ => nofun

theorem asksNoJob_help {α : Type} (topic : List Subcommand) :
    AsksNoJob (ask (.help topic) : Reading α) :=
  fun _ _ => nofun

theorem AsksNoJob.bind {α β : Type} {reading : Reading α} {next : α → Reading β}
    (h : AsksNoJob reading) (hnext : ∀ a, AsksNoJob (next a)) : AsksNoJob (reading >>= next) := by
  intro verbose job heq
  cases reading with
  | ok a => exact hnext a verbose job heq
  | error stopped => exact h verbose job (congrArg Except.error (Except.error.inj heq))

theorem asksNoJob_take (o : Operands) (role : Role) (value : String) :
    AsksNoJob (o.take role value) := by
  have htakes := Operands.takes_take o role value
  generalize o.take role value = reading at htakes
  cases htakes with
  | refused => exact asksNoJob_refuse _
  | taken => exact asksNoJob_ok _

theorem asksNoJob_readPlain (o : Operands) (paths : List String) :
    AsksNoJob (o.readPlain paths) := by
  induction paths generalizing o with
  | nil => exact asksNoJob_ok o
  | cons path paths ih => exact (asksNoJob_take o .path path).bind ih

theorem asksNoJob_read (of : Subcommand) (o : Operands) (arguments : List String) :
    AsksNoJob (o.read of arguments) := by
  fun_induction Operands.read of o arguments
  case case1 => exact asksNoJob_ok _
  case case2 => exact asksNoJob_readPlain _ _
  case case3 ih => exact (asksNoJob_take _ .path _).bind ih
  case case5 ih | case7 ih | case15 ih | case18 ih | case19 ih =>
    subst_vars
    exact (asksNoJob_take _ .config _).bind ih
  case case6 ih | case10 ih =>
    subst_vars
    exact (asksNoJob_take _ .processor _).bind ih
  case case4 | case14 => exact asksNoJob_help _
  all_goals exact asksNoJob_refuse _

theorem asksNoJob_job (of : Subcommand) (o : Operands) : AsksNoJob (o.job of) := by
  unfold Operands.job
  split <;> split <;> first | exact asksNoJob_ok _ | exact asksNoJob_refuse _

theorem asksNoJob_helpTopic (found : List Subcommand) (more : Bool) (names : List String) :
    AsksNoJob (helpTopic found more names) := by
  fun_induction helpTopic found more names
  case case1 => exact asksNoJob_ok _
  case case2 ih => exact ih
  case case3 => exact asksNoJob_refuse _

theorem asksNoJob_readLetters (verbose : Bool) (argument : String) (letters : List Char) :
    AsksNoJob (readLetters verbose argument letters) := by
  fun_induction readLetters verbose argument letters
  case case1 => exact asksNoJob_ok _
  case case2 | case6 => exact asksNoJob_refuse _
  case case3 ih => exact ih
  case case4 => exact asksNoJob_help _
  case case5 => exact fun _ _ => nofun

theorem asksNoJob_readCall (verbose : Bool) (arguments : List String) :
    AsksNoJob (readCall verbose arguments) := by
  fun_induction readCall verbose arguments
  case case3 ih => exact ih
  case case4 => exact asksNoJob_help _
  case case5 => exact fun _ _ => nofun
  case case7 ih => exact (asksNoJob_readLetters _ _ _).bind ih
  case case11 => exact (asksNoJob_helpTopic _ _ _).bind asksNoJob_help
  case case12 =>
    exact (asksNoJob_read _ _ _).bind fun o =>
      (asksNoJob_job _ o).bind fun job => asksNoJob_ok _
  all_goals exact asksNoJob_refuse _

/-- A call asks for a job only if it is read to the end. -/
theorem ofArguments_eq_run_iff {arguments : List String} {verbose : Bool} {job : Job} :
    Request.ofArguments arguments = .ok (.run verbose job) ↔
      readCall false arguments = .ok (.run verbose job) := by
  have hasks := asksNoJob_readCall false arguments verbose job
  unfold Request.ofArguments
  cases hread : readCall false arguments with
  | ok request =>
    show Except.ok request = _ ↔ _
    rw [Except.ok.injEq, Except.ok.injEq]
  | error stopped =>
    rw [hread] at hasks
    exact ⟨fun h => absurd (congrArg Except.error h) hasks, nofun⟩

/-! ## Calls that ask for the job -/

theorem eq_nil_of_readLetters_true {flag : Bool} {argument : String} {letters : List Char}
    (h : readLetters true argument letters = .ok flag) : letters = [] ∧ flag = true := by
  rw [readLetters.eq_def] at h
  split at h
  case h_1 =>
    cases h
    exact ⟨rfl, rfl⟩
  all_goals cases h

theorem eq_v_of_readLetters {told flag : Bool} {argument : String} {c : Char}
    {letters : List Char} (h : readLetters told argument (c :: letters) = .ok flag) :
    told = false ∧ c :: letters = ['v'] ∧ flag = true := by
  rw [readLetters.eq_def] at h
  split at h
  case h_1 heq => cases heq
  case h_2 heq =>
    cases heq
    split at h
    · cases h
    · rename_i htold
      obtain ⟨rfl, rfl⟩ := eq_nil_of_readLetters_true h
      exact ⟨eq_false_of_ne_true htold, rfl, rfl⟩
  all_goals cases h

theorem eq_name_of_ofName? {name : String} {s : Subcommand} (h : Subcommand.ofName? name = some s) :
    name = s.name := by
  rw [Subcommand.ofName?] at h
  have hfound := List.find?_some h
  exact (beq_iff_eq.1 hfound).symm

/-- The arguments of a job to resolve an image are its two paths and what else it names. -/
theorem eq_of_job_resolve {o : Operands} {s : Subcommand} {image table : String}
    {config processor : Option String}
    (h : o.job s = .ok (.resolve image table config processor)) :
    s ≠ .assemble ∧ o = ⟨[image, table], config, processor⟩ := by
  obtain ⟨positional, settings, named⟩ := o
  unfold Operands.job at h
  split at h
  · split at h <;> cases h
  · rename_i hs
    refine ⟨hs, ?_⟩
    split at h
    case h_1 heq =>
      cases h
      rw [← heq]
    all_goals cases h

/-- A call for the job begins with the name of the command, or with the option to tell more. -/
theorem begins_of_readCall {told verbose : Bool} {arguments : List String}
    {image table : String} {config processor : Option String}
    (h : readCall told arguments = .ok (.run verbose (.resolve image table config processor))) :
    (∃ rest, arguments = "resolve" :: rest ∧ verbose = told ∧
      Names image table config processor rest) ∨
    ∃ option rest, arguments = option :: rest ∧ (option = "--verbose" ∨ option = "-v") ∧
      told = false ∧
        readCall true rest = .ok (.run verbose (.resolve image table config processor)) := by
  cases arguments with
  | nil => cases h
  | cons argument rest =>
    have hlooks := looks_shape argument
    rw [readCall.eq_def] at h
    dsimp only at h
    split at h
    case h_1 hshape =>
      rw [hshape] at hlooks
      cases hlooks
      split at h
      · cases h
      · rename_i htold
        exact .inr ⟨_, rest, rfl, .inl rfl, eq_false_of_ne_true htold, h⟩
    case h_2 | h_3 | h_4 => cases h
    case h_5 hshape =>
      rw [hshape] at hlooks
      cases hlooks
      obtain ⟨flag, hletters, hread⟩ := exists_of_bind_eq_ok h
      obtain ⟨htold, hv, rfl⟩ := eq_v_of_readLetters hletters
      rw [hv]
      exact .inr ⟨_, rest, rfl, .inr rfl, htold, hread⟩
    case h_6 => cases rest <;> cases h
    case h_7 =>
      split at h
      case h_1 => cases h
      case h_2 =>
        obtain ⟨topic, -, hask⟩ := exists_of_bind_eq_ok h
        cases hask
      case h_3 s hhelp hname =>
        obtain ⟨o, hread, hrun⟩ := exists_of_bind_eq_ok h
        obtain ⟨job, hjob, hreturn⟩ := exists_of_bind_eq_ok hrun
        cases hreturn
        obtain ⟨hassemble, rfl⟩ := eq_of_job_resolve hjob
        cases s with
        | assemble => exact absurd rfl hassemble
        | help => exact (hhelp rfl).elim
        | resolve => exact .inl ⟨rest, congrArg (· :: rest) (eq_name_of_ofName? hname), rfl,
            names_iff.2 hread⟩

theorem readCall_of_names (told : Bool) {arguments : List String}
    {image table : String} {config processor : Option String}
    (h : Names image table config processor arguments) :
    readCall told ("resolve" :: arguments) =
      .ok (.run told (.resolve image table config processor)) := by
  have hshape : shape "resolve" = .plain := by rfl
  have hname : Subcommand.ofName? "resolve" = some .resolve := by rfl
  rw [readCall.eq_def]
  simp only [hshape, hname, names_iff.1 h]
  rfl

/-- The well-formed calls are those that ask for the job that they name. -/
theorem resolveCall_iff {image table : String} {config processor : Option String}
    {verbose : Bool} {arguments : List String} :
    ResolveCall image table config processor verbose arguments ↔
      Request.ofArguments arguments =
        .ok (.run verbose (.resolve image table config processor)) := by
  rw [ofArguments_eq_run_iff]
  constructor
  · rintro (hnames | ⟨rfl | rfl, hnames⟩)
    · exact readCall_of_names false hnames
    · exact readCall_of_names true hnames
    · exact readCall_of_names true hnames
  · intro h
    rcases begins_of_readCall h with ⟨rest, rfl, rfl, hnames⟩ | ⟨option, rest, rfl, hoption, -, h⟩
    · exact .quiet hnames
    · rcases begins_of_readCall h with ⟨rest, rfl, rfl, hnames⟩ | ⟨_, _, -, -, htold, -⟩
      · exact .verbose hoption hnames
      · cases htold

end LoopTable.Command
