import Mathlib.Data.List.TakeWhile
import LoopTable.Command.Arguments

/-!
# How the resolving command is called

In front of the name of the command there may be the option to tell more, and behind it stand two
paths, with a file of settings and a processor if these are named. Options have several spellings
and can stand anywhere between the paths.

* `IsPlain` and `IsPath` are the arguments that can be values on their own.
* `Spelled` lists the spellings of one value and `Spells` those of several. `ResolveCall` is a whole
  call, without reference to how arguments are read; `resolveCall_usual` gives the usual one.
* `Looks` says which arguments have a shape; `looks_shape` and `shape_eq_of_looks` are the two ways
  in which it agrees with `shape`.
-/

namespace LoopTable.Command

/-! ## What a call says -/

/-- An argument that does not look like an option: it has no dash in front, or is a dash alone. -/
def IsPlain (argument : String) : Prop :=
  argument.toList.head? ≠ some '-' ∨ argument = "-"

/-- An argument that can stand for a path. -/
structure IsPath (argument : String) : Prop where
  /-- It does not look like an option. -/
  plain : IsPlain argument
  /-- It is not empty. -/
  nonempty : argument ≠ ""

/-- What a value is given for. -/
inductive Role
  | path
  | config
  | processor
  deriving DecidableEq

/-- How a value can be given for a role: on its own if it is a path, and behind its option in one
argument or in two. -/
inductive Spelled : Role → String → List String → Prop
  | path {path : String} : IsPath path → Spelled .path path [path]
  | config {path : String} : IsPath path → Spelled .config path ["--config", path]
  | configEquals {path : String} : path ≠ "" → Spelled .config path ["--config=" ++ path]
  | short {path : String} : IsPath path → Spelled .config path ["-c", path]
  | shortEquals {path : String} : path ≠ "" → Spelled .config path ["-c=" ++ path]
  | shortJoined {path : String} : path ≠ "" → path.toList.head? ≠ some '=' →
      Spelled .config path ["-c" ++ path]
  | processor {name : String} : IsPlain name → Spelled .processor name ["--processor", name]
  | processorEquals {name : String} : Spelled .processor name ["--processor=" ++ name]

/-- How values can be given, one behind the other. What stands behind two dashes are paths. -/
inductive Spells : List (Role × String) → List String → Prop
  | nil : Spells [] []
  | cons {role : Role} {value : String} {front : List String} {given : List (Role × String)}
      {arguments : List String} : Spelled role value front → Spells given arguments →
      Spells ((role, value) :: given) (front ++ arguments)
  | behindDashes {paths : List String} : (∀ path ∈ paths, path ≠ "") →
      Spells (paths.map (Role.path, ·)) ("--" :: paths)

/-- The values that are given for a role, in order. -/
def valuesFor (role : Role) (given : List (Role × String)) : List String :=
  given.filterMap fun value => if value.1 = role then some value.2 else none

/-- Arguments that name two paths, and perhaps a file of settings and a processor. -/
inductive Names (image table : String) (config processor : Option String) : List String → Prop
  | intro {given : List (Role × String)} {arguments : List String} : Spells given arguments →
      valuesFor .path given = [image, table] → valuesFor .config given = config.toList →
      valuesFor .processor given = processor.toList →
      Names image table config processor arguments

/-- A well-formed call to resolve an image, which tells more if the flag is set. -/
inductive ResolveCall (image table : String) (config processor : Option String) :
    Bool → List String → Prop
  | quiet {arguments : List String} : Names image table config processor arguments →
      ResolveCall image table config processor false ("resolve" :: arguments)
  | verbose {option : String} {arguments : List String} : option = "--verbose" ∨ option = "-v" →
      Names image table config processor arguments →
      ResolveCall image table config processor true (option :: "resolve" :: arguments)

theorem valuesFor_cons (role role' : Role) (value : String) (given : List (Role × String)) :
    valuesFor role ((role', value) :: given) =
      (if role' = role then [value] else []) ++ valuesFor role given := by
  rw [valuesFor, List.filterMap_cons]
  by_cases h : role' = role
  · rw [if_pos h, if_pos h]
    rfl
  · rw [if_neg h, if_neg h]
    rfl

/-- The usual order: the two paths, the file of settings, the processor. -/
theorem resolveCall_usual {image table : String} {config processor : Option String}
    (himage : IsPath image) (htable : IsPath table) (hconfig : ∀ path ∈ config, IsPath path)
    (hprocessor : ∀ name ∈ processor, IsPlain name) :
    ResolveCall image table config processor false
      ("resolve" :: image :: table ::
        (config.elim [] fun path => ["--config", path]) ++
          processor.elim [] fun name => ["--processor", name]) := by
  have hpaths : ∀ {given arguments}, Spells given arguments →
      Spells ((.path, image) :: (.path, table) :: given) (image :: table :: arguments) :=
    fun h => .cons (.path himage) (.cons (.path htable) h)
  have hprocessors : Spells (processor.toList.map (Role.processor, ·))
      (processor.elim [] fun name => ["--processor", name]) := by
    cases processor with
    | none => exact .nil
    | some name => exact .cons (.processor (hprocessor name rfl)) .nil
  cases config with
  | none =>
    refine .quiet (.intro (hpaths hprocessors) ?_ ?_ ?_) <;> cases processor <;> rfl
  | some path =>
    refine .quiet (.intro (hpaths (.cons (.config (hconfig path rfl)) hprocessors)) ?_ ?_ ?_) <;>
      cases processor <;> rfl

/-! ## Shapes -/

/-- The arguments of a shape. -/
inductive Looks : String → Shape → Prop
  | endOfOptions : Looks "--" .endOfOptions
  | long {name : String} : name ≠ "" → '=' ∉ name.toList → Looks ("--" ++ name) (.long name none)
  | longEquals {name value : String} : '=' ∉ name.toList →
      Looks ("--" ++ name ++ "=" ++ value) (.long name (some value))
  | short {c : Char} {letters : List Char} : c ≠ '-' →
      Looks ("-" ++ String.ofList (c :: letters)) (.short (c :: letters))
  | plain {argument : String} : IsPlain argument → Looks argument .plain

/-- Behind two dashes stand a name and, after an equals sign, a value. -/
theorem shape_of_dashes {argument : String} {c : Char} {rest : List Char}
    (h : argument.toList = '-' :: '-' :: c :: rest) :
    shape argument = .long (String.ofList ((c :: rest).takeWhile (· != '=')))
      (((c :: rest).dropWhile (· != '=')).tail?.map String.ofList) := by
  rw [shape, h]
  split
  case h_1 heq => cases heq
  case h_2 heq =>
    cases heq
    split
    · rename_i heq
      rw [heq]
      rfl
    · rename_i heq
      rw [heq]
      rfl
  case h_3 hne heq =>
    cases heq
    exact (hne rfl).elim
  case h_4 hne _ => exact (hne _ rfl).elim

theorem shape_eq_of_looks {argument : String} {s : Shape} (h : Looks argument s) :
    shape argument = s := by
  have hall : ∀ {name : String}, '=' ∉ name.toList → ∀ c ∈ name.toList, (c != '=') = true :=
    fun h c hc => bne_iff_ne.2 fun heq => h (heq ▸ hc)
  cases h with
  | endOfOptions => rfl
  | @long name hname hequals =>
    cases hchars : name.toList with
    | nil => exact absurd (String.toList_eq_nil_iff.1 hchars) hname
    | cons c rest =>
      have hlong : ("--" ++ name).toList = '-' :: '-' :: c :: rest := by
        rw [String.toList_append, hchars]
        rfl
      have htake : name.toList.takeWhile (· != '=') = name.toList :=
        List.takeWhile_eq_self_iff.2 (hall hequals)
      have hdrop : name.toList.dropWhile (· != '=') = [] :=
        List.dropWhile_eq_nil_iff.2 (hall hequals)
      rw [shape_of_dashes hlong, ← hchars, htake, hdrop, String.ofList_toList]
      rfl
  | @longEquals name value hequals =>
    obtain ⟨c, rest, hchars⟩ : ∃ c rest, name.toList ++ '=' :: value.toList = c :: rest :=
      List.exists_cons_of_ne_nil (List.append_ne_nil_of_right_ne_nil _ (List.cons_ne_nil _ _))
    have hlong : ("--" ++ name ++ "=" ++ value).toList = '-' :: '-' :: c :: rest := by
      rw [← hchars]
      simp only [String.toList_append, List.append_assoc]
      rfl
    rw [shape_of_dashes hlong, ← hchars, List.takeWhile_append_of_pos (hall hequals),
      List.dropWhile_append_of_pos (hall hequals)]
    show Shape.long (String.ofList (name.toList ++ [])) (some (String.ofList value.toList)) = _
    rw [List.append_nil, String.ofList_toList, String.ofList_toList]
  | @short c letters hc =>
    have hshort : ("-" ++ String.ofList (c :: letters)).toList = '-' :: c :: letters := by
      rw [String.toList_append, String.toList_ofList, String.toList_ofList]
      rfl
    rw [shape, hshort]
    split
    case h_1 heq | h_2 heq =>
      cases heq
      exact absurd rfl hc
    case h_3 heq =>
      cases heq
      rfl
    case h_4 hne => exact (hne _ _ rfl).elim
  | @plain argument hplain =>
    rcases hplain with hhead | rfl
    · unfold shape
      split
      case h_4 => rfl
      all_goals
        rename_i heq
        exact absurd (congrArg List.head? heq) hhead
    · rfl

theorem exists_looks (argument : String) : ∃ s, Looks argument s := by
  by_cases hplain : IsPlain argument
  · exact ⟨_, .plain hplain⟩
  -- there is a dash in front and something behind it
  obtain ⟨hhead, hdash⟩ := not_or.1 hplain
  obtain ⟨rest, hrest⟩ := List.head?_eq_some_iff.1 (not_not.1 hhead)
  obtain rfl : argument = "-" ++ String.ofList rest := String.toList_inj.1 (by
    rw [hrest, String.toList_append, String.toList_ofList, String.toList_ofList]
    rfl)
  cases rest with
  | nil => exact absurd rfl hdash
  | cons c letters =>
    by_cases hc : c = '-'
    · have hdashes : "-" ++ String.ofList (c :: letters) = "--" ++ String.ofList letters :=
        String.toList_inj.1 (by simp [hc])
      rw [hdashes]
      by_cases hequals : '=' ∈ letters
      · obtain ⟨name, value, rfl, hname⟩ := List.eq_append_cons_of_mem hequals
        have hvalue : "--" ++ String.ofList (name ++ '=' :: value) =
            "--" ++ String.ofList name ++ "=" ++ String.ofList value :=
          String.toList_inj.1 (by simp)
        rw [hvalue]
        exact ⟨_, .longEquals (by rwa [String.toList_ofList])⟩
      · by_cases hletters : letters = []
        · rw [hletters]
          exact ⟨_, .endOfOptions⟩
        · have hne : String.ofList letters ≠ "" := fun h =>
            hletters (by rw [← @String.toList_ofList letters, h, String.toList_empty])
          exact ⟨_, .long hne (by rwa [String.toList_ofList])⟩
    · exact ⟨_, .short hc⟩

/-- Every argument looks like its shape. -/
theorem looks_shape (argument : String) : Looks argument (shape argument) := by
  obtain ⟨s, hlooks⟩ := exists_looks argument
  rw [shape_eq_of_looks hlooks]
  exact hlooks

end LoopTable.Command
