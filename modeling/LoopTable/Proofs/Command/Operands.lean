import LoopTable.Proofs.Command.Spelling
import LoopTable.Proofs.Storage.FileTree

/-!
# Reading the values of a call

The arguments of the resolving command are read one value after the other. `Operands.take` takes a
value that was found, and `Operands.Takes` lists what can come of that. What was read and what is
still given make up the same values all the time (`Operands.LeadsTo`).

* `read_append_of_spelled` and `begins_of_read` are one step: a value is read in each of its
  spellings, and in no other.
* `read_of_spells` and `exists_spells_of_read` are all steps; `names_iff` is what follows for whole
  lists of arguments.
-/

namespace LoopTable.Command

/-! ## Taking a value -/

/-- How often a value can be given for a role. -/
def Role.most : Role → Nat
  | path => 2
  | config | processor => 1

namespace Operands

/-- The values that are read for a role. -/
def valuesFor (o : Operands) : Role → List String
  | .path => o.positional
  | .config => o.settings.toList
  | .processor => o.processor.toList

/-- Takes a value for a role. -/
def take (o : Operands) : Role → String → Reading Operands
  | .path => o.addPositional
  | .config => o.addSettings
  | .processor => o.addProcessor

variable {o o' final : Operands} {role : Role} {value : String} {given : List (Role × String)}

theorem ext_valuesFor (h : ∀ role, o.valuesFor role = o'.valuesFor role) : o = o' := by
  obtain ⟨positional, settings, processor⟩ := o
  obtain ⟨positional', settings', processor'⟩ := o'
  have hsettings := congrArg List.head? (h .config)
  have hprocessor := congrArg List.head? (h .processor)
  simp only [valuesFor, Option.head?_toList] at hsettings hprocessor
  obtain rfl : positional = positional' := h .path
  subst hsettings hprocessor
  rfl

/-- A value is taken as long as there is room, but none that is empty for a path. -/
theorem exists_take (hvalue : role ≠ .processor → value ≠ "")
    (hroom : (o.valuesFor role).length < role.most) : ∃ o', o.take role value = .ok o' := by
  have hempty : role ≠ .processor → ¬ value.isEmpty = true := fun hrole h =>
    hvalue hrole (String.isEmpty_iff.1 h)
  have hnone : ∀ {given : Option String}, given.toList.length < 1 → given = none := fun h =>
    Option.toList_eq_nil_iff.1 (List.length_eq_zero_iff.1 (Nat.lt_one_iff.1 h))
  cases role with
  | path =>
    have hshort : ¬ 2 ≤ o.positional.length := Nat.not_le.2 hroom
    rw [take, addPositional, if_neg hshort, if_neg (hempty nofun)]
    exact ⟨_, rfl⟩
  | config =>
    rw [take, addSettings, if_neg (hempty nofun), hnone hroom]
    exact ⟨_, rfl⟩
  | processor =>
    rw [take, addProcessor, hnone hroom]
    exact ⟨_, rfl⟩

/-- What can come of taking a value: if it is taken, then behind those that were taken before. -/
inductive Takes (o : Operands) (role : Role) (value : String) : Reading Operands → Prop
  | refused {e : UsageError} : Takes o role value (refuse e)
  | taken {o' : Operands} : (role ≠ .processor → value ≠ "") →
      (∀ r, o'.valuesFor r = o.valuesFor r ++ if role = r then [value] else []) →
      Takes o role value (.ok o')

theorem takes_take (o : Operands) (role : Role) (value : String) :
    Takes o role value (o.take role value) := by
  have hne : ¬ value.isEmpty = true → value ≠ "" := mt String.isEmpty_iff.2
  obtain ⟨positional, settings, processor⟩ := o
  cases role with
  | path =>
    rw [take, addPositional]
    split
    · exact .refused
    split
    · exact .refused
    · rename_i hempty
      refine .taken (fun _ => hne hempty) fun r => ?_
      cases r <;> simp [valuesFor]
  | config =>
    rw [take, addSettings]
    split
    · exact .refused
    · rename_i hempty
      cases settings with
      | some => exact .refused
      | none =>
        refine .taken (fun _ => hne hempty) fun r => ?_
        cases r <;> simp [valuesFor]
  | processor =>
    rw [take, addProcessor]
    cases processor with
    | some => exact .refused
    | none =>
      refine .taken (fun h => absurd rfl h) fun r => ?_
      cases r <;> simp [valuesFor]

theorem ne_empty_of_take (h : o.take role value = .ok o') (hrole : role ≠ .processor) :
    value ≠ "" := by
  have htakes := takes_take o role value
  rw [h] at htakes
  cases htakes with
  | taken hvalue => exact hvalue hrole

/-- With the values that are still given, the arguments read so far come to these in the end. -/
def LeadsTo (o : Operands) (given : List (Role × String)) (final : Operands) : Prop :=
  ∀ role, o.valuesFor role ++ LoopTable.Command.valuesFor role given = final.valuesFor role

theorem leadsTo_nil_iff : o.LeadsTo [] final ↔ o = final := by
  constructor
  · intro h
    exact ext_valuesFor fun role => (List.append_nil _).symm.trans (h role)
  · rintro rfl role
    exact List.append_nil _

theorem leadsTo_cons_iff_of_take (h : o.take role value = .ok o') :
    o.LeadsTo ((role, value) :: given) final ↔ o'.LeadsTo given final := by
  have htakes := takes_take o role value
  rw [h] at htakes
  cases htakes with
  | taken _ hvalues =>
    refine forall_congr' fun r => ?_
    rw [valuesFor_cons, hvalues, List.append_assoc]

/-- The next value is taken, since there is room for all that are given. -/
theorem LeadsTo.exists_take (h : o.LeadsTo ((role, value) :: given) final)
    (hroom : ∀ role, (final.valuesFor role).length ≤ role.most)
    (hvalue : role ≠ .processor → value ≠ "") : ∃ o', o.take role value = .ok o' := by
  refine Operands.exists_take hvalue ?_
  have hlength := congrArg List.length (h role)
  rw [valuesFor_cons, if_pos rfl, List.length_append, List.length_append,
    List.length_singleton] at hlength
  have hmost := hroom role
  omega

end Operands

/-! ## Reading values -/

section Reading

variable {o o' final : Operands} {role : Role} {value : String} {front : List String}

theorem isValue_iff {argument : String} : Operands.isValue argument = true ↔ IsPlain argument := by
  have hlooks := looks_shape argument
  unfold Operands.isValue
  constructor
  · intro h
    split at h
    case h_1 heq =>
      rw [heq] at hlooks
      cases hlooks with
      | plain hplain => exact hplain
    case h_2 => cases h
  · intro h
    rw [shape_eq_of_looks (.plain h)]

theorem Spelled.ne_empty (h : Spelled role value front) (hrole : role ≠ .processor) :
    value ≠ "" := by
  cases h with
  | path hpath | config hpath | short hpath => exact hpath.nonempty
  | configEquals hvalue | shortEquals hvalue | shortJoined hvalue => exact hvalue
  | processor | processorEquals => exact absurd rfl hrole

theorem Spelled.ne_nil (h : Spelled role value front) : front ≠ [] := by
  cases h <;> exact List.cons_ne_nil _ _

/-- However a value is spelled, it is taken for its role. -/
theorem read_append_of_spelled (h : Spelled role value front) (o : Operands)
    (rest : List String) :
    o.read .resolve (front ++ rest) = o.take role value >>= fun o' => o'.read .resolve rest := by
  cases h with
  | path hpath =>
    rw [List.singleton_append, Operands.read.eq_def]
    simp only [shape_eq_of_looks (.plain hpath.plain)]
    rfl
  | config hpath =>
    have hshape : shape "--config" = .long "config" none := by rfl
    rw [List.cons_append, Operands.read.eq_def]
    simp only [hshape, List.singleton_append, isValue_iff.2 hpath.plain, if_true]
    rfl
  | configEquals =>
    have hshape : shape ("--config=" ++ value) = .long "config" (some value) :=
      shape_eq_of_looks (@Looks.longEquals "config" value (by decide))
    rw [List.singleton_append, Operands.read.eq_def]
    simp only [hshape]
    rfl
  | short hpath =>
    have hshape : shape "-c" = .short ['c'] := by rfl
    rw [List.cons_append, Operands.read.eq_def]
    simp only [hshape, List.singleton_append, isValue_iff.2 hpath.plain, if_true]
    rfl
  | shortEquals =>
    have hshape : shape ("-c=" ++ value) = .short ('c' :: '=' :: value.toList) := by
      rw [← shape_eq_of_looks (.short (by decide))]
      exact congrArg shape (String.toList_inj.1 (by simp))
    rw [List.singleton_append, Operands.read.eq_def]
    simp only [hshape, String.ofList_toList]
    rfl
  | shortJoined hvalue hequals =>
    have hshape : shape ("-c" ++ value) = .short ('c' :: value.toList) := by
      rw [← shape_eq_of_looks (.short (by decide))]
      exact congrArg shape (String.toList_inj.1 (by simp))
    rw [List.singleton_append, Operands.read.eq_def]
    simp only [hshape]
    -- a value joined to the letter is neither missing nor behind an equals sign
    split
    case h_1 heq => cases heq
    case h_2 heq => exact absurd (String.toList_eq_nil_iff.1 (List.cons.inj heq).2) hvalue
    case h_3 heq => exact absurd (congrArg List.head? (List.cons.inj heq).2) hequals
    case h_4 heq =>
      obtain rfl := (List.cons.inj heq).2
      rw [String.ofList_toList]
      rfl
    case h_5 hnone => exact (hnone _ rfl rfl).elim
  | processor hname =>
    have hshape : shape "--processor" = .long "processor" none := by rfl
    rw [List.cons_append, Operands.read.eq_def]
    simp only [hshape, List.singleton_append, isValue_iff.2 hname, if_true]
    rfl
  | processorEquals =>
    have hshape : shape ("--processor=" ++ value) = .long "processor" (some value) :=
      shape_eq_of_looks (@Looks.longEquals "processor" value (by decide))
    rw [List.singleton_append, Operands.read.eq_def]
    simp only [hshape]
    rfl

/-- What comes first among the arguments that are read to the end: two dashes, or a value. -/
inductive Begins (o final : Operands) : List String → Prop
  | dashes {rest : List String} : o.readPlain rest = .ok final → Begins o final ("--" :: rest)
  | value {role : Role} {value : String} {front rest : List String} {o' : Operands} :
      Spelled role value front → o.take role value = .ok o' →
      o'.read .resolve rest = .ok final → Begins o final (front ++ rest)

theorem begins_of_take {rest : List String}
    (hspelled : (role ≠ .processor → value ≠ "") → Spelled role value front)
    (h : (o.take role value >>= fun o' => o'.read .resolve rest) = .ok final) :
    Begins o final (front ++ rest) := by
  obtain ⟨o', htake, hread⟩ := exists_of_bind_eq_ok h
  exact .value (hspelled (Operands.ne_empty_of_take htake)) htake hread

/-- The same for an option whose value is the next argument. -/
theorem begins_of_next {rest : List String} {option : String} {e : UsageError}
    (hspelled : IsPlain value → (role ≠ .processor → value ≠ "") →
      Spelled role value [option, value])
    (h : (if Operands.isValue value = true then
        o.take role value >>= fun o' => o'.read .resolve rest else refuse e) = .ok final) :
    Begins o final (option :: value :: rest) := by
  split at h
  · rename_i hvalue
    exact begins_of_take (hspelled (isValue_iff.1 hvalue)) h
  · cases h

theorem begins_of_read {argument : String} {rest : List String}
    (h : o.read .resolve (argument :: rest) = .ok final) : Begins o final (argument :: rest) := by
  have hlooks := looks_shape argument
  rw [Operands.read.eq_def] at h
  dsimp only at h
  generalize shape argument = s at hlooks h
  cases hlooks with
  | endOfOptions => exact .dashes h
  | plain hplain =>
    have hpath : (o.take .path argument >>= fun o' => o'.read .resolve rest) = .ok final := h
    rw [← List.singleton_append]
    exact begins_of_take (fun hvalue => .path ⟨hplain, hvalue nofun⟩) hpath
  | long =>
    dsimp only at h
    split at h
    case h_4 =>
      cases rest with
      | nil => cases h
      | cons value rest =>
        exact begins_of_next (fun hplain hvalue => .config ⟨hplain, hvalue nofun⟩) h
    case h_5 =>
      cases rest with
      | nil => cases h
      | cons value rest => exact begins_of_next (fun hplain _ => .processor hplain) h
    case h_2 heq _ _ | h_3 heq _ _ => cases heq
    case h_1 | h_6 => cases h
  | longEquals =>
    dsimp only at h
    split at h
    case h_2 heq _ =>
      cases heq
      exact begins_of_take (fun hvalue => .configEquals (hvalue nofun)) h
    case h_3 heq _ =>
      cases heq
      exact begins_of_take (fun _ => .processorEquals) h
    case h_1 heq _ | h_4 heq _ | h_5 heq _ => cases heq
    case h_6 => cases h
  | @short c letters =>
    dsimp only at h
    split at h
    case h_2 heq =>
      cases heq
      cases rest with
      | nil => cases h
      | cons value rest =>
        exact begins_of_next (fun hplain hvalue => .short ⟨hplain, hvalue nofun⟩) h
    case h_3 path _ heq =>
      cases heq
      have hjoined : "-" ++ String.ofList ('c' :: '=' :: path) = "-c=" ++ String.ofList path :=
        String.toList_inj.1 (by simp)
      rw [hjoined]
      exact begins_of_take (fun hvalue => .shortEquals (hvalue nofun)) h
    case h_4 hequals _ heq =>
      cases heq
      have hjoined : "-" ++ String.ofList ('c' :: letters) = "-c" ++ String.ofList letters :=
        String.toList_inj.1 (by simp)
      have hhead : (String.ofList letters).toList.head? ≠ some '=' := fun h => by
        rw [String.toList_ofList] at h
        obtain ⟨rest, hrest⟩ := List.head?_eq_some_iff.1 h
        exact hequals rest hrest
      rw [hjoined]
      exact begins_of_take (fun hvalue => .shortJoined (hvalue nofun) hhead) h
    case h_1 | h_5 => cases h

/-- Behind two dashes all arguments are paths. -/
theorem readPlain_eq_ok_iff {o final : Operands}
    (hroom : ∀ role, (final.valuesFor role).length ≤ role.most) {paths : List String} :
    o.readPlain paths = .ok final ↔
      (∀ path ∈ paths, path ≠ "") ∧ o.LeadsTo (paths.map (Role.path, ·)) final := by
  induction paths generalizing o with
  | nil =>
    rw [Operands.readPlain, List.map_nil, Operands.leadsTo_nil_iff, Except.ok.injEq]
    exact ⟨fun h => ⟨nofun, h⟩, And.right⟩
  | cons path paths ih =>
    constructor
    · intro h
      obtain ⟨o', htake, hread⟩ : ∃ o', o.take .path path = .ok o' ∧
          o'.readPlain paths = .ok final := exists_of_bind_eq_ok h
      obtain ⟨hpaths, hleads⟩ := ih.1 hread
      exact ⟨List.forall_mem_cons.2 ⟨Operands.ne_empty_of_take htake nofun, hpaths⟩,
        (Operands.leadsTo_cons_iff_of_take htake).2 hleads⟩
    · rintro ⟨hpaths, hleads⟩
      obtain ⟨hpath, hpaths⟩ := List.forall_mem_cons.1 hpaths
      obtain ⟨o', htake⟩ := hleads.exists_take hroom fun _ => hpath
      refine (congrArg (· >>= (Operands.readPlain · paths)) htake).trans ?_
      exact ih.2 ⟨hpaths, (Operands.leadsTo_cons_iff_of_take htake).1 hleads⟩

/-- The values that a call spells are all taken, if there is room for them. -/
theorem read_of_spells {o final : Operands} {given : List (Role × String)}
    {arguments : List String} (h : Spells given arguments) (hleads : o.LeadsTo given final)
    (hroom : ∀ role, (final.valuesFor role).length ≤ role.most) :
    o.read .resolve arguments = .ok final := by
  induction h generalizing o with
  | nil => rw [Operands.leadsTo_nil_iff.1 hleads, Operands.read]
  | cons hspelled _ ih =>
    obtain ⟨o', htake⟩ := hleads.exists_take hroom hspelled.ne_empty
    rw [read_append_of_spelled hspelled, htake]
    exact ih ((Operands.leadsTo_cons_iff_of_take htake).1 hleads)
  | behindDashes hpaths =>
    have hshape : shape "--" = .endOfOptions := by rfl
    rw [Operands.read.eq_def]
    simp only [hshape]
    exact (readPlain_eq_ok_iff hroom).2 ⟨hpaths, hleads⟩

/-- Arguments that are read to the end spell values, which are what was read. -/
theorem exists_spells_of_read {o final : Operands}
    (hroom : ∀ role, (final.valuesFor role).length ≤ role.most) {arguments : List String}
    (h : o.read .resolve arguments = .ok final) :
    ∃ given, Spells given arguments ∧ o.LeadsTo given final := by
  -- a value may take two arguments, so the induction is on their number
  induction hlength : arguments.length using Nat.strong_induction_on generalizing o arguments with
  | _ n ih =>
    cases arguments with
    | nil =>
      rw [Operands.read, Except.ok.injEq] at h
      exact ⟨[], .nil, Operands.leadsTo_nil_iff.2 h⟩
    | cons argument rest =>
      have hbegins := begins_of_read h
      generalize argument :: rest = arguments at hbegins hlength
      cases hbegins with
      | dashes hplain =>
        obtain ⟨hpaths, hleads⟩ := (readPlain_eq_ok_iff hroom).1 hplain
        exact ⟨_, .behindDashes hpaths, hleads⟩
      | value hspelled htake hread =>
        have hpos := List.length_pos_iff.2 hspelled.ne_nil
        rw [List.length_append] at hlength
        obtain ⟨given, hspells, hleads⟩ := ih _ (by omega) hread rfl
        exact ⟨_, .cons hspelled hspells, (Operands.leadsTo_cons_iff_of_take htake).2 hleads⟩

/-- The arguments that name two paths, and perhaps a file of settings and a processor, are those
that are read as such. -/
theorem names_iff {image table : String} {config processor : Option String}
    {arguments : List String} :
    Names image table config processor arguments ↔
      Operands.empty.read .resolve arguments = .ok ⟨[image, table], config, processor⟩ := by
  have hroom : ∀ role : Role,
      (Operands.valuesFor ⟨[image, table], config, processor⟩ role).length ≤ role.most := by
    intro role
    cases role with
    | path => exact Nat.le_refl 2
    | config | processor => exact Option.length_toList_le
  constructor
  · rintro ⟨hspells, hpaths, hconfig, hprocessor⟩
    refine read_of_spells hspells (fun role => ?_) hroom
    cases role with
    | path => exact hpaths
    | config => exact hconfig
    | processor => exact hprocessor
  · intro h
    obtain ⟨given, hspells, hleads⟩ := exists_spells_of_read hroom h
    exact .intro hspells (hleads .path) (hleads .config) (hleads .processor)

end Reading

end LoopTable.Command
