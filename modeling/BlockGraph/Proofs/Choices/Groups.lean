import BlockGraph.Choice
import BlockGraph.Proofs.Dict
import Mathlib.Data.List.Induction

/-!
Two views of the options of a field. A listing shows their labels in groups, which a dictionary keeps in
the order of their names; a write looks a value up in one flat list. Groups are made in the order of
their names as well, so the labels of the groups, one group after the other, are those of the list.
-/

set_option autoImplicit false

namespace BlockGraph

/-- Labels of all groups, in the order in which the groups are shown. -/
def ChoiceSet.allLabels (choices : ChoiceSet) : List String :=
  choices.entries.flatMap Prod.snd

/-- A key above all others goes to the end. -/
theorem Entries.insert_of_above {α : Type} {key : String} {entries : List (String × α)}
    (above : ∀ entry ∈ entries, entry.1 < key) (value : α) :
    insert key value entries = entries ++ [(key, value)] := by
  induction entries with
  | nil => rfl
  | cons head rest ih =>
    have less := above head List.mem_cons_self
    have notLess : ¬key < head.1 := fun greater => String.lt_irrefl _ (String.lt_trans less greater)
    have different : key ≠ head.1 := fun same => String.lt_irrefl _ (same ▸ less)
    rw [insert, if_neg notLess, if_neg different,
      ih fun entry member => above entry (List.mem_cons_of_mem _ member)]
    rfl

namespace ChoiceContext

variable {groups : List Group}

/-- Groups whose names increase. -/
def Increasing (groups : List Group) : Prop :=
  groups.Pairwise fun first second => first.1 < second.1

theorem choicesOf_concat (groups : List Group) (name : String) (options : List MenuOption) :
    choicesOf (groups ++ [(name, options)]) =
      if options.isEmpty then choicesOf groups
      else (choicesOf groups).insert name
        (((choicesOf groups).get? name).getD [] ++ labels options) := by
  simp [choicesOf]

/-- Groups whose names increase stand in the dictionary as they are, less those without options. -/
theorem entries_choicesOf (increasing : Increasing groups) :
    (choicesOf groups).entries =
      (groups.filter fun group => !group.2.isEmpty).map fun group => (group.1, labels group.2) := by
  -- The last group comes behind all that is in the dictionary, so the induction is from the end.
  induction groups using List.reverseRecOn with
  | nil => rfl
  | append_singleton groups group ih =>
    obtain ⟨name, options⟩ := group
    obtain ⟨before, -, between⟩ := List.pairwise_append.mp increasing
    have stored := ih before
    rw [choicesOf_concat]
    split
    · rename_i empty
      rw [stored, List.filter_append]
      simp [empty]
    · rename_i filled
      have above : ∀ entry ∈ (choicesOf groups).entries, entry.1 < name := by
        intro entry member
        rw [stored] at member
        obtain ⟨group, kept, rfl⟩ := List.mem_map.mp member
        exact between group (List.mem_of_mem_filter kept) (name, options) List.mem_cons_self
      have isNew : (choicesOf groups).get? name = none := by
        apply Entries.get?_eq_none_iff.mpr
        intro listed
        obtain ⟨entry, member, rfl⟩ := List.mem_map.mp listed
        exact String.lt_irrefl _ (above entry member)
      have inserted : ((choicesOf groups).insert name (labels options)).entries =
          (choicesOf groups).entries ++ [(name, labels options)] :=
        Entries.insert_of_above above _
      rw [isNew, Option.getD_none, List.nil_append, inserted, stored, List.filter_append]
      simp [filled]

theorem allLabels_choicesOf (increasing : Increasing groups) :
    (choicesOf groups).allLabels = labels (groups.flatMap Prod.snd) := by
  rw [ChoiceSet.allLabels, entries_choicesOf increasing, List.flatMap_map]
  simp only [labels, List.map_flatMap]
  clear increasing
  induction groups with
  | nil => rfl
  | cons group rest ih =>
    cases options : group.2 with
    | nil => simp [options, ih]
    | cons first others => simp [options, ih]

/-- There is no group exactly when there is no option. -/
theorem isEmpty_choicesOf (increasing : Increasing groups) :
    (choicesOf groups).entries.isEmpty = (groups.flatMap Prod.snd).isEmpty := by
  rw [entries_choicesOf increasing, Bool.eq_iff_iff]
  simp

/-- The groups of a field are made in the order of their names. -/
theorem increasing_of_groups? {context : ChoiceContext} {opcode field block : String}
    (known : context.groups? opcode field block = some groups) : Increasing groups := by
  have one (name : String) (options : List MenuOption) : Increasing [(name, options)] :=
    List.pairwise_singleton _ _
  obtain ⟨target, -, made⟩ := Option.bind_eq_some_iff.mp known
  split at made
  · cases made
    exact one _ _
  · split at made
    · cases made
      have inOrder : "special" < "sprites" := by decide
      exact List.pairwise_pair.mpr inOrder
    · split at made
      case h_7 =>
        split at made
        · obtain ⟨options, -, made⟩ := Option.bind_eq_some_iff.mp made
          cases made
          exact one _ _
        · cases made
          exact List.Pairwise.nil
      case h_8 =>
        cases made
        exact List.Pairwise.nil
      all_goals
        cases made
        exact one _ _

variable {context : ChoiceContext} {opcode field current block : String}

/-- Behind the groups that are shown stands a list of options with the same labels. -/
theorem exists_options_of_resolve? {choices : ChoiceSet}
    (offered : context.resolve? opcode field current block = some choices) :
    ∃ options, context.options? opcode field current block = some options ∧
      labels options = choices.allLabels := by
  rw [resolve?] at offered
  rw [options?]
  cases live : context.editor.liveOptions? block field current with
  | some options =>
    rw [live] at offered
    cases offered
    exact ⟨options, rfl, (List.append_nil _).symm⟩
  | none =>
    rw [live] at offered
    obtain ⟨groups, known, shown⟩ := Option.bind_eq_some_iff.mp offered
    have increasing := increasing_of_groups? known
    simp only [isEmpty_choicesOf increasing] at shown
    split at shown
    · cases shown
    · rename_i filled
      cases shown
      refine ⟨groups.flatMap Prod.snd, ?_, (allLabels_choicesOf increasing).symm⟩
      simp only [known, Option.bind_eq_bind, Option.bind_some]
      exact if_neg filled

/-- Where no groups are shown there are no options. -/
theorem options?_eq_none_of_resolve? (hidden : context.resolve? opcode field current block = none) :
    context.options? opcode field current block = none := by
  rw [resolve?] at hidden
  rw [options?]
  cases live : context.editor.liveOptions? block field current with
  | some options =>
    rw [live] at hidden
    cases hidden
  | none =>
    cases known : context.groups? opcode field block with
    | none => rfl
    | some groups =>
      have increasing := increasing_of_groups? known
      simp only [live, known, Option.bind_eq_bind, Option.bind_some,
        isEmpty_choicesOf increasing] at hidden ⊢
      split at hidden
      · rename_i empty
        exact if_pos empty
      · cases hidden

/-- The groups of labels and the flat list of options of a field say the same: for every project, target
and editor, one is known exactly when the other one is, and the labels of the groups, in the order of
their names, are the labels of the list in its order. -/
theorem labels_agree (context : ChoiceContext) (opcode field current block : String) :
    (context.resolve? opcode field current block).map ChoiceSet.allLabels =
      (context.options? opcode field current block).map labels := by
  cases offered : context.resolve? opcode field current block with
  | none => rw [options?_eq_none_of_resolve? offered, Option.map_none, Option.map_none]
  | some choices =>
    obtain ⟨options, known, same⟩ := exists_options_of_resolve? offered
    rw [known, Option.map_some, Option.map_some, same]

end ChoiceContext

end BlockGraph
