import BlockGraph.Proofs.Tidy
import Mathlib.Data.List.Induction

/-!
Histories of an arena: any actions, one after the other, with failures among them. The numbers of
generated ids grow along a history, so that no id is handed out twice. The list of scripts and the
marks of the blocks are two copies of one fact, and one action lets them differ: a block that is no
top, stored over one that is, leaves its id among the scripts.
-/

set_option autoImplicit false

namespace BlockGraph

open Revision

namespace Arena

/-- What is done to an arena, with its arguments. -/
inductive Action : Type 1 where
  | insert (id : String) (block : Block)
  | remove (id : String)
  | setTopLevel (id : String) (topLevel : Bool)
  | sort {κ : Type} (key : String → Block → κ) (le : κ → κ → Bool)
  | dispose (root : String)
  | newId (stem : String)

/-- The arena that an action ends in, whether it succeeds or fails. -/
def Action.run (arena : Arena) : Action → Arena
  | .insert id block => arena.insert id block
  | .remove id => arena.remove id
  | .setTopLevel id topLevel => (markTopLevel id topLevel).final arena
  | .sort key le => arena.sortScripts key le
  | .dispose root => (discard root).final arena
  | .newId stem => (Arena.newId stem).final arena

/-- The id that an action hands out. -/
def Action.handedOut? (arena : Arena) : Action → Option String
  | .newId stem => some (arena.freshId stem).1
  | _ => none

def runAll (arena : Arena) (actions : List Action) : Arena :=
  actions.foldl Action.run arena

/-- The ids that are handed out along a history. -/
def handedOut (arena : Arena) : List Action → List String
  | [] => []
  | action :: rest => (action.handedOut? arena).toList ++ (action.run arena).handedOut rest

variable {arena : Arena} {id : String}

/-- A block that is missing is not marked. -/
theorem final_markTopLevel (arena : Arena) (id : String) (topLevel : Bool) :
    (∃ block, arena.get? id = some block ∧
      (markTopLevel id topLevel).final arena = arena.setTopLevel id topLevel) ∨
      (markTopLevel id topLevel).final arena = arena := by
  cases found : arena.get? id with
  | none =>
    have ends : After (markTopLevel id topLevel) arena (fun _ next => next = arena)
        fun _ next => next = arena := by simp [found]
    exact .inr (after_same_iff.mp ends)
  | some block =>
    have ends : After (markTopLevel id topLevel) arena
        (fun _ next => next = arena.setTopLevel id topLevel)
        fun _ next => next = arena.setTopLevel id topLevel := by simp [found]
    exact .inl ⟨block, rfl, after_same_iff.mp ends⟩

/-- A walk that fails removes nothing. -/
theorem final_discard (arena : Arena) (root : String) :
    ∃ gone, (discard root).final arena = arena.removeAll gone := by
  cases walked : arena.subtreeIds root with
  | ok gone =>
    have ends : After (discard root) arena (fun _ next => next = arena.removeAll gone)
        fun _ next => next = arena.removeAll gone := by simp [walked]
    exact ⟨gone, after_same_iff.mp ends⟩
  | error damage =>
    have ends : After (discard root) arena (fun _ next => next = arena)
        fun _ next => next = arena := by simp [walked]
    exact ⟨[], after_same_iff.mp ends⟩

section Ids

theorem counter_setTopLevel (arena : Arena) (id : String) (topLevel : Bool) :
    (arena.setTopLevel id topLevel).counter = arena.counter := by
  cases topLevel <;> rfl

theorem counter_run (arena : Arena) (action : Action) :
    arena.counter ≤ (action.run arena).counter := by
  cases action with
  | insert | remove | sort => exact Nat.le_refl _
  | setTopLevel id topLevel =>
    rw [Action.run]
    rcases final_markTopLevel arena id topLevel with ⟨_, -, same⟩ | same
    · rw [same, counter_setTopLevel]
    · rw [same]
  | dispose root =>
    obtain ⟨gone, same⟩ := final_discard arena root
    rw [Action.run, same, counter_removeAll]
  | newId stem => exact Nat.le_of_lt (Identifier.lt_freshNumber _ _ _)

/-- An id that is handed out carries the number to which the counter moves. -/
theorem handedOut?_eq_some {action : Action} (given : action.handedOut? arena = some id) :
    arena.counter < (action.run arena).counter ∧
      ∃ stem, id = Identifier.make stem (action.run arena).counter := by
  cases action with
  | newId stem =>
    cases given
    exact ⟨Identifier.lt_freshNumber _ _ _, stem, rfl⟩
  | insert | remove | setTopLevel | sort | dispose => cases given

theorem lt_of_mem_handedOut {actions : List Action} (member : id ∈ arena.handedOut actions) :
    ∃ stem number, id = Identifier.make stem number ∧ arena.counter < number := by
  induction actions generalizing arena with
  | nil => cases member
  | cons action rest ih =>
    rcases List.mem_append.mp member with first | later
    · obtain ⟨less, stem, named⟩ := handedOut?_eq_some (Option.mem_toList.mp first)
      exact ⟨stem, _, named, less⟩
    · obtain ⟨stem, number, named, less⟩ := ih later
      exact ⟨stem, number, named, Nat.lt_of_le_of_lt (counter_run arena action) less⟩

theorem nodup_handedOut (arena : Arena) (actions : List Action) :
    (arena.handedOut actions).Nodup := by
  induction actions generalizing arena with
  | nil => exact List.nodup_nil
  | cons action rest ih =>
    refine List.nodup_append.mpr ⟨Option.toList_nodup _, ih _, ?_⟩
    rintro id first other later rfl
    -- The first id has the number of the counter behind it, and each later one a greater number.
    obtain ⟨-, stem, named⟩ := handedOut?_eq_some (Option.mem_toList.mp first)
    obtain ⟨otherStem, number, otherNamed, less⟩ := lt_of_mem_handedOut later
    have same := Identifier.make_injective (named.symm.trans otherNamed)
    omega

end Ids

section Scripts

/-- No script is listed twice or has no block, and every top-level block is a script. -/
structure Covers (arena : Arena) : Prop where
  distinct : arena.scripts.Nodup
  stored : ∀ id ∈ arena.scripts, ∃ block, arena.get? id = some block
  listed : ∀ id block, arena.get? id = some block → block.topLevel = true → id ∈ arena.scripts

theorem covers_iff : arena.Covers ↔ arena.scripts.Nodup ∧
    ∀ id, ((arena.standing id).1 = true → (arena.standing id).2 ≠ none) ∧
      ((arena.standing id).2 = some true → (arena.standing id).1 = true) := by
  constructor
  · rintro ⟨distinct, stored, listed⟩
    refine ⟨distinct, fun id => ⟨fun isScript => ?_, fun isTop => ?_⟩⟩
    · obtain ⟨block, found⟩ := stored id (by simpa [standing] using isScript)
      simp [standing, found]
    · obtain ⟨block, found, top⟩ := Option.map_eq_some_iff.mp isTop
      simpa [standing] using listed id block found top
  · rintro ⟨distinct, each⟩
    refine ⟨distinct, fun id isScript => ?_, fun id block found top => ?_⟩
    · have present := (each id).1 (by simpa [standing] using isScript)
      exact Option.ne_none_iff_exists'.mp fun missing => present (by simp [standing, missing])
    · simpa [standing] using (each id).2 (by simp [standing, found, top])

/-- All that an action can do to the standing of an id: nothing, a removal, a mark in both places, or a
new block, which adds a script where it is a top and takes none away where it is not. -/
theorem standing_run (arena : Arena) (action : Action) (id : String) :
    (action.run arena).standing id = arena.standing id ∨
      (action.run arena).standing id = (false, none) ∨
      (∃ topLevel, (action.run arena).standing id = (topLevel, some topLevel)) ∨
      ∃ block, action = .insert id block ∧ (action.run arena).standing id =
        ((arena.standing id).1 || block.topLevel, some block.topLevel) := by
  have removed (gone : List String) : (arena.removeAll gone).standing id = arena.standing id ∨
      (arena.removeAll gone).standing id = (false, none) := by
    rw [standing_removeAll]
    split
    · exact .inr rfl
    · exact .inl rfl
  cases action with
  | insert inserted block =>
    rw [Action.run, standing_insert]
    by_cases same : id = inserted
    · subst same
      exact .inr (.inr (.inr ⟨block, rfl, if_pos rfl⟩))
    · exact .inl (if_neg same)
  | remove gone =>
    rcases removed [gone] with kept | lost
    · exact .inl kept
    · exact .inr (.inl lost)
  | setTopLevel marked topLevel =>
    rw [Action.run]
    rcases final_markTopLevel arena marked topLevel with ⟨_, found, same⟩ | same
    · rw [same, standing_setTopLevel found]
      split
      · exact .inr (.inr (.inl ⟨topLevel, rfl⟩))
      · exact .inl rfl
    · exact .inl (by rw [same])
  | sort key le =>
    refine .inl (Prod.ext ?_ rfl)
    rw [Bool.eq_iff_iff]
    simp [Action.run, standing, sortScripts]
  | dispose root =>
    obtain ⟨gone, same⟩ := final_discard arena root
    rw [Action.run, same]
    rcases removed gone with kept | lost
    · exact .inl kept
    · exact .inr (.inl lost)
  | newId stem => exact .inl rfl

theorem nodup_scripts_run (distinct : arena.scripts.Nodup) (action : Action) :
    (action.run arena).scripts.Nodup := by
  cases action with
  | insert id block => exact nodup_scripts_insert distinct id block
  | remove id => exact distinct.sublist List.filter_sublist
  | setTopLevel id topLevel =>
    rw [Action.run]
    rcases final_markTopLevel arena id topLevel with ⟨_, -, same⟩ | same
    · rw [same]
      exact nodup_scripts_setTopLevel distinct id topLevel
    · rwa [same]
  | sort key le => exact (List.mergeSort_perm _ _).nodup_iff.mpr distinct
  | dispose root =>
    obtain ⟨gone, same⟩ := final_discard arena root
    rw [Action.run, same, scripts_removeAll]
    exact distinct.sublist List.filter_sublist
  | newId stem => exact distinct

theorem covers_run (covers : arena.Covers) (action : Action) : (action.run arena).Covers := by
  obtain ⟨distinct, each⟩ := covers_iff.mp covers
  refine covers_iff.mpr ⟨nodup_scripts_run distinct action, fun id => ?_⟩
  rcases standing_run arena action id with same | same | ⟨topLevel, same⟩ | ⟨block, -, same⟩
  · rw [same]
    exact each id
  · simp [same]
  · simp [same]
  · rw [same]
    refine ⟨fun _ => Option.some_ne_none _, fun isTop => ?_⟩
    simp [Option.some.inj isTop]

/-- The list and the mark of an id still agree after an action, unless it stores a block that is no top
over a script. -/
theorem mirrors_run (mirrors : arena.Mirrors id) {action : Action}
    (keeps : ∀ block, action = .insert id block → id ∈ arena.scripts → block.topLevel = true) :
    (action.run arena).Mirrors id := by
  rw [mirrors_iff] at mirrors ⊢
  rcases standing_run arena action id with same | same | ⟨topLevel, same⟩ | ⟨block, inserts, same⟩
  · rw [same, mirrors]
  · rw [same]
    rfl
  · rw [same]
    rfl
  · rw [same]
    cases listed : (arena.standing id).1 with
    | false => exact Bool.false_or _
    | true =>
      have isScript : id ∈ arena.scripts := by simpa [standing] using listed
      simp [keeps block inserts isScript]

theorem runAll_concat (arena : Arena) (actions : List Action) (action : Action) :
    arena.runAll (actions ++ [action]) = action.run (arena.runAll actions) := by
  simp [runAll]

theorem covers_runAll (covers : arena.Covers) (actions : List Action) :
    (arena.runAll actions).Covers := by
  induction actions generalizing arena with
  | nil => exact covers
  | cons action rest ih => exact ih (covers_run covers action)

/-- Along every history that starts from nothing, no script is listed twice or has no block, and every
top-level block is a script. An id is a script exactly when its block is a top, all along the history,
if and only if no block that is no top is ever stored under it while it is a script. -/
theorem scripts_of_actions (actions : List Action) :
    (runAll {} actions).Covers ∧
      ∀ id, (∀ before, before <+: actions → (runAll {} before).Mirrors id) ↔
        ∀ before block, before ++ [.insert id block] <+: actions →
          id ∈ (runAll {} before).scripts → block.topLevel = true := by
  have emptyCovers : ({} : Arena).Covers :=
    ⟨List.nodup_nil, fun _ listed => (List.not_mem_nil listed).elim, fun _ _ found => nomatch found⟩
  refine ⟨covers_runAll emptyCovers actions, fun id => ⟨?_, ?_⟩⟩
  · intro mirrors before block begins isScript
    -- The id stays listed, so the mark of its new block has to say that it is a top.
    have after := mirrors_iff.mp (mirrors _ begins)
    rw [runAll_concat, Action.run, standing_insert, if_pos rfl] at after
    have listed : ((runAll {} before).standing id).1 = true := by simpa [standing] using isScript
    rw [listed, Bool.true_or] at after
    exact after.symm
  · intro keeps before
    induction before using List.reverseRecOn with
    | nil => exact fun _ => Tidy.empty.mem_scripts id
    | append_singleton before action ih =>
      intro begins
      have earlier := ih ((List.prefix_append before [action]).trans begins)
      rw [runAll_concat]
      apply mirrors_run earlier
      rintro block rfl
      exact keeps before block begins

/-- A block that is no top takes the place of one that is, and its id stays among the scripts. -/
theorem replaced_script_stays :
    ¬(runAll {} [
      .insert "a" { opcode := "looks_show", topLevel := true },
      .insert "a" { opcode := "looks_show" }]).Mirrors "a" := by
  intro mirrors
  obtain ⟨block, found, isTop⟩ := mirrors.mp (by decide)
  cases found
  cases isTop

end Scripts

end Arena

/-- A variable, a list or a message of some target has the id. -/
def Project.HasEntity (project : Project) (id : String) : Prop :=
  ∃ target ∈ project.targets, ∃ entity ∈ target.entities, entity.id = id

theorem Project.hasEntity_iff {project : Project} {id : String} :
    project.HasEntity id ↔ id ∈ project.entityIds := by
  simp only [HasEntity, entityIds, List.mem_map, List.mem_flatMap]
  constructor
  · rintro ⟨target, inside, entity, member, named⟩
    exact ⟨entity, ⟨target, inside, member⟩, named⟩
  · rintro ⟨entity, ⟨target, inside, member⟩, named⟩
    exact ⟨target, inside, entity, member, named⟩

/-- A search for a new id ends, and with one number only: the least one above the counter whose id names
no stored block of the arena, or no entity of any target of the project. That id is handed out and the
counter moves to its number. Along any history of an arena, whatever is stored, removed or changed in
between and whatever the stems are, no id is handed out twice. -/
theorem generated_ids :
    (∀ (arena : Arena) (stem : String), ∃ number,
      (∀ found, Identifier.Finds (fun id => ∃ block, arena.get? id = some block) stem arena.counter
        found ↔ found = number) ∧
      Identifier.LeastFree (fun id => ∃ block, arena.get? id = some block) stem arena.counter number ∧
      arena.freshId stem = (Identifier.make stem number, { arena with counter := number })) ∧
    (∀ (project : Project) (stem : String), ∃ number,
      (∀ found, Identifier.Finds project.HasEntity stem project.counter found ↔ found = number) ∧
      Identifier.LeastFree project.HasEntity stem project.counter number ∧
      project.freshEntityId stem =
        (Identifier.make stem number, { project with counter := number })) ∧
    ∀ (arena : Arena) (actions : List Arena.Action), (arena.handedOut actions).Nodup := by
  refine ⟨fun arena stem => ?_, fun project stem => ?_, Arena.nodup_handedOut⟩
  · have same (id : String) : (∃ block, arena.get? id = some block) ↔ id ∈ arena.ids :=
      Arena.mem_ids_iff.symm
    have least := Identifier.leastFree_freshNumber same stem arena.counter
    exact ⟨_, fun _ => least.finds_iff, least, rfl⟩
  · have same (id : String) : project.HasEntity id ↔ id ∈ project.entityIds := Project.hasEntity_iff
    have least := Identifier.leastFree_freshNumber same stem project.counter
    exact ⟨_, fun _ => least.finds_iff, least, rfl⟩

end BlockGraph
