import BlockGraph.Edit.Workspace

/-!
Reasoning about revisions. `After` says what holds when a revision ends, for its success and for its
failure, and each way of building a revision has one rule that computes it. A revision that keeps a
condition on both ends `Maintains` it.
-/

set_option autoImplicit false

namespace BlockGraph.Revision

variable {σ α β : Type}

/-- What holds when a revision ends: one condition on its value, another one on its fault. -/
def After (revision : Revision σ α) (state : σ) (success : α → σ → Prop)
    (failure : Fault → σ → Prop) : Prop :=
  match revision state with
  | .ok value next => success value next
  | .error fault next => failure fault next

variable {state : σ} {success : α → σ → Prop} {failure : Fault → σ → Prop}

theorem after_of_ok {revision : Revision σ α} {value : α} {next : σ}
    (ended : revision state = .ok value next) :
    After revision state success failure ↔ success value next := by
  simp only [After, ended]

theorem after_of_error {revision : Revision σ α} {fault : Fault} {next : σ}
    (ended : revision state = .error fault next) :
    After revision state success failure ↔ failure fault next := by
  simp only [After, ended]

/-- A revision that cannot fail ends with a value. -/
theorem exists_ok_of_after {revision : Revision σ α}
    (after : After revision state success fun _ _ => False) :
    ∃ value next, revision state = .ok value next ∧ success value next := by
  cases ended : revision state with
  | ok value next => exact ⟨value, next, rfl, (after_of_ok ended).mp after⟩
  | error fault next => exact ((after_of_error ended).mp after).elim

theorem exists_error_of_after {revision : Revision σ α}
    (after : After revision state (fun _ _ => False) failure) :
    ∃ fault next, revision state = .error fault next ∧ failure fault next := by
  cases ended : revision state with
  | ok value next => exact ((after_of_ok ended).mp after).elim
  | error fault next => exact ⟨fault, next, rfl, (after_of_error ended).mp after⟩

theorem After.mono {revision : Revision σ α} {success' : α → σ → Prop}
    {failure' : Fault → σ → Prop} (after : After revision state success failure)
    (onSuccess : ∀ value next, success value next → success' value next)
    (onFailure : ∀ fault next, failure fault next → failure' fault next) :
    After revision state success' failure' := by
  cases ended : revision state with
  | ok value next => exact (after_of_ok ended).mpr (onSuccess _ _ ((after_of_ok ended).mp after))
  | error fault next =>
    exact (after_of_error ended).mpr (onFailure _ _ ((after_of_error ended).mp after))

theorem After.and {revision : Revision σ α} {success' : α → σ → Prop}
    {failure' : Fault → σ → Prop} (first : After revision state success failure)
    (second : After revision state success' failure') :
    After revision state (fun value next => success value next ∧ success' value next)
      fun fault next => failure fault next ∧ failure' fault next := by
  cases ended : revision state with
  | ok value next =>
    exact (after_of_ok ended).mpr ⟨(after_of_ok ended).mp first, (after_of_ok ended).mp second⟩
  | error fault next =>
    exact (after_of_error ended).mpr
      ⟨(after_of_error ended).mp first, (after_of_error ended).mp second⟩

theorem after_true (revision : Revision σ α) (state : σ) :
    After revision state (fun _ _ => True) fun _ _ => True := by
  unfold After
  split <;> trivial

@[simp]
theorem after_pure (value : α) :
    After (pure value) state success failure ↔ success value state := Iff.rfl

@[simp]
theorem after_bind (first : Revision σ β) (second : β → Revision σ α) :
    After (first >>= second) state success failure ↔
      After first state (fun value next => After (second value) next success failure) failure := by
  cases ended : first state with
  | ok value next =>
    rw [after_of_ok ended]
    simp only [After, bind, EStateM.bind, ended]
  | error fault next =>
    rw [after_of_error ended]
    simp only [After, bind, EStateM.bind, ended]

@[simp]
theorem after_map (transform : β → α) (revision : Revision σ β) :
    After (transform <$> revision) state success failure ↔
      After revision state (fun value => success (transform value)) failure := by
  rw [map_eq_pure_bind, after_bind]
  exact Iff.rfl

theorem map_of_ok {transform : β → α} {revision : Revision σ β} {value : β} {next : σ}
    (ended : revision state = .ok value next) :
    (transform <$> revision) state = .ok (transform value) next := by
  simp only [Functor.map, EStateM.map, ended]

theorem map_of_error {transform : β → α} {revision : Revision σ β} {fault : Fault} {next : σ}
    (ended : revision state = .error fault next) :
    (transform <$> revision) state = .error fault next := by
  simp only [Functor.map, EStateM.map, ended]

@[simp]
theorem after_throw (fault : Fault) :
    After (throw fault) state success failure ↔ failure fault state := Iff.rfl

@[simp]
theorem after_get {success : σ → σ → Prop} :
    After get state success failure ↔ success state state := Iff.rfl

@[simp]
theorem after_set (next : σ) {success : PUnit → σ → Prop} :
    After (set next) state success failure ↔ success ⟨⟩ next := Iff.rfl

@[simp]
theorem after_modify (change : σ → σ) {success : PUnit → σ → Prop} :
    After (modify change) state success failure ↔ success ⟨⟩ (change state) := Iff.rfl

@[simp]
theorem after_check (outcome : Except Fault α) :
    After (check outcome) state success failure ↔
      (∀ value, outcome = .ok value → success value state) ∧
        ∀ fault, outcome = .error fault → failure fault state := by
  cases outcome with
  | ok value => simp [check]
  | error fault => simp [check]

@[simp]
theorem after_follow (outcome : Except Damage α) :
    After (follow outcome) state success failure ↔
      (∀ value, outcome = .ok value → success value state) ∧
        ∀ damage, outcome = .error damage → failure (.damaged damage) state := by
  cases outcome with
  | ok value => simp [follow, Damage.orFault]
  | error damage => simp [follow, Damage.orFault]

@[simp]
theorem after_tryCatch (revision : Revision σ α) (handle : Fault → Revision σ α) :
    After (tryCatch revision handle) state success failure ↔
      After revision state success fun fault next => After (handle fault) next success failure := by
  cases ended : revision state with
  | ok value next =>
    rw [after_of_ok ended]
    simp only [After, tryCatch, tryCatchThe, MonadExceptOf.tryCatch]
    delta EStateM.tryCatch
    simp only [ended]
  | error fault next =>
    rw [after_of_error ended]
    simp only [After, tryCatch, tryCatchThe, MonadExceptOf.tryCatch]
    delta EStateM.tryCatch
    simp only [ended]
    rfl

/-- The state that a revision ends in, whether it succeeds or fails. -/
def final (revision : Revision σ α) (state : σ) : σ :=
  match revision state with
  | .ok _ next => next
  | .error _ next => next

deriving instance DecidableEq for EStateM.Result

theorem final_of_ok {revision : Revision σ α} {value : α} {next : σ}
    (ended : revision state = .ok value next) : revision.final state = next := by
  simp only [final, ended]

theorem final_of_error {revision : Revision σ α} {fault : Fault} {next : σ}
    (ended : revision state = .error fault next) : revision.final state = next := by
  simp only [final, ended]

theorem final_map (transform : β → α) (revision : Revision σ β) (state : σ) :
    (transform <$> revision).final state = revision.final state := by
  cases ended : revision state with
  | ok value next => rw [final_of_ok ended, final_of_ok (map_of_ok ended)]
  | error fault next => rw [final_of_error ended, final_of_error (map_of_error ended)]

/-- One condition on both ends is a condition on the final state. -/
theorem after_same_iff {revision : Revision σ α} {condition : σ → Prop} :
    After revision state (fun _ => condition) (fun _ => condition) ↔
      condition (revision.final state) := by
  unfold After final
  cases revision state <;> rfl

/-- A revision that keeps a condition, whether it succeeds or fails. -/
def Maintains (invariant : σ → Prop) (revision : Revision σ α) : Prop :=
  ∀ state, invariant state → After revision state (fun _ => invariant) fun _ => invariant

namespace Maintains

variable {invariant : σ → Prop}

theorem pure (value : α) : Maintains invariant (Pure.pure value : Revision σ α) :=
  fun _ holds => holds

theorem throw (fault : Fault) : Maintains invariant (throw fault : Revision σ α) :=
  fun _ holds => holds

theorem check (outcome : Except Fault α) : Maintains invariant (check outcome) := by
  intro state holds
  rw [after_check]
  exact ⟨fun _ _ => holds, fun _ _ => holds⟩

theorem follow (outcome : Except Damage α) : Maintains invariant (follow outcome) :=
  check _

theorem modify {change : σ → σ} (keeps : ∀ state, invariant state → invariant (change state)) :
    Maintains invariant (modify change : Revision σ PUnit) :=
  keeps

theorem bind {first : Revision σ β} {second : β → Revision σ α}
    (firstKeeps : Maintains invariant first) (secondKeeps : ∀ value, Maintains invariant (second value)) :
    Maintains invariant (first >>= second) := by
  intro state holds
  rw [after_bind]
  apply (firstKeeps state holds).mono
  · intro value next holds
    exact secondKeeps value next holds
  · intro fault next holds
    exact holds

theorem bind_get {second : σ → Revision σ α}
    (keeps : ∀ state, invariant state → After (second state) state (fun _ => invariant) fun _ => invariant) :
    Maintains invariant (get >>= second) := by
  intro state holds
  rw [after_bind, after_get]
  exact keeps state holds

theorem map {transform : β → α} {revision : Revision σ β} (keeps : Maintains invariant revision) :
    Maintains invariant (transform <$> revision) := by
  intro state holds
  rw [after_map]
  exact keeps state holds

theorem tryCatch {revision : Revision σ α} {handle : Fault → Revision σ α}
    (keeps : Maintains invariant revision) (handleKeeps : ∀ fault, Maintains invariant (handle fault)) :
    Maintains invariant (tryCatch revision handle) := by
  intro state holds
  rw [after_tryCatch]
  apply (keeps state holds).mono
  · intro value next holds
    exact holds
  · intro fault next holds
    exact handleKeeps fault next holds

theorem forM {body : β → Revision σ PUnit} (items : List β)
    (keeps : ∀ item, Maintains invariant (body item)) : Maintains invariant (items.forM body) := by
  induction items with
  | nil => exact .pure _
  | cons item rest ih => exact (keeps item).bind fun _ => ih

theorem final {revision : Revision σ α} (keeps : Maintains invariant revision) {state : σ}
    (holds : invariant state) : invariant (revision.final state) :=
  after_same_iff.mp (keeps state holds)

end Maintains

/-- A revision that keeps a condition when it succeeds; when it fails, the fault, the state it ends
in and the one it started from are related. -/
def Transacts (invariant : σ → Prop) (fails : Fault → σ → σ → Prop) (revision : Revision σ α) :
    Prop :=
  ∀ state, invariant state →
    After revision state (fun _ => invariant) fun fault next => fails fault next state

namespace Transacts

variable {invariant : σ → Prop} {fails : Fault → σ → σ → Prop}

theorem pure (value : α) : Transacts invariant fails (Pure.pure value : Revision σ α) :=
  fun _ holds => holds

theorem throw {fault : Fault} (refused : ∀ state, fails fault state state) :
    Transacts invariant fails (throw fault : Revision σ α) :=
  fun state _ => refused state

/-- What follows a transaction must not fail. -/
theorem bind {first : Revision σ β} {second : β → Revision σ α}
    (transacts : Transacts invariant fails first)
    (completes : ∀ value state, invariant state →
      After (second value) state (fun _ => invariant) fun _ _ => False) :
    Transacts invariant fails (first >>= second) := by
  intro state holds
  rw [after_bind]
  apply (transacts state holds).mono
  · intro value next kept
    apply (completes value next kept).mono
    · intro _ _ kept
      exact kept
    · intro _ _ never
      exact never.elim
  · intro _ _ kept
    exact kept

end Transacts

end BlockGraph.Revision
