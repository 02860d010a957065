import Mathlib.Data.List.Forall2

/-!
Lists processed item by item until an item fails.
-/

set_option autoImplicit false

namespace BlockGraph.Outcomes

variable {ε α β σ : Type}

/-- Items that are all mapped successfully correspond to their results one by one. -/
theorem forall₂_of_mapM {f : α → Except ε β} {items : List α} {results : List β}
    (mapped : items.mapM f = .ok results) :
    List.Forall₂ (fun item result => f item = .ok result) items results := by
  induction items generalizing results with
  | nil =>
    cases mapped
    exact .nil
  | cons item rest ih =>
    rw [List.mapM_cons] at mapped
    cases first : f item with
    | error fault =>
      rw [first] at mapped
      cases mapped
    | ok result =>
      rw [first] at mapped
      cases later : rest.mapM f with
      | error fault =>
        simp only [later, bind, Except.bind] at mapped
        cases mapped
      | ok others =>
        simp only [later, bind, Except.bind] at mapped
        cases mapped
        exact .cons first (ih later)

theorem mapM_of_forall₂ {f : α → Except ε β} {items : List α} {results : List β}
    (each : List.Forall₂ (fun item result => f item = .ok result) items results) :
    items.mapM f = .ok results := by
  induction each with
  | nil => rfl
  | cons first _ ih =>
    rw [List.mapM_cons, first, ih]
    rfl

/-- Lists that correspond item by item have corresponding items in each place, or none. -/
theorem getElem?_of_forall₂ {related : α → β → Prop} {items : List α} {results : List β}
    (each : List.Forall₂ related items results) (index : Nat) :
    (items[index]? = none ∧ results[index]? = none) ∨
      ∃ item result, items[index]? = some item ∧ results[index]? = some result ∧
        related item result := by
  induction each generalizing index with
  | nil => exact .inl ⟨rfl, rfl⟩
  | @cons item result _ _ first _ ih =>
    cases index with
    | zero => exact .inr ⟨item, result, rfl, rfl, first⟩
    | succ later => simpa using ih later

theorem foldlM_cons_eq_ok {step : σ → α → Except ε σ} {item : α} {rest : List α}
    {start result : σ} : (item :: rest).foldlM step start = .ok result ↔
      ∃ next, step start item = .ok next ∧ rest.foldlM step next = .ok result := by
  rw [List.foldlM_cons]
  cases first : step start item with
  | error fault => simp [bind, Except.bind]
  | ok next => simp [bind, Except.bind]

/-- What every step keeps holds at the end. -/
theorem foldlM_invariant {step : σ → α → Except ε σ} {invariant : σ → Prop} {items : List α}
    {start result : σ} (folded : items.foldlM step start = .ok result) (holds : invariant start)
    (keeps : ∀ state, ∀ item ∈ items, ∀ next, invariant state → step state item = .ok next →
      invariant next) : invariant result := by
  induction items generalizing start with
  | nil =>
    cases folded
    exact holds
  | cons item rest ih =>
    obtain ⟨next, first, later⟩ := foldlM_cons_eq_ok.mp folded
    apply ih later (keeps start item List.mem_cons_self next holds first)
    intro state other member
    exact keeps state other (List.mem_cons_of_mem _ member)

/-- Steps that succeed from every state succeed one after the other. -/
theorem foldlM_succeeds {step : σ → α → Except ε σ} {items : List α} (start : σ)
    (succeeds : ∀ state, ∀ item ∈ items, ∃ next, step state item = .ok next) :
    ∃ result, items.foldlM step start = .ok result := by
  induction items generalizing start with
  | nil => exact ⟨start, rfl⟩
  | cons item rest ih =>
    obtain ⟨next, first⟩ := succeeds start item List.mem_cons_self
    have later : ∀ state, ∀ item ∈ rest, ∃ next, step state item = .ok next :=
      fun state other member => succeeds state other (List.mem_cons_of_mem _ member)
    obtain ⟨result, folded⟩ := ih next later
    exact ⟨result, foldlM_cons_eq_ok.mpr ⟨next, first, folded⟩⟩

theorem foldlM_idle {step : σ → α → Except ε σ} {items : List α} (start : σ)
    (idle : ∀ item ∈ items, step start item = .ok start) : items.foldlM step start = .ok start := by
  induction items with
  | nil => rfl
  | cons item rest ih =>
    have later := ih fun other member => idle other (List.mem_cons_of_mem _ member)
    exact foldlM_cons_eq_ok.mpr ⟨start, idle item List.mem_cons_self, later⟩

end BlockGraph.Outcomes
