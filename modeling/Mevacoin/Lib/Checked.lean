/-
Computations that stop at the first failed check. The lemmas invert a computation
that ran to its end into the facts that its checks established, and carry an
invariant through a loop.
-/

import Mathlib.Data.List.Basic
import Mathlib.Data.List.Forall2

namespace Checked
open List

variable {condition : Prop} {ε ε' α β γ : Type}

def rejectIf (condition : Prop) [Decidable condition] (error : ε) : Except ε Unit :=
  if condition then .error error else .ok ()

/-- A check that is made only when the condition holds. -/
def checkWhen (condition : Prop) [Decidable condition] (check : Except ε Unit) : Except ε Unit :=
  if condition then check else .ok ()

def orError (error : ε) : Option α → Except ε α
  | some value => .ok value
  | none => .error error

def mapError (f : ε → ε') : Except ε α → Except ε' α
  | .ok value => .ok value
  | .error error => .error (f error)

variable {error : ε}

theorem rejectIf_eq_ok [Decidable condition] {result : Unit} :
    rejectIf condition error = .ok result ↔ ¬condition := by
  unfold rejectIf
  split <;> simp_all

theorem orError_eq_ok {option : Option α} {value : α} :
    orError error option = .ok value ↔ option = some value := by
  cases option <;> simp [orError]

variable {next : α → Except ε β} {computation : Except ε α}

theorem orError_some_bind {value : α} : orError error (some value) >>= next = next value := rfl

theorem orError_none_bind : orError error none >>= next = .error error := rfl

theorem mapError_eq_ok {f : ε → ε'} {value : α} :
    mapError f computation = .ok value ↔ computation = .ok value := by
  cases computation <;> simp [mapError]

variable {value : β}

theorem bind_eq_ok :
    computation >>= next = .ok value ↔
      ∃ middle, computation = .ok middle ∧ next middle = .ok value := by
  cases computation <;> simp [bind, Except.bind]

theorem map_bind {project : β → γ} :
    (computation >>= next).map project = computation >>= fun value => (next value).map project := by
  cases computation <;> rfl

theorem bind_of_map {project : α → β} {next : β → Except ε γ} :
    computation.map project >>= next = computation >>= fun value => next (project value) := by
  cases computation <;> rfl

variable {check : Except ε Unit}

theorem check_bind_eq_ok {next : Unit → Except ε β} :
    check >>= next = .ok value ↔ check = .ok () ∧ next () = .ok value := by
  rw [bind_eq_ok]
  constructor
  · intro ⟨_, passed, rest⟩
    exact ⟨passed, rest⟩
  · intro ⟨passed, rest⟩
    exact ⟨(), passed, rest⟩

theorem rejectIf_bind_eq_ok [Decidable condition] {next : Unit → Except ε β} :
    rejectIf condition error >>= next = .ok value ↔ ¬condition ∧ next () = .ok value := by
  rw [check_bind_eq_ok, rejectIf_eq_ok]

theorem checkWhen_bind_eq_ok [Decidable condition] {next : Unit → Except ε β} :
    checkWhen condition check >>= next = .ok value ↔
      (condition → check = .ok ()) ∧ next () = .ok value := by
  rw [check_bind_eq_ok]
  by_cases holds : condition
  · simp [checkWhen, holds]
  · simp [checkWhen, holds]

/-- Every error the computation can end with satisfies the predicate. -/
def ErrorsIn (allowed : ε → Prop) (computation : Except ε α) : Prop :=
  ∀ error, computation = .error error → allowed error

variable {allowed : ε → Prop}

theorem ErrorsIn.ok (value : α) : ErrorsIn allowed (.ok value) := fun _ failed => nomatch failed

theorem ErrorsIn.bind
    (first : ErrorsIn allowed computation) (rest : ∀ value, ErrorsIn allowed (next value)) :
    ErrorsIn allowed (computation >>= next) := by
  cases computation with
  | error error =>
    intro error' failed
    cases failed
    exact first error rfl
  | ok value => exact rest value

theorem ErrorsIn.rejectIf [Decidable condition]
    (isAllowed : allowed error) : ErrorsIn allowed (rejectIf condition error) := by
  unfold Checked.rejectIf
  split
  · intro error' failed
    cases failed
    exact isAllowed
  · exact .ok ()

theorem ErrorsIn.checkWhen [Decidable condition]
    (inside : ErrorsIn allowed check) : ErrorsIn allowed (checkWhen condition check) := by
  unfold Checked.checkWhen
  split
  · exact inside
  · exact .ok ()

theorem ErrorsIn.orError (isAllowed : allowed error) (option : Option α) :
    ErrorsIn allowed (orError error option) := by
  cases option with
  | none =>
    intro error' failed
    cases failed
    exact isAllowed
  | some value => exact .ok value

theorem ErrorsIn.mapError {f : ε' → ε} {computation : Except ε' α}
    (images : ErrorsIn (fun error => allowed (f error)) computation) :
    ErrorsIn allowed (mapError f computation) := by
  cases computation with
  | error error =>
    intro error' failed
    cases failed
    exact images error rfl
  | ok value => exact .ok value

/-! ### Loops -/

variable {step : β → α → Except ε β}

theorem foldlM_cons_eq_ok {start result : β} {head : α} {tail : List α} :
    (head :: tail).foldlM step start = .ok result ↔
      ∃ middle, step start head = .ok middle ∧ tail.foldlM step middle = .ok result := by
  rw [foldlM_cons, bind_eq_ok]

theorem foldlM_concat {m : Type → Type} [Monad m] [LawfulMonad m] {step : β → α → m β} {start : β}
    {items : List α} {item : α} : (items ++ [item]).foldlM step start =
      items.foldlM step start >>= fun middle => step middle item := by
  simp only [foldlM_append, foldlM_cons, foldlM_nil, bind_pure]

theorem foldlM_project {project : β → β}
    (commutes : ∀ state item, step (project state) item = (step state item).map project)
    (items : List α) (state : β) :
    items.foldlM step (project state) = (items.foldlM step state).map project := by
  induction items generalizing state with
  | nil => rfl
  | cons item items ih =>
    rw [foldlM_cons, foldlM_cons, commutes, bind_of_map, map_bind]
    congr 1
    funext next
    exact ih next

variable {items : List α}

/-- A loop whose steps can be followed from a related state can be followed as a whole. -/
theorem foldlM_simulates {follow : γ → α → Except ε γ} {related : β → γ → Prop}
    (stepwise : ∀ left right item next, related left right → step left item = .ok next →
      ∃ followed, follow right item = .ok followed ∧ related next followed) {left last : β}
    {right : γ} (isRelated : related left right)
    (ran : items.foldlM step left = .ok last) :
    ∃ followed, items.foldlM follow right = .ok followed ∧ related last followed := by
  induction items generalizing left right with
  | nil =>
    cases ran
    exact ⟨right, rfl, isRelated⟩
  | cons item items ih =>
    obtain ⟨middle, first, rest⟩ := foldlM_cons_eq_ok.mp ran
    obtain ⟨between, followedFirst, stillRelated⟩ := stepwise left right item middle isRelated first
    obtain ⟨followed, followedRest, finallyRelated⟩ := ih stillRelated rest
    exact ⟨followed, foldlM_cons_eq_ok.mpr ⟨between, followedFirst, followedRest⟩, finallyRelated⟩

theorem foldlM_invariant {start result : β} (invariant : List α → β → Prop)
    (ran : items.foldlM step start = .ok result) (initially : invariant [] start)
    (preserved : ∀ done head state next, head ∈ items → invariant done state →
      step state head = .ok next → invariant (done ++ [head]) next) :
    invariant items result := by
  suffices general : ∀ done (rest : List α) state, (∀ item ∈ rest, item ∈ items) →
      invariant done state → rest.foldlM step state = .ok result →
      invariant (done ++ rest) result from
    general [] items start (fun _ member => member) initially ran
  intro done rest
  induction rest generalizing done with
  | nil =>
    intro state _ holds finished
    cases finished
    simpa using holds
  | cons head tail ih =>
    intro state inside holds finished
    obtain ⟨middle, stepped, rest⟩ := foldlM_cons_eq_ok.mp finished
    have next := ih (done ++ [head]) middle
      (fun item member => inside item (mem_cons_of_mem head member))
      (preserved done head state middle (inside head mem_cons_self) holds stepped) rest
    simpa using next

theorem forM_eq_ok_iff {check : α → Except ε Unit} :
    items.forM check = .ok () ↔ ∀ item ∈ items, check item = .ok () := by
  induction items with
  | nil => exact ⟨fun _ => nofun, fun _ => rfl⟩
  | cons item items ih =>
    rw [forall_mem_cons, ← ih]
    change (check item >>= fun _ => items.forM check) = .ok () ↔ _
    rw [bind_eq_ok]
    exact ⟨fun ⟨_, first, rest⟩ => ⟨first, rest⟩, fun ⟨first, rest⟩ => ⟨(), first, rest⟩⟩

theorem mapM_eq_some_iff {f : α → Option β} {results : List β} :
    items.mapM f = some results ↔ List.Forall₂ (fun item result => f item = some result)
      items results := by
  induction items generalizing results with
  | nil =>
    rw [List.forall₂_nil_left_iff]
    exact ⟨fun same => (Option.some.inj same).symm, fun same => by rw [same]; rfl⟩
  | cons head tail ih =>
    rw [mapM_cons, List.forall₂_cons_left_iff]
    constructor
    · intro ran
      obtain ⟨result, isResult, ran⟩ := Option.bind_eq_some_iff.mp ran
      obtain ⟨rest, areRest, finished⟩ := Option.bind_eq_some_iff.mp ran
      cases finished
      exact ⟨result, rest, isResult, ih.mp areRest, rfl⟩
    · rintro ⟨result, rest, isResult, areRest, rfl⟩
      simp [isResult, ih.mpr areRest]

theorem mapM_eq_ok_iff {f : α → Except ε β} {results : List β} :
    items.mapM f = .ok results ↔ List.Forall₂ (fun item result => f item = .ok result)
      items results := by
  induction items generalizing results with
  | nil =>
    rw [List.forall₂_nil_left_iff]
    exact ⟨fun same => (Except.ok.inj same).symm, fun same => by rw [same]; rfl⟩
  | cons head tail ih =>
    rw [mapM_cons, List.forall₂_cons_left_iff]
    constructor
    · intro ran
      obtain ⟨result, isResult, ran⟩ := bind_eq_ok.mp ran
      obtain ⟨rest, areRest, finished⟩ := bind_eq_ok.mp ran
      cases finished
      exact ⟨result, rest, isResult, ih.mp areRest, rfl⟩
    · intro ⟨result, rest, isResult, areRest, same⟩
      rw [same, isResult]
      rw [ih.mpr areRest]
      rfl

private theorem exists_forall₂ {relation : α → β → Prop}
    (all : ∀ item ∈ items, ∃ result, relation item result) :
    ∃ results, List.Forall₂ relation items results := by
  induction items with
  | nil => exact ⟨[], .nil⟩
  | cons head tail ih =>
    obtain ⟨result, isResult⟩ := all head mem_cons_self
    obtain ⟨results, areResults⟩ := ih fun item member => all item (mem_cons_of_mem _ member)
    exact ⟨result :: results, .cons isResult areResults⟩

theorem exists_mapM {f : α → Option β} (all : ∀ item ∈ items, ∃ result, f item = some result) :
    ∃ results, items.mapM f = some results :=
  (exists_forall₂ all).imp fun _ => mapM_eq_some_iff.mpr

theorem exists_mapM_ok {f : α → Except ε β} (all : ∀ item ∈ items, ∃ result, f item = .ok result) :
    ∃ results, items.mapM f = .ok results :=
  (exists_forall₂ all).imp fun _ => mapM_eq_ok_iff.mpr

theorem exists_of_forall₂ {relation : α → β → Prop} {results : List β}
    (related : List.Forall₂ relation items results) {item : α} (member : item ∈ items) :
    ∃ result, relation item result := by
  induction related with
  | nil => cases member
  | cons head _ ih =>
    rcases mem_cons.mp member with isHead | inTail
    · subst isHead
      exact ⟨_, head⟩
    · exact ih inTail

end Checked
