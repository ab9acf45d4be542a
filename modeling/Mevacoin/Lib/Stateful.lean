/-
Computations that change a state and can end in an exception. What was changed before
an exception stays changed.
-/

import Mathlib.Logic.Basic

namespace Stateful
variable {ε σ α β : Type} {before between after : σ → Prop}

def final : EStateM.Result ε σ α → σ
  | .ok _ state => state
  | .error _ state => state

/-- The computation leads from every state with the first property to a state with the
second. -/
def Leads (before : σ → Prop) (computation : EStateM ε σ α) (after : σ → Prop) : Prop :=
  ∀ state, before state → after (final (computation state))

theorem leads_pure (value : α) : Leads before (pure value : EStateM ε σ α) before :=
  fun _ holds => holds

theorem leads_modify {change : σ → σ} (changes : ∀ state, before state → after (change state)) :
    Leads before (modify change : EStateM ε σ PUnit) after :=
  changes

variable {first : EStateM ε σ α} {next : α → EStateM ε σ β}

theorem leads_bind (leadsFirst : Leads before first between)
    (thrown : ∀ state, between state → after state)
    (leadsNext : ∀ value, Leads between (next value) after) :
    Leads before (first >>= next) after := by
  intro state holds
  have reached := leadsFirst state holds
  change after (final (EStateM.bind first next state))
  unfold EStateM.bind
  cases result : first state with
  | ok value later =>
    rw [result] at reached
    exact leadsNext value later reached
  | error fault later =>
    rw [result] at reached
    exact thrown later reached

theorem leads_seq
    (leadsFirst : Leads before first after) (leadsNext : ∀ value, Leads after (next value) after) :
    Leads before (first >>= next) after :=
  leads_bind leadsFirst (fun _ holds => holds) leadsNext

theorem leads_return (leadsFirst : Leads before first after) (value : β) :
    Leads before (first >>= fun _ => pure value) after :=
  leads_seq leadsFirst fun _ => leads_pure value

theorem final_bind_ok {state later : σ} {value : α} (returns : first state = .ok value later) :
    final ((first >>= next) state) = final (next value later) := by
  change final (EStateM.bind first next state) = _
  rw [EStateM.bind, returns]

theorem leads_map {f : α → β} {computation : EStateM ε σ α} (leads : Leads before computation after) :
    Leads before (f <$> computation) after := by
  intro state holds
  have reached := leads state holds
  change after (final (EStateM.map f computation state))
  unfold EStateM.map
  cases result : computation state with
  | ok value later =>
    rw [result] at reached
    exact reached
  | error fault later =>
    rw [result] at reached
    exact reached

theorem Leads.weaken {computation : EStateM ε σ α} (leads : Leads between computation after)
    (implies : ∀ state, before state → between state) : Leads before computation after :=
  fun state holds => leads state (implies state holds)

theorem leads_get {next : σ → EStateM ε σ β}
    (leadsNext : ∀ state, before state → after (final (next state state))) :
    Leads before (get >>= next) after :=
  leadsNext

theorem leads_read {next : σ → EStateM ε σ β}
    (leadsNext : ∀ state, before state → Leads before (next state) after) :
    Leads before (get >>= next) after :=
  fun state holds => leadsNext state holds state holds

theorem leads_of_final {computation : EStateM ε σ α} {state : σ}
    (reached : after (final (computation state))) : Leads (· = state) computation after := by
  rintro _ rfl
  exact reached

theorem leads_ite {condition : Prop} [Decidable condition] {second : EStateM ε σ α}
    (whenTrue : condition → Leads before first after)
    (whenFalse : ¬condition → Leads before second after) :
    Leads before (if condition then first else second) after := by
  by_cases holds : condition
  · rw [if_pos holds]
    exact whenTrue holds
  · rw [if_neg holds]
    exact whenFalse holds

theorem leads_throw (error : ε) : Leads before (throw error : EStateM ε σ α) before :=
  fun _ holds => holds

theorem leads_tryCatch {body : EStateM ε σ α} {handler : ε → EStateM ε σ α}
    (leadsBody : Leads before body after) (leadsHandler : ∀ error, Leads after (handler error) after) :
    Leads before (tryCatch body handler) after := by
  intro state holds
  have reached := leadsBody state holds
  change after (final (EStateM.tryCatch body handler state))
  unfold EStateM.tryCatch
  cases result : body state with
  | ok value later =>
    rw [result] at reached
    exact reached
  | error fault later =>
    rw [result] at reached
    exact leadsHandler fault later reached

theorem leads_forM {body : α → EStateM ε σ PUnit} {items : List α}
    (leadsBody : ∀ item ∈ items, Leads before (body item) before) :
    Leads before (items.forM body) before := by
  induction items with
  | nil => exact leads_pure _
  | cons item items ih =>
    exact leads_seq (leadsBody item List.mem_cons_self) fun _ =>
      ih fun other isOther => leadsBody other (List.mem_cons_of_mem _ isOther)

def throwIf (condition : Prop) [Decidable condition] (error : ε) : EStateM ε σ PUnit :=
  if condition then throw error else pure ⟨⟩

theorem leads_throwIf_bind {condition : Prop} [Decidable condition] {error : ε}
    {next : PUnit → EStateM ε σ β} (leadsNext : ¬condition → Leads before (next ⟨⟩) before) :
    Leads before (throwIf condition error >>= next) before := by
  unfold throwIf
  by_cases holds : condition
  · rw [if_pos holds]
    exact fun _ held => held
  · rw [if_neg holds]
    exact leadsNext holds

end Stateful
