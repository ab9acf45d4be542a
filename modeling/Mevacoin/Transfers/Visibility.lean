/-
Visibility in the transfers container. What is visible among the transfers with one key
image is a matter of those transfers alone; every change of the container touches the
transfers of one key image and then decides its visibility again.
-/

import Mathlib.Data.List.MinMax
import Mevacoin.Transfers.TransfersContainer

namespace Mevacoin
open List FirstMatch

namespace Transfers
open Stateful TransfersContainer

variable {transfers rest : List TransactionOutputInformationEx}
  {test : TransactionOutputInformationEx → Bool} {transfer : TransactionOutputInformationEx}

def withImage (keyImage : KeyImage) (transfers : List TransactionOutputInformationEx) :
    List TransactionOutputInformationEx :=
  transfers.filter fun transfer => transfer.keyImage = keyImage

def spentWithImage (keyImage : KeyImage) (transfers : List SpentTransactionOutput) :
    List SpentTransactionOutput :=
  transfers.filter fun transfer => transfer.keyImage = keyImage

/-- The rule of visibility, for one key image: at most one transfer is spent, and then it
is the only visible one; else one earliest available transfer is visible; else an
unconfirmed transfer is visible if it is the only one. -/
structure VisibleAt (unconfirmed available : List TransactionOutputInformationEx)
    (spent : List Bool) : Prop where
  oneSpent : spent.length ≤ 1
  ofSpent : spent ≠ [] → (∀ visible ∈ spent, visible = true) ∧
    (∀ transfer ∈ available, transfer.visible = false) ∧
    ∀ transfer ∈ unconfirmed, transfer.visible = false
  ofAvailable : spent = [] → available ≠ [] → (available.filter (·.visible)).length = 1 ∧
    (∀ transfer ∈ available, transfer.visible = true →
      ∀ other ∈ available, less other transfer = false) ∧
    ∀ transfer ∈ unconfirmed, transfer.visible = false
  ofUnconfirmed : spent = [] → available = [] →
    ∀ transfer ∈ unconfirmed, (transfer.visible = true ↔ unconfirmed.length = 1)

def VisibleFor (container : TransfersContainer) (keyImage : KeyImage) : Prop :=
  VisibleAt (withImage keyImage container.unconfirmedTransfers)
    (withImage keyImage container.availableTransfers)
    ((spentWithImage keyImage container.spentTransfers).map (·.visible))

def Visibility (container : TransfersContainer) : Prop :=
  ∀ keyImage, VisibleFor container keyImage

structure SameImage (keyImage : KeyImage) (left right : TransfersContainer) : Prop where
  unconfirmed : withImage keyImage left.unconfirmedTransfers =
    withImage keyImage right.unconfirmedTransfers
  available : withImage keyImage left.availableTransfers =
    withImage keyImage right.availableTransfers
  spent : spentWithImage keyImage left.spentTransfers = spentWithImage keyImage right.spentTransfers

theorem SameImage.visibleFor {keyImage : KeyImage} {left right : TransfersContainer}
    (same : SameImage keyImage left right) (visible : VisibleFor right keyImage) :
    VisibleFor left keyImage := by
  unfold VisibleFor
  rw [same.unconfirmed, same.available, same.spent]
  exact visible

def position (transfer : TransactionOutputInformationEx) : Nat :=
  transfer.blockHeight.toNat * 2 ^ 32 + transfer.transactionIndex.toNat

theorem less_iff (first second : TransactionOutputInformationEx) :
    less first second = true ↔ position first < position second := by
  have firstBound := first.transactionIndex.toNat_lt
  have secondBound := second.transactionIndex.toNat_lt
  rw [less, decide_eq_true_eq, UInt32.lt_iff_toNat_lt, UInt32.lt_iff_toNat_lt, ← UInt32.toNat_inj,
    position, position]
  constructor
  · rintro (lower | ⟨same, before⟩)
    · omega
    · omega
  · omega

theorem exists_earliest (nonempty : transfers.filter test ≠ []) :
    ∃ transfer ∈ transfers, isEarliest transfers test transfer = true := by
  cases found : (transfers.filter test).argmin position with
  | none => exact absurd (argmin_eq_none.mp found) nonempty
  | some transfer =>
    have member := mem_filter.mp (argmin_mem found)
    refine ⟨transfer, member.1, ?_⟩
    rw [isEarliest, decide_eq_true_eq]
    refine ⟨member.2, fun other isOther passes => ?_⟩
    have minimal := not_lt_of_mem_argmin (mem_filter.mpr ⟨isOther, passes⟩) found
    rw [← less_iff] at minimal
    exact Bool.eq_false_iff.mpr minimal

theorem showFirst_split (exists_passing : ∃ transfer ∈ transfers, test transfer = true) :
    ∃ before transfer after, transfers = before ++ transfer :: after ∧ test transfer = true ∧
      showFirst test transfers = before ++ { transfer with visible := true } :: after := by
  induction transfers with
  | nil =>
    obtain ⟨transfer, member, _⟩ := exists_passing
    cases member
  | cons first transfers ih =>
    rw [showFirst]
    by_cases passes : test first = true
    · exact ⟨[], first, transfers, rfl, passes, if_pos passes⟩
    · obtain ⟨transfer, member, isPassing⟩ := exists_passing
      have later : transfer ∈ transfers := by
        rcases mem_cons.mp member with rfl | later
        · exact absurd isPassing passes
        · exact later
      obtain ⟨before, shown, after, isSplit, isShown, result⟩ := ih ⟨transfer, later, isPassing⟩
      refine ⟨first :: before, shown, after, ?_, isShown, ?_⟩
      · rw [isSplit, cons_append]
      · rw [if_neg passes, result, cons_append]

/-! ### Deciding the visibility of one key image -/

section Changes
variable {α κ : Type} [DecidableEq κ] (key : α → κ) (change : α → α) {wanted other : κ}

private theorem filter_change (keeps : ∀ item, key (change item) = key item) (items : List α) :
    (items.map fun item => if key item = wanted then change item else item).filter
      (fun item => key item = other) = if other = wanted
        then (items.filter fun item => key item = other).map change
        else items.filter fun item => key item = other := by
  induction items with
  | nil => simp
  | cons item items ih =>
    rw [map_cons, filter_cons, filter_cons, ih]
    by_cases same : other = wanted
    · by_cases isWanted : key item = wanted <;> simp [isWanted, keeps, same]
    · by_cases isWanted : key item = wanted <;> simp [isWanted, keeps, same, Ne.symm same]

end Changes

variable {container : TransfersContainer}

section Update
variable {keyImage other : KeyImage}

theorem withImage_updateVisibility_other (different : other ≠ keyImage) (visible : Bool)
    (transfers : List TransactionOutputInformationEx) :
    withImage other (updateVisibility keyImage visible transfers) = withImage other transfers :=
  (filter_change (fun transfer : TransactionOutputInformationEx => transfer.keyImage)
    (fun transfer => { transfer with visible := visible }) (fun _ => rfl) transfers).trans
      (if_neg different)

theorem spentWithImage_updateSpentVisibility_other (different : other ≠ keyImage) (visible : Bool)
    (transfers : List SpentTransactionOutput) :
    spentWithImage other (updateSpentVisibility keyImage visible transfers) =
      spentWithImage other transfers :=
  (filter_change (fun transfer : SpentTransactionOutput => transfer.keyImage)
    (fun transfer => { transfer with toTransactionOutputInformationEx.visible := visible })
    (fun _ => rfl) transfers).trans (if_neg different)

theorem withImage_updateVisibility (visible : Bool)
    (transfers : List TransactionOutputInformationEx) :
    withImage keyImage (updateVisibility keyImage visible transfers) =
      (withImage keyImage transfers).map fun transfer => { transfer with visible := visible } :=
  (filter_change (fun transfer : TransactionOutputInformationEx => transfer.keyImage)
    (fun transfer => { transfer with visible := visible }) (fun _ => rfl) transfers).trans
      (if_pos rfl)

theorem spentWithImage_updateSpentVisibility (visible : Bool)
    (transfers : List SpentTransactionOutput) :
    (spentWithImage keyImage (updateSpentVisibility keyImage visible transfers)).map (·.visible) =
      (spentWithImage keyImage transfers).map fun _ => visible := by
  have changed : spentWithImage keyImage (updateSpentVisibility keyImage visible transfers) =
      (spentWithImage keyImage transfers).map fun transfer =>
        { transfer with toTransactionOutputInformationEx.visible := visible } :=
    (filter_change (fun transfer : SpentTransactionOutput => transfer.keyImage)
      (fun transfer => { transfer with toTransactionOutputInformationEx.visible := visible })
      (fun _ => rfl) transfers).trans (if_pos rfl)
  rw [changed, map_map]
  rfl

theorem hidden_of_mem
    (member : transfer ∈ withImage keyImage (updateVisibility keyImage false transfers)) :
    transfer.visible = false := by
  rw [withImage_updateVisibility] at member
  obtain ⟨_, _, rfl⟩ := mem_map.mp member
  rfl

private theorem countP_pos_iff_filter {α : Type} {test : α → Bool} {items : List α} :
    items.countP test > 0 ↔ items.filter test ≠ [] := by
  rw [countP_eq_length_filter, gt_iff_lt, length_pos_iff]

theorem showFirst_withImage {hidden : List TransactionOutputInformationEx}
    (nonempty : withImage keyImage hidden ≠ []) :
    ∃ before transfer after, withImage keyImage hidden = before ++ transfer :: after ∧
      (∀ other ∈ withImage keyImage hidden, less other transfer = false) ∧
      withImage keyImage (showFirst (isEarliest hidden fun transfer => transfer.keyImage = keyImage)
        hidden) = before ++ { transfer with visible := true } :: after := by
  obtain ⟨before, transfer, after, isSplit, passes, result⟩ :=
    showFirst_split (exists_earliest nonempty)
  rw [isEarliest, decide_eq_true_eq, decide_eq_true_eq] at passes
  refine ⟨withImage keyImage before, transfer, withImage keyImage after, ?_, ?_, ?_⟩
  · rw [isSplit]
    simp only [withImage, filter_append, filter_cons, passes.1, decide_true, if_true]
  · intro other isOther
    obtain ⟨member, hasImage⟩ := mem_filter.mp isOther
    exact passes.2 other member hasImage
  · rw [result]
    simp only [withImage, filter_append, filter_cons, passes.1, decide_true, if_true]

theorem withImage_showFirst_other (different : other ≠ keyImage)
    (transfers hidden : List TransactionOutputInformationEx) :
    withImage other (showFirst (isEarliest hidden fun transfer => transfer.keyImage = keyImage)
      transfers) = withImage other transfers := by
  induction transfers with
  | nil => rfl
  | cons transfer transfers ih =>
    rw [showFirst]
    split
    · rename_i passes
      rw [isEarliest, decide_eq_true_eq, decide_eq_true_eq] at passes
      have apart : ¬ transfer.keyImage = other := fun isOther =>
        different (isOther.symm.trans passes.1)
      simp only [withImage, filter_cons, apart, decide_false, Bool.false_eq_true, if_false]
    · unfold withImage at ih ⊢
      rw [filter_cons, filter_cons, ih]

theorem sameImage_update (different : other ≠ keyImage) (container : TransfersContainer) :
    SameImage other (updateTransfersVisibility keyImage container) container := by
  unfold updateTransfersVisibility
  dsimp only
  split
  · exact ⟨withImage_updateVisibility_other different _ _,
      withImage_updateVisibility_other different _ _,
      spentWithImage_updateSpentVisibility_other different _ _⟩
  split
  · refine ⟨withImage_updateVisibility_other different _ _, ?_, rfl⟩
    exact (withImage_showFirst_other different _ _).trans
      (withImage_updateVisibility_other different _ _)
  · exact ⟨withImage_updateVisibility_other different _ _, rfl, rfl⟩

private theorem filter_visible_eq_nil (hidden : ∀ transfer ∈ transfers, transfer.visible = false) :
    transfers.filter (·.visible) = [] := by
  refine filter_eq_nil_iff.mpr fun transfer member => ?_
  rw [hidden transfer member]
  exact Bool.false_ne_true

theorem visibleAt_of_shown {unconfirmed hidden before after : List TransactionOutputInformationEx}
    (isSplit : hidden = before ++ transfer :: after)
    (hiddenAll : ∀ other ∈ hidden, other.visible = false)
    (earliest : ∀ other ∈ hidden, less other transfer = false)
    (unconfirmedHidden : ∀ other ∈ unconfirmed, other.visible = false) :
    VisibleAt unconfirmed (before ++ { transfer with visible := true } :: after) [] := by
  subst isSplit
  rw [forall_mem_append, forall_mem_cons] at hiddenAll
  have shown : (before ++ { transfer with visible := true } :: after).filter (·.visible) =
      [{ transfer with visible := true }] := by
    rw [filter_append, filter_visible_eq_nil hiddenAll.1, filter_cons_of_pos rfl,
      filter_visible_eq_nil hiddenAll.2.2, nil_append]
  refine ⟨Nat.zero_le _, fun nonempty => absurd rfl nonempty, ?_, ?_⟩
  · intro _ _
    refine ⟨by rw [shown]; rfl, ?_, unconfirmedHidden⟩
    intro chosen member isVisible
    have isShown : chosen ∈ [{ transfer with visible := true }] := by
      rw [← shown]
      exact mem_filter.mpr ⟨member, isVisible⟩
    rw [mem_singleton.mp isShown]
    rw [forall_mem_append, forall_mem_cons] at earliest ⊢
    exact earliest
  · intro _ isEmpty
    exact absurd isEmpty (by simp)

theorem visibleFor_update (single : (spentWithImage keyImage container.spentTransfers).length ≤ 1) :
    VisibleFor (updateTransfersVisibility keyImage container) keyImage := by
  unfold updateTransfersVisibility VisibleFor
  by_cases isSpent : spentWithImage keyImage container.spentTransfers ≠ []
  · rw [if_pos (countP_pos_iff_filter.mpr isSpent)]
    rw [spentWithImage_updateSpentVisibility]
    refine ⟨?_, ?_, ?_, ?_⟩
    · rw [length_map]
      exact single
    · intro _
      refine ⟨?_, fun _ => hidden_of_mem, fun _ => hidden_of_mem⟩
      intro visible member
      obtain ⟨_, _, rfl⟩ := mem_map.mp member
      rfl
    · intro isEmpty
      exact absurd (map_eq_nil_iff.mp isEmpty) isSpent
    · intro isEmpty
      exact absurd (map_eq_nil_iff.mp isEmpty) isSpent
  rw [if_neg (fun positive => isSpent (countP_pos_iff_filter.mp positive))]
  rw [not_not] at isSpent
  by_cases isAvailable : withImage keyImage container.availableTransfers ≠ []
  · rw [if_pos (countP_pos_iff_filter.mpr isAvailable)]
    have nonempty : withImage keyImage
        (updateVisibility keyImage false container.availableTransfers) ≠ [] := by
      rw [withImage_updateVisibility]
      exact fun isEmpty => isAvailable (map_eq_nil_iff.mp isEmpty)
    obtain ⟨before, transfer, after, isSplit, earliest, result⟩ := showFirst_withImage nonempty
    rw [isSpent, map_nil, result]
    exact visibleAt_of_shown isSplit (fun _ => hidden_of_mem) earliest (fun _ => hidden_of_mem)
  · rw [if_neg (fun positive => isAvailable (countP_pos_iff_filter.mp positive))]
    rw [not_not] at isAvailable
    rw [isSpent, isAvailable, map_nil, withImage_updateVisibility]
    refine ⟨Nat.zero_le _, fun nonempty => absurd rfl nonempty, fun _ nonempty => absurd rfl nonempty, ?_⟩
    intro _ _ transfer member
    obtain ⟨original, _, rfl⟩ := mem_map.mp member
    rw [length_map, countP_eq_length_filter, decide_eq_true_eq]
    rfl

end Update

/-! ### Steps -/

theorem Visibility.update {changed : TransfersContainer} {keyImage : KeyImage}
    (visibility : Visibility container)
    (others : ∀ other, other ≠ keyImage → SameImage other changed container)
    (single : (spentWithImage keyImage changed.spentTransfers).length ≤ 1) :
    Visibility (updateTransfersVisibility keyImage changed) := by
  intro other
  by_cases same : other = keyImage
  · rw [same]
    exact visibleFor_update single
  · exact (sameImage_update same changed).visibleFor
      ((others other same).visibleFor (visibility other))

theorem Visibility.oneSpent (visibility : Visibility container)
    (keyImage : KeyImage) : (spentWithImage keyImage container.spentTransfers).length ≤ 1 := by
  have single := (visibility keyImage).oneSpent
  rwa [length_map] at single

private theorem withImage_append_other {other : KeyImage} (apart : other ≠ transfer.keyImage) :
    withImage other (transfers ++ [transfer]) = withImage other transfers := by
  rw [withImage, filter_append, filter_singleton]
  simp only [apart.symm, decide_false, cond_false, append_nil]
  rfl

private theorem withImage_take_other {other : KeyImage}
    (taken : take test transfers = some (transfer, rest))
    (apart : other ≠ transfer.keyImage) :
    withImage other rest = withImage other transfers :=
  filter_of_take taken (decide_eq_false apart.symm)

section Steps
variable {container : TransfersContainer} (visibility : Visibility container)

include visibility

theorem visibility_addUnconfirmed (info : TransactionOutputInformationEx) :
    Visibility (updateTransfersVisibility info.keyImage
      { container with unconfirmedTransfers := container.unconfirmedTransfers ++ [info] }) :=
  visibility.update (fun _ apart => ⟨withImage_append_other apart, rfl, rfl⟩)
    (visibility.oneSpent info.keyImage)

theorem visibility_addAvailable (info : TransactionOutputInformationEx) :
    Visibility (updateTransfersVisibility info.keyImage
      { container with availableTransfers := container.availableTransfers ++ [info] }) :=
  visibility.update (fun _ apart => ⟨rfl, withImage_append_other apart, rfl⟩)
    (visibility.oneSpent info.keyImage)

theorem visibility_spend {input : KeyInput} {output : TransactionOutputInformationEx}
    {spent : SpentTransactionOutput}
    (unspent : spentWithImage input.keyImage container.spentTransfers = [])
    (chosen : spendable container.availableTransfers input = some (output, rest))
    (isSpent : spent.keyImage = output.keyImage) :
    Visibility (updateTransfersVisibility input.keyImage
      { container with
        availableTransfers := rest
        spentTransfers := container.spentTransfers ++ [spent] }) := by
  have passes := test_of_take chosen
  rw [isEarliest, decide_eq_true_eq, decide_eq_true_eq] at passes
  have isImage : output.keyImage = input.keyImage := passes.1.1
  have append : ∀ other, spentWithImage other (container.spentTransfers ++ [spent]) =
      spentWithImage other container.spentTransfers ++ spentWithImage other [spent] :=
    fun _ => filter_append ..
  refine visibility.update (fun other apart => ⟨rfl, ?_, ?_⟩) ?_
  · exact withImage_take_other chosen (by rw [isImage]; exact apart)
  · have none : spentWithImage other [spent] = [] := by
      refine filter_eq_nil_iff.mpr fun transfer member => ?_
      rw [mem_singleton.mp member, isSpent, isImage, decide_eq_true_eq]
      exact apart.symm
    rw [append, none, append_nil]
  · rw [append, unspent, nil_append]
    exact length_filter_le _ [spent]

theorem visibility_returnSpentTransfer (hash : Hash) :
    Visibility (returnSpentTransfer hash container) := by
  unfold returnSpentTransfer
  split
  · exact visibility
  · rename_i transfer rest taken
    refine visibility.update (fun other apart => ⟨rfl, withImage_append_other apart, ?_⟩) ?_
    · exact filter_of_take taken (decide_eq_false apart.symm)
    · exact ((sublist_of_take taken).filter _).length_le.trans
        (visibility.oneSpent transfer.keyImage)

theorem visibility_dropUnconfirmedTransfer (hash : Hash) :
    Visibility (dropUnconfirmedTransfer hash container) := by
  unfold dropUnconfirmedTransfer
  split
  · exact visibility
  · rename_i transfer rest taken
    exact visibility.update (fun _ apart => ⟨withImage_take_other taken apart, rfl, rfl⟩)
      (visibility.oneSpent transfer.keyImage)

theorem visibility_dropAvailableTransfer (hash : Hash) :
    Visibility (dropAvailableTransfer hash container) := by
  unfold dropAvailableTransfer
  split
  · exact visibility
  · rename_i transfer rest taken
    exact visibility.update (fun _ apart => ⟨rfl, withImage_take_other taken apart, rfl⟩)
      (visibility.oneSpent transfer.keyImage)

theorem visibility_confirm {confirmed : TransactionOutputInformationEx}
    (taken : take test container.unconfirmedTransfers = some (transfer, rest))
    (sameImage : confirmed.keyImage = transfer.keyImage) :
    Visibility (updateTransfersVisibility transfer.keyImage
      { container with
        unconfirmedTransfers := rest
        availableTransfers := container.availableTransfers ++ [confirmed] }) := by
  refine visibility.update (fun other apart => ⟨withImage_take_other taken apart, ?_, rfl⟩)
    (visibility.oneSpent transfer.keyImage)
  exact withImage_append_other (by rw [sameImage]; exact apart)

theorem visibility_unconfirmTransfer (hash : Hash) :
    Visibility (unconfirmTransfer hash container) := by
  unfold unconfirmTransfer
  split
  · exact visibility
  · rename_i transfer rest taken
    exact visibility.update
      (fun _ apart => ⟨withImage_append_other apart, withImage_take_other taken apart, rfl⟩)
      (visibility.oneSpent transfer.keyImage)

theorem visibility_setSpendingBlock (hash : Hash) (block : TransactionBlockInfo) :
    Visibility (setSpendingBlock hash block container) := by
  have unchanged : ∀ keyImage, (spentWithImage keyImage
      (setSpendingBlock hash block container).spentTransfers).map (·.visible) =
        (spentWithImage keyImage container.spentTransfers).map (·.visible) := by
    intro keyImage
    unfold setSpendingBlock spentWithImage
    rw [filter_map, map_map]
    have sameImage : ∀ transfer : SpentTransactionOutput, (if transfer.spendingTransactionHash = hash
        then { transfer with spendingBlock := block } else transfer).keyImage = transfer.keyImage := by
      intro transfer
      split <;> rfl
    have sameVisible : ∀ transfer : SpentTransactionOutput, (if transfer.spendingTransactionHash = hash
        then { transfer with spendingBlock := block } else transfer).visible = transfer.visible := by
      intro transfer
      split <;> rfl
    simp only [Function.comp_def, sameImage, sameVisible]
  intro keyImage
  unfold VisibleFor
  rw [unchanged]
  exact visibility keyImage

end Steps

theorem visibility_repeat {step : TransfersContainer → TransfersContainer}
    (keeps : ∀ container, Visibility container → Visibility (step container)) (rounds : Nat) (visibility : Visibility container) :
    Visibility (Nat.repeat step rounds container) := by
  induction rounds with
  | zero => exact visibility
  | succ rounds ih => exact keeps _ ih

/-! ### Calls -/

theorem visibility_deleteTransactionTransfers (hash : Hash)
    (visibility : Visibility container) : Visibility (deleteTransactionTransfers hash container) := by
  refine visibility_repeat (fun _ holds => visibility_dropAvailableTransfer holds hash) _ ?_
  refine visibility_repeat (fun _ holds => visibility_dropUnconfirmedTransfer holds hash) _ ?_
  exact visibility_repeat (fun _ holds => visibility_returnSpentTransfer holds hash) _ visibility

section
variable (block : TransactionBlockInfo) (tx : TransactionReader)
include block tx

theorem leads_addTransactionOutput (transfer : TransactionOutputInformationIn) :
    Leads Visibility (addTransactionOutput block tx transfer) Visibility := by
  refine leads_throwIf_bind fun _ => leads_get fun container visibility => ?_
  split
  · exact visibility_addUnconfirmed visibility _
  · refine leads_throwIf_bind (fun _ => ?_) container visibility
    intro _ _
    exact visibility_addAvailable visibility _

theorem leads_addKeyInput (inputIndex : Nat)
    (input : KeyInput) : Leads Visibility (addKeyInput block tx inputIndex input) Visibility := by
  refine leads_read fun container visibility => ?_
  refine leads_throwIf_bind (fun notSpent => ?_)
  have unspent : spentWithImage input.keyImage container.spentTransfers = [] := by
    refine filter_eq_nil_iff.mpr fun transfer member isImage => ?_
    exact notSpent (any_eq_true.mpr ⟨transfer, member, isImage⟩)
  refine leads_ite (fun _ => ?_) fun _ => ?_
  · split
    · exact leads_throw _
    · rename_i output rest chosen
      intro _ _
      exact visibility_spend visibility unspent chosen rfl
  · exact leads_throwIf_bind fun _ => leads_pure _

theorem leads_addTransactionInputs (inputIndex : Nat) (inputs : List TransactionInput) :
    Leads Visibility (addTransactionInputs block tx inputIndex inputs) Visibility := by
  induction inputs generalizing inputIndex with
  | nil => exact leads_pure _
  | cons input inputs ih =>
    cases input with
    | base blockIndex => exact ih (inputIndex + 1)
    | key input =>
      refine leads_seq (leads_addKeyInput block tx inputIndex input)
        fun _ => ?_
      refine leads_seq (ih (inputIndex + 1)) fun _ => ?_
      exact leads_pure _

theorem leads_addTransaction (transfers : List TransactionOutputInformationIn) :
    Leads Visibility (addTransaction block tx transfers) Visibility := by
  refine leads_tryCatch ?_ fun message => ?_
  · refine leads_get fun container visibility => ?_
    refine leads_throwIf_bind (fun _ => ?_) container visibility
    refine leads_throwIf_bind fun _ => ?_
    refine leads_seq ?_ fun _ => ?_
    · refine leads_seq (leads_forM fun transfer _ => leads_addTransactionOutput block tx transfer) fun _ => ?_
      exact leads_pure _
    refine leads_seq (leads_addTransactionInputs block tx 0 tx.inputs)
      fun _ => ?_
    refine leads_seq (leads_modify fun _ holds => ?_) fun _ => ?_
    · exact holds
    · exact leads_pure _
  · refine leads_seq (leads_modify fun container visibility => ?_)
      fun _ => leads_throw message
    split
    · exact visibility_deleteTransactionTransfers _ visibility
    · exact visibility

end

theorem leads_deleteUnconfirmedTransaction (hash : Hash) :
    Leads Visibility (deleteUnconfirmedTransaction hash) Visibility := by
  refine leads_get fun container visibility => ?_
  cases container.findTransaction hash with
  | none => exact visibility
  | some info =>
    refine leads_ite (fun _ => ?_) (fun _ => ?_) container visibility
    · intro _ _
      exact visibility_deleteTransactionTransfers hash visibility
    · exact leads_pure _

theorem visibility_detachFrom (height : UInt32) (infos : List TransactionInformation) {deleted : List Hash} (visibility : Visibility container) :
    Visibility (detachFrom height infos (container, deleted)).1 := by
  induction infos generalizing container deleted with
  | nil => exact visibility
  | cons info infos ih =>
    have afterDelete := visibility_deleteTransactionTransfers info.transactionHash visibility
    rw [detachFrom]
    split
    · split
      · exact ih afterDelete
      · exact ih visibility
    · split
      · exact ih afterDelete
      · exact visibility

theorem leads_detach (height : UInt32) : Leads Visibility (detach height) Visibility :=
  leads_get fun container visibility =>
    visibility_detachFrom height container.transactions.reverse visibility

theorem leads_confirmTransfers (block : TransactionBlockInfo) (hash : Hash)
    (globalIndices : List UInt32) (rounds : Nat) :
    Leads Visibility (confirmTransfers block hash globalIndices rounds) Visibility := by
  induction rounds with
  | zero => exact leads_pure _
  | succ rounds ih =>
    refine leads_get fun container visibility => ?_
    cases taken : take (fun transfer => transfer.transactionHash = hash)
        container.unconfirmedTransfers with
    | none => exact visibility
    | some found =>
      obtain ⟨transfer, rest⟩ := found
      dsimp only
      cases globalIndices[transfer.outputInTransaction.toNat]? with
      | none => exact visibility
      | some globalOutputIndex =>
        exact ih _ (visibility_confirm visibility taken rfl)

theorem visibility_rollbackConfirmation (hash : Hash)
    (visibility : Visibility container) : Visibility (rollbackConfirmation hash container) := by
  refine visibility_setSpendingBlock ?_ hash _
  exact visibility_repeat (fun _ holds => visibility_unconfirmTransfer holds hash) _ visibility

theorem leads_tryConfirm (block : TransactionBlockInfo) (hash : Hash) (globalIndices : List UInt32) :
    Leads Visibility (tryConfirm block hash globalIndices) Visibility := by
  refine leads_seq (leads_modify fun _ holds => ?_) fun _ =>
    leads_get fun container visibility => ?_
  · exact holds
  · exact leads_seq (leads_confirmTransfers block hash globalIndices _)
      (fun _ => leads_modify fun _ holds => visibility_setSpendingBlock holds hash block)
      container visibility

theorem leads_markTransactionConfirmed (block : TransactionBlockInfo) (hash : Hash)
    (globalIndices : List UInt32) :
    Leads Visibility (markTransactionConfirmed block hash globalIndices) Visibility := by
  refine leads_throwIf_bind fun _ => leads_get fun container visibility => ?_
  cases container.findTransaction hash with
  | none => exact visibility
  | some info =>
    refine leads_ite (fun _ => ?_) (fun _ => ?_) container visibility
    · refine leads_return ?_ _
      exact leads_tryCatch (leads_tryConfirm block hash globalIndices)
        fun message => leads_seq (leads_modify fun _ holds => visibility_rollbackConfirmation hash holds) fun _ => leads_throw message
    · exact leads_pure _

theorem leads_advanceHeight (height : UInt32) : Leads Visibility (advanceHeight height) Visibility := by
  refine leads_get fun container visibility => ?_
  split
  · exact visibility
  · exact visibility

/-! ### Histories -/

theorem visibility_apply (operation : Operation)
    (visibility : Visibility container) : Visibility (operation.apply container) := by
  cases operation with
  | addTransaction block tx transfers => exact leads_addTransaction block tx transfers _ visibility
  | deleteUnconfirmedTransaction hash => exact leads_deleteUnconfirmedTransaction hash _ visibility
  | markTransactionConfirmed block hash globalIndices =>
    exact leads_markTransactionConfirmed block hash globalIndices _ visibility
  | detach height => exact leads_detach height _ visibility
  | advanceHeight height => exact leads_advanceHeight height _ visibility

theorem visibility_empty : Visibility empty := fun _ =>
  ⟨Nat.zero_le _, fun nonempty => absurd rfl nonempty, fun _ nonempty => absurd rfl nonempty,
    fun _ _ _ member => nomatch member⟩

theorem visibility_afterCalls (calls : List Operation) : Visibility (afterCalls calls) := by
  unfold afterCalls
  generalize start : empty = container
  have visibility : Visibility container := start ▸ visibility_empty
  clear start
  induction calls generalizing container with
  | nil => exact visibility
  | cons call calls ih => exact ih _ (visibility_apply call visibility)

private theorem count_visible (keyImage : KeyImage)
    (transfers : List TransactionOutputInformationEx) :
    ((transfers.filter (·.visible)).map (·.keyImage)).count keyImage =
      ((withImage keyImage transfers).filter (·.visible)).length := by
  rw [count_eq_countP, countP_map, countP_filter, withImage, filter_filter,
    ← countP_eq_length_filter]
  apply countP_congr
  intro transfer _
  simp only [Function.comp_apply, Bool.and_eq_true, beq_iff_eq, decide_eq_true_eq]
  exact and_comm

theorem VisibleAt.visible_le_one {unconfirmed available : List TransactionOutputInformationEx}
    {spent : List Bool} (visible : VisibleAt unconfirmed available spent) :
    (available.filter (·.visible)).length + (unconfirmed.filter (·.visible)).length ≤ 1 := by
  by_cases isSpent : spent = []
  · by_cases isAvailable : available = []
    · have rule := visible.ofUnconfirmed isSpent isAvailable
      rw [isAvailable, filter_nil, length_nil, Nat.zero_add]
      by_cases alone : unconfirmed.length = 1
      · exact (length_filter_le _ _).trans alone.le
      · rw [filter_visible_eq_nil]
        · exact Nat.zero_le _
        · intro transfer member
          exact Bool.eq_false_iff.mpr fun isVisible => alone ((rule transfer member).mp isVisible)
    · obtain ⟨single, _, hidden⟩ := visible.ofAvailable isSpent isAvailable
      rw [single, filter_visible_eq_nil hidden, length_nil]
  · obtain ⟨_, hidden, hiddenUnconfirmed⟩ := visible.ofSpent isSpent
    rw [filter_visible_eq_nil hidden, filter_visible_eq_nil hiddenUnconfirmed]
    exact Nat.zero_le _

theorem Visibility.nodup_visible (visibility : Visibility container) :
    (((container.availableTransfers ++ container.unconfirmedTransfers).filter (·.visible)).map
      (·.keyImage)).Nodup := by
  rw [nodup_iff_count_le_one]
  intro keyImage
  rw [filter_append, map_append, count_append, count_visible, count_visible]
  exact (visibility keyImage).visible_le_one

theorem counted_sublist (context : BalanceContext) (container : TransfersContainer) (flags : UInt32) :
    (counted context container flags).Sublist
      ((container.availableTransfers ++ container.unconfirmedTransfers).filter (·.visible)) := by
  rw [counted, filter_append]
  refine (monotone_filter_right _ fun transfer passes => ?_).append ?_
  · exact (of_decide_eq_true passes).1
  · split
    · exact monotone_filter_right _ fun transfer passes => (of_decide_eq_true passes).1
    · exact nil_sublist _

/-- After any calls, returned or thrown, every key image obeys the rule of visibility, and
the balance adds up transfers with different key images. -/
theorem visibility_of_histories (calls : List Operation) :
    (∀ keyImage, VisibleFor (afterCalls calls) keyImage) ∧
    ∀ context flags, ∃ transfers : List TransactionOutputInformationEx,
      transfers.Sublist ((afterCalls calls).availableTransfers ++
        (afterCalls calls).unconfirmedTransfers) ∧
      (transfers.map (·.keyImage)).Nodup ∧
      balance context (afterCalls calls) flags = (transfers.map (·.amount)).sum := by
  have visibility := visibility_afterCalls calls
  refine ⟨visibility, fun context flags => ⟨counted context (afterCalls calls) flags, ?_, ?_, rfl⟩⟩
  · exact (counted_sublist context _ flags).trans filter_sublist
  · exact visibility.nodup_visible.sublist ((counted_sublist context _ flags).map _)

end Transfers
end Mevacoin
