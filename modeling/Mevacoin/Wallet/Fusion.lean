/-
Fusion transactions. The node takes them without a fee if they have enough inputs, few
outputs and no dust. The wallet's loop removes inputs until ratio and size fit, but it
does not look at the dust threshold.
-/

import Mevacoin.Wallet.Conservation

namespace Mevacoin
open List WalletTypes Wallet SubWallets Currency

variable {ourInputs : List TxInputAndOwner}

namespace Currency

def fusionDustThresholdHeightV2 : UInt32 := 800000

def defaultFusionDustThreshold (height : UInt32) : UInt64 :=
  if height ≥ fusionDustThresholdHeightV2 then 0 else 10

def sortAmounts (amounts : List UInt64) : List UInt64 :=
  amounts.insertionSort fun left right => left ≤ right

def isFusionTransaction (inputsAmounts outputsAmounts : List UInt64) (size : Nat)
    (height : UInt32) : Bool :=
  if size > fusionTxMaxSize then false
  else if inputsAmounts.length < fusionTxMinInputCount then false
  else if inputsAmounts.length < outputsAmounts.length * fusionTxMinInOutCountRatio then
    false
  else if ∃ amount ∈ inputsAmounts, amount < defaultFusionDustThreshold height then false
  else
    let inputAmount := inputsAmounts.sum
    sortAmounts (decomposeAmountIntoDigits inputAmount (defaultFusionDustThreshold height))
      = outputsAmounts

theorem isFusionTransaction_eq_true {inputsAmounts outputsAmounts : List UInt64} {size : Nat}
    {height : UInt32} : isFusionTransaction inputsAmounts outputsAmounts size height = true ↔
      size ≤ fusionTxMaxSize ∧
      fusionTxMinInputCount ≤ inputsAmounts.length ∧
      outputsAmounts.length * fusionTxMinInOutCountRatio ≤ inputsAmounts.length ∧
      (∀ amount ∈ inputsAmounts, defaultFusionDustThreshold height ≤ amount) ∧
      sortAmounts (decomposeAmountIntoDigits inputsAmounts.sum (defaultFusionDustThreshold height))
        = outputsAmounts := by
  unfold isFusionTransaction
  have dust : (∃ amount ∈ inputsAmounts, amount < defaultFusionDustThreshold height) ↔
      ¬∀ amount ∈ inputsAmounts, defaultFusionDustThreshold height ≤ amount := by
    simp only [not_forall, UInt64.not_le, exists_prop]
  simp only [dust, Bool.if_false_left, Bool.and_eq_true, Bool.not_eq_true', decide_eq_false_iff_not,
    not_not, decide_eq_true_eq, gt_iff_lt, Nat.not_lt]

theorem defaultFusionDustThreshold_le (height : UInt32) :
    (defaultFusionDustThreshold height).toNat ≤ 10 := by
  unfold defaultFusionDustThreshold
  split
  · exact Nat.zero_le _
  · exact Nat.le_refl _

theorem sortAmounts_decompose (amount : UInt64) (height : UInt32) :
    sortAmounts (decomposeAmountIntoDigits amount (defaultFusionDustThreshold height))
      = SendTransaction.splitAmountIntoDenominations amount := by
  rw [SendTransaction.decomposeAmountIntoDigits_eq (defaultFusionDustThreshold_le height)]
  exact (SendTransaction.sorted_splitAmount amount).insertionSort_eq

end Currency

namespace SendTransaction

/-! ### The wallet's loop -/

structure FusionRequest where
  mixin : UInt64
  addressesToTakeFrom : List Text
  destination : Text

structure FusionState where
  ourInputs : List TxInputAndOwner
  foundMoney : UInt64

def FusionState.removeLast (state : FusionState) : FusionState :=
  { ourInputs := state.ourInputs.dropLast
    foundMoney := state.foundMoney - ((state.ourInputs.getLast?.map fun used =>
      used.input.amount).getD 0) }

/-- A round of the loop: the transaction, or the inputs for the next round. -/
def fusionRound (context : TransferContext) (node : WalletNode) (randomTxKey : KeyPair)
    (mixin : UInt64) (destination : Text) (privateViewKey : SecretKey) (state : FusionState) :
    Except Failure (TransactionResult ⊕ FusionState) := do
  Checked.rejectIf (state.ourInputs.length < fusionTxMinInputCount)
    (.ofCode .fullyOptimized)
  let account ← context.codec.addressToKeys destination
  let destinations := splitTransfer account state.foundMoney
  if destinations.length = 0 ∨
      state.ourInputs.length / destinations.length < fusionTxMinInOutCountRatio then
    return .inr state.removeLast
  else
    let txResult ← makeTransaction context node randomTxKey mixin state.ourInputs [] destinations
      privateViewKey 0
    let txSize := (context.primitives.transactionToBinaryArray txResult.transaction).length
    if txSize > fusionTxMaxSize then return .inr state.removeLast
    else return .inl txResult

/-- The loop, with at most the given number of rounds; without a result if they do not
suffice. -/
def fusionLoop (context : TransferContext) (runtime : WalletRuntime) (node : WalletNode)
    (mixin : UInt64) (destination : Text) (privateViewKey : SecretKey) :
    Nat → Nat → FusionState → Except Failure (Option (TransactionResult × List TxInputAndOwner))
  | 0, _, _ => .ok none
  | rounds + 1, done, state => do
    let next ← fusionRound context node (runtime.generateKeyPair done) mixin destination
      privateViewKey state
    match next with
    | .inl txResult => return some (txResult, state.ourInputs)
    | .inr state =>
      fusionLoop context runtime node mixin destination privateViewKey rounds (done + 1) state

structure PreparedFusion where
  result : TransactionResult
  ourInputs : List TxInputAndOwner
  destination : Text

/-- Everything up to the relay, with a bound on the rounds of the loop. -/
def prepareFusion (rounds : Nat) (context : TransferContext) (runtime : WalletRuntime)
    (node : WalletNode) (request : FusionRequest) (wallets : SubWallets) :
    Except Failure (Option PreparedFusion) := do
  let destination ← if request.destination = [] then wallets.getPrimaryAddress
    else .ok request.destination
  ValidateParameters.validateFusionTransaction context.codec request.mixin
    request.addressesToTakeFrom destination wallets node.networkBlockCount
  let subWalletsToTakeFrom ← context.codec.addressesToSpendKeys request.addressesToTakeFrom
  let (ourInputs, maxFusionInputs, foundMoney) ← wallets.getFusionTransactionInputs runtime
    request.addressesToTakeFrom.isEmpty subWalletsToTakeFrom request.mixin node.networkBlockCount
  Checked.rejectIf (maxFusionInputs.toNat < fusionTxMinInputCount)
    (.ofCode .fusionMixinTooLarge)
  let fitted ← fusionLoop context runtime node request.mixin destination wallets.privateViewKey
    rounds 0 { ourInputs := ourInputs, foundMoney := foundMoney }
  match fitted with
  | none => return none
  | some (txResult, ourInputs) =>
    Checked.rejectIf
      (verifyAmounts (txResult.transaction.outputs.map TransactionOutput.amount) = false)
      (.ofCode .amountsNotPretty)
    Checked.rejectIf (verifyTransactionFee 0 txResult.transaction = false)
      (.ofCode .unexpectedFee)
    return some { result := txResult, ourInputs := ourInputs, destination := destination }

def sendFusionTransactionAdvanced (rounds : Nat) (context : TransferContext)
    (runtime : WalletRuntime) (node : WalletNode) (request : FusionRequest) :
    Sending (Option Hash) := do
  let prepared ← Sending.read (prepareFusion rounds context runtime node request)
  match prepared with
  | none => return none
  | some fusion =>
    let txHash ← Sending.read fun _ =>
      relayTransaction context.primitives node fusion.result.transaction
    recordSent context txHash 0 [] fusion.ourInputs fusion.destination 0 fusion.result.outputs
      fusion.result.txKeyPair
    return some txHash

/-! ### What the loop yields -/

def FusionState.Sound (state : FusionState) : Prop :=
  state.foundMoney = (usedAmounts state.ourInputs).sum

theorem FusionState.Sound.removeLast {state : FusionState} (sound : state.Sound) :
    state.removeLast.Sound := by
  unfold FusionState.Sound FusionState.removeLast
  rw [sound]
  induction inputs : state.ourInputs using List.reverseRecOn with
  | nil => rfl
  | append_singleton before last _ =>
    rw [dropLast_concat, getLast?_concat, usedAmounts, map_append, sum_append,
      map_singleton, sum_cons, sum_nil, UInt64.add_zero, Option.map_some,
      Option.getD_some, UInt64.add_sub_cancel]
    rfl

section Loop
variable {context : TransferContext} {runtime : WalletRuntime} {node : WalletNode}
  {mixin : UInt64} {destination : Text} {privateViewKey : SecretKey} {randomTxKey : KeyPair}
  {state : FusionState} {result : TransactionResult}

structure MadeFusion (context : TransferContext) (ourInputs : List TxInputAndOwner)
    (result : TransactionResult) : Prop where
  count : fusionTxMinInputCount ≤ ourInputs.length
  ratio : (splitAmountIntoDenominations (usedAmounts ourInputs).sum).length
    * fusionTxMinInOutCountRatio ≤ ourInputs.length
  size : (context.primitives.transactionToBinaryArray result.transaction).length ≤ fusionTxMaxSize
  inputs : result.transaction.inputAmounts = usedAmounts (sortByAmount ourInputs)
  outputs : result.transaction.outputAmounts
    = splitAmountIntoDenominations (usedAmounts ourInputs).sum

theorem amounts_splitTransfer (account : AccountPublicAddress) (amount : UInt64) :
    (splitTransfer account amount).map TransactionDestination.amount
      = splitAmountIntoDenominations amount := by
  rw [splitTransfer, map_map]
  exact map_id _

theorem sortDestinations_splitTransfer (account : AccountPublicAddress) (amount : UInt64) :
    sortDestinations (splitTransfer account amount) = splitTransfer account amount := by
  have sorted := sorted_splitAmount amount
  rw [← amounts_splitTransfer account, pairwise_map] at sorted
  exact sorted.insertionSort_eq

theorem fusionRound_eq_ok {next : TransactionResult ⊕ FusionState} (sound : state.Sound)
    (ran : fusionRound context node randomTxKey mixin destination privateViewKey state = .ok next) :
    fusionTxMinInputCount ≤ state.ourInputs.length ∧
      (next = .inr state.removeLast ∨
        ∃ result, next = .inl result ∧ MadeFusion context state.ourInputs result) := by
  obtain ⟨count, ran⟩ := Checked.rejectIf_bind_eq_ok.mp ran
  obtain ⟨account, _, ran⟩ := Checked.bind_eq_ok.mp ran
  refine ⟨Nat.not_lt.mp count, ?_⟩
  dsimp only at ran
  split at ran
  · cases ran
    exact .inl rfl
  · rename_i fits
    obtain ⟨nonempty, ratio⟩ := not_or.mp fits
    obtain ⟨result, made, ran⟩ := Checked.bind_eq_ok.mp ran
    split at ran
    · cases ran
      exact .inl rfl
    · rename_i size
      cases ran
      obtain ⟨inputs, outputs, _⟩ := makeTransaction_eq_ok made
      have length : (splitTransfer account state.foundMoney).length
          = (splitAmountIntoDenominations (usedAmounts state.ourInputs).sum).length := by
        rw [splitTransfer, length_map, sound]
      refine .inr ⟨result, rfl, Nat.not_lt.mp count, ?_, Nat.not_lt.mp size, inputs, ?_⟩
      · rw [← length, Nat.mul_comm]
        exact (Nat.le_div_iff_mul_le (Nat.pos_of_ne_zero nonempty)).mp (Nat.not_lt.mp ratio)
      · rw [Transaction.outputAmounts, outputs, map_map, ← sound]
        exact (amounts_setupOutputs _ _ _).trans
          ((congrArg _ (sortDestinations_splitTransfer _ _)).trans (amounts_splitTransfer _ _))

theorem length_removeLast (state : FusionState) :
    state.removeLast.ourInputs.length = state.ourInputs.length - 1 :=
  length_dropLast

theorem fusionLoop_terminates {rounds : Nat} (done : Nat) (sound : state.Sound)
    (enough : state.ourInputs.length < rounds) :
    fusionLoop context runtime node mixin destination privateViewKey rounds done state
      ≠ .ok none := by
  induction rounds generalizing done state with
  | zero => exact absurd enough (Nat.not_lt_zero _)
  | succ rounds ih =>
    intro ran
    obtain ⟨next, round, ran⟩ := Checked.bind_eq_ok.mp ran
    obtain ⟨count, again | ⟨result, finished, _⟩⟩ := fusionRound_eq_ok sound round
    · rw [again] at ran
      refine ih (done + 1) sound.removeLast ?_ ran
      have positive : 0 < fusionTxMinInputCount := by decide
      rw [length_removeLast]
      omega
    · rw [finished] at ran
      cases ran

theorem fusionLoop_eq_some {rounds done : Nat} (sound : state.Sound)
    (ran : fusionLoop context runtime node mixin destination privateViewKey rounds done state
      = .ok (some (result, ourInputs))) : MadeFusion context ourInputs result := by
  induction rounds generalizing done state with
  | zero => cases ran
  | succ rounds ih =>
    obtain ⟨next, round, ran⟩ := Checked.bind_eq_ok.mp ran
    obtain ⟨_, again | ⟨_, finished, made⟩⟩ := fusionRound_eq_ok sound round
    · rw [again] at ran
      exact ih sound.removeLast ran
    · rw [finished] at ran
      cases ran
      exact made

theorem MadeFusion.isFusionTransaction_iff
    (made : MadeFusion context ourInputs result) (height : UInt32) :
    isFusionTransaction result.transaction.inputAmounts result.transaction.outputAmounts
        (context.primitives.transactionToBinaryArray result.transaction).length height = true ↔
      ∀ used ∈ ourInputs, defaultFusionDustThreshold height ≤ used.input.amount := by
  have perm : (usedAmounts (sortByAmount ourInputs)).Perm (usedAmounts ourInputs) :=
    (perm_insertionSort _ _).map _
  have length : (usedAmounts (sortByAmount ourInputs)).length = ourInputs.length :=
    perm.length_eq.trans (length_map _)
  rw [isFusionTransaction_eq_true, made.inputs, made.outputs, length,
    sortAmounts_decompose, perm.sum_eq]
  constructor
  · intro ⟨_, _, _, dust, _⟩ used member
    exact dust _ (perm.symm.subset (mem_map_of_mem member))
  · intro noDust
    refine ⟨made.size, made.count, made.ratio, ?_, rfl⟩
    intro amount member
    obtain ⟨used, isUsed, same⟩ := mem_map.mp (perm.subset member)
    rw [← same]
    exact noDust used isUsed

end Loop

def maxFusionInputs (mixin : UInt64) : Nat :=
  max 1 (getApproximateMaximumInputCount (UInt64.ofNat fusionTxMaxSize)
    (UInt64.ofNat fusionTxMinInOutCountRatio) mixin).toNat

theorem getFusionTransactionInputs_eq_ok {runtime : WalletRuntime} {takeFromAll : Bool}
    {keys : List PublicKey} {mixin height maxInputs foundMoney : UInt64} {wallets : SubWallets}
    (ran : wallets.getFusionTransactionInputs runtime takeFromAll keys mixin height
      = .ok (ourInputs, maxInputs, foundMoney)) :
    FusionState.Sound { ourInputs := ourInputs, foundMoney := foundMoney } ∧
      ourInputs.length ≤ maxFusionInputs mixin := by
  obtain ⟨_, ran⟩ := SubWallets.throwIfViewWallet_bind_eq_ok.mp ran
  obtain ⟨_, _, same⟩ := Checked.bind_eq_ok.mp ran
  cases same
  exact ⟨rfl, length_take_le _ _⟩

section Prepared
variable {rounds : Nat} {context : TransferContext} {runtime : WalletRuntime} {node : WalletNode}
  {request : FusionRequest} {wallets : SubWallets}

theorem prepareFusion_eq_ok {prepared : Option PreparedFusion}
    (ran : prepareFusion rounds context runtime node request wallets = .ok prepared) :
    ∃ destination state, FusionState.Sound state ∧
      state.ourInputs.length ≤ maxFusionInputs request.mixin ∧ ∃ fitted,
      fusionLoop context runtime node request.mixin destination wallets.privateViewKey rounds 0 state
        = .ok fitted ∧
      prepared = fitted.map fun made =>
        { result := made.1, ourInputs := made.2, destination := destination } := by
  obtain ⟨destination, _, ran⟩ := Checked.bind_eq_ok.mp
    ((apply_ite (fun first : Except Failure Text => first >>= _) _ _ _).trans ran)
  obtain ⟨_, _, ran⟩ := Checked.bind_eq_ok.mp ran
  obtain ⟨keys, _, ran⟩ := Checked.bind_eq_ok.mp ran
  obtain ⟨⟨ourInputs, maxInputs, foundMoney⟩, chosen, ran⟩ := Checked.bind_eq_ok.mp ran
  obtain ⟨_, ran⟩ := Checked.rejectIf_bind_eq_ok.mp ran
  obtain ⟨fitted, looped, ran⟩ := Checked.bind_eq_ok.mp ran
  obtain ⟨sound, few⟩ := getFusionTransactionInputs_eq_ok chosen
  refine ⟨destination, _, sound, few, fitted, looped, ?_⟩
  cases fitted with
  | none =>
    cases ran
    rfl
  | some made =>
    obtain ⟨_, ran⟩ := Checked.rejectIf_bind_eq_ok.mp ran
    obtain ⟨_, same⟩ := Checked.rejectIf_bind_eq_ok.mp ran
    cases same
    rfl

theorem prepareFusion_terminates (enough : maxFusionInputs request.mixin < rounds) :
    prepareFusion rounds context runtime node request wallets ≠ .ok none := by
  intro ran
  obtain ⟨destination, state, sound, few, fitted, looped, isNone⟩ := prepareFusion_eq_ok ran
  rw [Option.map_eq_none_iff.mp isNone.symm] at looped
  exact fusionLoop_terminates 0 sound (Nat.lt_of_le_of_lt few enough) looped

theorem prepareFusion_eq_some {fusion : PreparedFusion}
    (ran : prepareFusion rounds context runtime node request wallets = .ok (some fusion)) :
    MadeFusion context fusion.ourInputs fusion.result := by
  obtain ⟨destination, state, sound, _, fitted, looped, isSome⟩ := prepareFusion_eq_ok ran
  obtain ⟨made, isFitted, same⟩ := Option.map_eq_some_iff.mp isSome.symm
  rw [isFitted] at looped
  rw [← same]
  exact fusionLoop_eq_some sound looped

end Prepared

def dustWallet : SubWallets :=
  { fifthOutputWallet with
    subWallets :=
      [{ unspentInputs := (List.range 12).map fun index => outputOf (UInt64.ofNat (index + 1)) 1
         publicSpendKey := ⟨1⟩, privateSpendKey := ⟨1⟩, syncStartTimestamp := 0
         syncStartHeight := 0, address := [], isPrimaryAddress := true }] }

end SendTransaction
end Mevacoin
