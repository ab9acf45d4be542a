/-
What acceptance establishes. The checks of `addBlock` are inverted once; later
results use the facts listed here and never the checks themselves.
-/

import Mevacoin.Cache.Records
import Mevacoin.Core.AddBlock

namespace Mevacoin
open Checked
open Parameters

variable {primitives : Primitives} {block : BlockTemplate} {environment : Environment}
  {now : UInt64} {segments : List Segment}

/-- The transactions are parsed from the binaries, which they keep. -/
abbrev Extracted (primitives : Primitives) : List BinaryArray → List CachedTransaction → Prop :=
  List.Forall₂ fun binary cached => cached.binaryArray = binary ∧
    primitives.transactionFromBinaryArray binary = some cached.transaction

variable {binaries : List BinaryArray} {transactions : List CachedTransaction}

theorem extractTransactions_eq_some {size : Nat}
    (ran : extractTransactions primitives binaries = some (transactions, size)) :
    Extracted primitives binaries transactions ∧ size = (binaries.map List.length).sum := by
  obtain ⟨parsed, areParsed, rest⟩ := Option.bind_eq_some_iff.mp ran
  cases rest
  refine ⟨(mapM_eq_some_iff.mp areParsed).imp ?_, rfl⟩
  intro binary cached isParsed
  split at isParsed
  · cases isParsed
  · obtain ⟨transaction, isTransaction, rfl⟩ := Option.map_eq_some_iff.mp isParsed
    exact ⟨rfl, isTransaction⟩

theorem parsed_of_extracted (extracted : Extracted primitives binaries transactions) :
    binaries.mapM primitives.transactionFromBinaryArray
      = some (transactions.map CachedTransaction.transaction) := by
  rw [mapM_eq_some_iff, List.forall₂_map_right_iff]
  exact extracted.imp fun _ _ facts => facts.2

theorem checkBaseInput_eq_ok {baseTransaction : Transaction} {blockIndex : Nat}
    (ran : checkBaseInput baseTransaction = .ok blockIndex) :
    ∃ input : UInt32, baseTransaction.inputs = [.base input] ∧ input.toNat = blockIndex := by
  unfold checkBaseInput at ran
  split at ran
  · rename_i input inputs
    cases ran
    exact ⟨input, inputs, rfl⟩
  · cases ran
  · cases ran

/-- The coinbase names the block index and creates the reward. -/
structure ValidCoinbase (primitives : Primitives) (block : BlockTemplate) (blockIndex : Nat)
    (minerReward : UInt64) : Prop where
  input : ∃ input : UInt32, block.baseTransaction.inputs = [.base input] ∧ input.toNat = blockIndex
  outputs : block.baseTransaction.outputs.foldlM (addOutputAmount primitives) 0 = .ok minerReward

theorem ValidCoinbase.getBlockIndex {blockIndex : Nat} {minerReward : UInt64}
    (valid : ValidCoinbase primitives block blockIndex minerReward) :
    block.getBlockIndex = blockIndex := by
  obtain ⟨input, inputs, index⟩ := valid.input
  simp [BlockTemplate.getBlockIndex, inputs, index]

theorem validateBlock_eq_ok {previousBlockIndex : Nat} {minerReward : UInt64}
    (ran : validateBlock environment now segments previousBlockIndex block = .ok minerReward) :
    ValidCoinbase environment.primitives block (previousBlockIndex + 1) minerReward := by
  obtain ⟨-, ran⟩ := rejectIf_bind_eq_ok.mp ran
  obtain ⟨-, ran⟩ := rejectIf_bind_eq_ok.mp ran
  obtain ⟨-, ran⟩ := rejectIf_bind_eq_ok.mp ran
  obtain ⟨-, ran⟩ := rejectIf_bind_eq_ok.mp ran
  obtain ⟨-, ran⟩ := rejectIf_bind_eq_ok.mp ran
  obtain ⟨blockIndex, base, ran⟩ := bind_eq_ok.mp ran
  obtain ⟨sameIndex, ran⟩ := rejectIf_bind_eq_ok.mp ran
  obtain ⟨-, ran⟩ := rejectIf_bind_eq_ok.mp ran
  obtain ⟨-, ran⟩ := rejectIf_bind_eq_ok.mp ran
  obtain ⟨input, inputs, index⟩ := checkBaseInput_eq_ok (mapError_eq_ok.mp base)
  exact ⟨⟨input, inputs, index.trans (not_not.mp sameIndex)⟩, mapError_eq_ok.mp ran⟩

/-! ### The facts behind an accepted block -/

structure AcceptanceData where
  cache : Segment
  cumulativeSize : Nat
  minerReward : UInt64
  cumulativeFee : UInt64
  alreadyGeneratedCoins : UInt64
  reward : BlockReward

structure Acceptance (environment : Environment) (now : UInt64) (segments : List Segment)
    (block : BlockTemplate) (rawBlock : RawBlock) (accepted : AcceptedBlock)
    (data : AcceptanceData) : Prop where
  cache : segments.head? = some data.cache
  extracted : extractTransactions environment.primitives rawBlock.transactions
    = some (accepted.pushed.transactions, data.cumulativeSize)
  position : data.cache.getBlockIndex block.previousBlockHash = some accepted.previousBlockIndex
  sizeLimit : accepted.pushed.blockSize
    ≤ Currency.maxBlockCumulativeSize (accepted.previousBlockIndex + 1)
  validBlock : validateBlock environment now segments accepted.previousBlockIndex block
    = .ok data.minerReward
  difficulty : Lineage.getDifficultyForNextBlock segments accepted.previousBlockIndex
    = some accepted.pushed.blockDifficulty
  difficulty_ne_zero : accepted.pushed.blockDifficulty ≠ 0
  transactionHashes : block.getBlockIndex ≥ blockBlobShuffleCheckHeight →
    checkTransactionHashes environment.primitives block accepted.pushed.transactions = .ok ()
  mixins : Mixins.validate accepted.pushed.transactions block.getBlockIndex = true ∨
    Mixins.validate accepted.pushed.transactions (mixinChangeWindow block.getBlockIndex) = true
  validTransactions : validateTransactions environment now segments accepted.previousBlockIndex
    accepted.pushed.transactions = .ok (data.cumulativeFee, accepted.pushed.validatorState)
  generated : Lineage.getAlreadyGeneratedCoins segments accepted.previousBlockIndex
    = some data.alreadyGeneratedCoins
  rewarded : Currency.getBlockReward block.majorVersion.toNat
      (medianValue (Lineage.getLastBlocksSizes segments rewardBlocksWindow
        accepted.previousBlockIndex true))
      accepted.pushed.blockSize data.alreadyGeneratedCoins data.cumulativeFee
    = some data.reward
  minerReward : data.minerReward = data.reward.reward
  work : checkWork environment block accepted.pushed.blockDifficulty = .ok ()
  sameBlock : accepted.pushed.block = block
  blockSize : accepted.pushed.blockSize
    = (environment.primitives.transactionToBinaryArray block.baseTransaction).length
      + data.cumulativeSize
  generatedCoins : accepted.pushed.generatedCoins = data.reward.emissionChange
  sameRawBlock : accepted.pushed.rawBlock = rawBlock

theorem acceptBlock_eq_ok {rawBlock : RawBlock} {accepted : AcceptedBlock}
    (ran : acceptBlock environment now segments block rawBlock = .ok accepted) :
    ∃ data, Acceptance environment now segments block rawBlock accepted data := by
  obtain ⟨cache, isCache, ran⟩ := bind_eq_ok.mp ran
  obtain ⟨⟨transactions, cumulativeSize⟩, extracted, ran⟩ := bind_eq_ok.mp ran
  obtain ⟨previousBlockIndex, position, ran⟩ := bind_eq_ok.mp ran
  obtain ⟨sizeLimit, ran⟩ := rejectIf_bind_eq_ok.mp ran
  obtain ⟨minerReward, validBlock, ran⟩ := bind_eq_ok.mp ran
  obtain ⟨currentDifficulty, difficulty, ran⟩ := bind_eq_ok.mp ran
  obtain ⟨notZero, ran⟩ := rejectIf_bind_eq_ok.mp ran
  obtain ⟨transactionHashes, ran⟩ := checkWhen_bind_eq_ok.mp ran
  obtain ⟨mixins, ran⟩ := rejectIf_bind_eq_ok.mp ran
  obtain ⟨⟨cumulativeFee, validatorState⟩, validTransactions, ran⟩ := bind_eq_ok.mp ran
  obtain ⟨alreadyGeneratedCoins, generated, ran⟩ := bind_eq_ok.mp ran
  obtain ⟨reward, rewarded, ran⟩ := bind_eq_ok.mp ran
  obtain ⟨sameReward, ran⟩ := rejectIf_bind_eq_ok.mp ran
  obtain ⟨_, work, ran⟩ := bind_eq_ok.mp ran
  cases ran
  rw [orError_eq_ok] at isCache extracted position difficulty generated rewarded
  rw [mapError_eq_ok] at validBlock validTransactions work
  refine ⟨⟨cache, cumulativeSize, minerReward, cumulativeFee, alreadyGeneratedCoins, reward⟩, ?_⟩
  exact {
    cache := isCache
    extracted := extracted
    position := position
    sizeLimit := Nat.le_of_not_lt sizeLimit
    validBlock := validBlock
    difficulty := difficulty
    difficulty_ne_zero := notZero
    transactionHashes := fun high => mapError_eq_ok.mp (transactionHashes high)
    mixins := by
      rw [not_and_or, Bool.not_eq_false, Bool.not_eq_false] at mixins
      exact mixins
    validTransactions := validTransactions
    generated := generated
    rewarded := rewarded
    minerReward := not_not.mp sameReward
    work := work
    sameBlock := rfl
    blockSize := rfl
    generatedCoins := rfl
    sameRawBlock := rfl }

private theorem validateBlock_errors (environment : Environment) (now : UInt64)
    (segments : List Segment) (previousBlockIndex : Nat) (block : BlockTemplate) :
    ErrorsIn (fun code => code.accepted = false)
      (validateBlock environment now segments previousBlockIndex block) := by
  refine .bind (.rejectIf rfl) fun _ => ?_
  refine .bind (.rejectIf rfl) fun _ => ?_
  refine .bind (.rejectIf rfl) fun _ => ?_
  refine .bind (.rejectIf rfl) fun _ => ?_
  refine .bind (.rejectIf rfl) fun _ => ?_
  refine .bind (.mapError fun _ _ => rfl) fun _ => ?_
  refine .bind (.rejectIf rfl) fun _ => ?_
  refine .bind (.rejectIf rfl) fun _ => ?_
  refine .bind (.rejectIf rfl) fun _ => ?_
  exact .mapError fun _ _ => rfl

theorem acceptBlock_rejected {rawBlock : RawBlock} {code : ErrorCode}
    (ran : acceptBlock environment now segments block rawBlock = .error (.rejected code)) :
    code.accepted = false := by
  suffices errors : ErrorsIn
      (fun refusal => ∀ code, refusal = .rejected code → code.accepted = false)
      (acceptBlock environment now segments block rawBlock) from errors _ ran code rfl
  have exception : ∀ code, Refusal.exception = .rejected code → code.accepted = false :=
    fun _ same => nomatch same
  have rejected : ∀ error, error.accepted = false →
      ∀ code, Refusal.rejected error = .rejected code → code.accepted = false := by
    intro error notAccepted code same
    cases same
    exact notAccepted
  refine .bind (.orError exception _) fun cache => ?_
  refine .bind (.orError (rejected _ rfl) _) fun transactions => ?_
  refine .bind (.orError exception _) fun previousBlockIndex => ?_
  refine .bind (.rejectIf (rejected _ rfl)) fun _ => ?_
  refine .bind (.mapError fun error failed =>
    rejected error (validateBlock_errors _ _ _ _ _ error failed)) fun minerReward => ?_
  refine .bind (.orError exception _) fun currentDifficulty => ?_
  refine .bind (.rejectIf (rejected _ rfl)) fun _ => ?_
  refine .bind (.checkWhen (.mapError fun _ _ => rejected _ rfl)) fun _ => ?_
  refine .bind (.rejectIf (rejected _ rfl)) fun _ => ?_
  refine .bind (.mapError fun _ _ => rejected _ rfl) fun _ => ?_
  refine .bind (.orError exception _) fun _ => ?_
  refine .bind (.orError (rejected _ rfl) _) fun _ => ?_
  refine .bind (.rejectIf (rejected _ rfl)) fun _ => ?_
  exact .bind (.mapError fun _ _ => rejected _ rfl) fun _ => .ok _

end Mevacoin
