/-
Fusion inputs of the container wallet. Outputs that are a digit with zeros are counted by
their power of ten; one with enough of them is picked, and outputs of its size are drawn
at random.
-/

import Mevacoin.Lib.SparseShuffle
import Mevacoin.Wallet.Fusion

namespace Mevacoin
open List Wallet Nat Bool SubWallets SendTransaction Currency SparseShuffle

namespace Currency

/-- The place of an amount in the table of pretty amounts, by powers of ten, if the amount
can be fused. -/
def isAmountApplicableInFusionTransactionInput (amount threshold : UInt64) (height : UInt32) :
    Option Nat :=
  if amount ≥ threshold then none
  else if amount < defaultFusionDustThreshold height then none
  else
    let position := SendTransaction.prettyAmounts.findIdx fun pretty => !(pretty < amount)
    if prettyAmounts[position]? ≠ some amount then none
    else some (position / 9)

end Currency

namespace WalletGreen

structure TransactionOutputInformation where
  amount : UInt64
  globalOutputIndex : UInt32
  outputInTransaction : UInt32
  transactionHash : Hash
  transactionPublicKey : PublicKey
  outputKey : PublicKey
  deriving DecidableEq, Repr

structure WalletRecord where
  spendPublicKey : PublicKey
  actualBalance : UInt64
  unlockedOuts : List TransactionOutputInformation

structure OutputToTransfer where
  out : TransactionOutputInformation
  wallet : PublicKey
  deriving DecidableEq, Repr

structure FusionRandom where
  shuffleBuckets : List Nat → List Nat
  randomValue : Nat → Nat → Nat
  shuffleBuckets_perm : ∀ buckets, (shuffleBuckets buckets).Perm buckets
  randomValue_le : ∀ call last, randomValue call last ≤ last

def pickWalletsWithMoney (wallets : List WalletRecord) : List WalletRecord :=
  wallets.filter fun wallet => wallet.actualBalance ≠ 0

def parseAddress (codec : AddressCodec) (address : Text) : Except Failure AccountPublicAddress := do
  let (tag, account) ← Checked.orError (.thrown (ascii "Bad address"))
    (codec.parseAccountAddressString address)
  Checked.rejectIf (tag ≠ publicAddressBase58Prefix) (.thrown (ascii "Bad address"))
  return account

def getWalletRecord (codec : AddressCodec) (wallets : List WalletRecord) (address : Text) :
    Except Failure WalletRecord := do
  let account ← parseAddress codec address
  Checked.orError (.thrown (ascii "Requested wallet not found"))
    (wallets.find? fun wallet => wallet.spendPublicKey = account.spendPublicKey)

def pickWallets (codec : AddressCodec) (wallets : List WalletRecord) (addresses : List Text) :
    Except Failure (List WalletRecord) := do
  let picked ← addresses.mapM (getWalletRecord codec wallets)
  return picked.filter fun wallet => wallet.unlockedOuts ≠ []

def pickSources (codec : AddressCodec) (wallets : List WalletRecord) (addresses : List Text) :
    Except Failure (List WalletRecord) :=
  if addresses.isEmpty then .ok (pickWalletsWithMoney wallets)
  else pickWallets codec wallets addresses

/-- The outputs that can be fused with their powers of ten. -/
def fusionReadyOuts (threshold : UInt64) (height : UInt32) (walletOuts : List WalletRecord) :
    List (OutputToTransfer × Nat) :=
  walletOuts.flatMap fun wallet => wallet.unlockedOuts.filterMap fun out =>
    (isAmountApplicableInFusionTransactionInput out.amount threshold height).map
      fun powerOfTen => ({ out := out, wallet := wallet.spendPublicKey }, powerOfTen)

def digits10 : Nat := 19

def bucketSize (ready : List (OutputToTransfer × Nat)) (bucket : Nat) : Nat :=
  ready.countP fun entry => entry.2 = bucket

def lowerBound (bucket : Nat) : UInt64 := (range bucket).foldl (fun bound _ => bound * 10) 1

def upperBound (bucket : Nat) : UInt64 :=
  if bucket = digits10 then 2 ^ 64 - 1 else lowerBound bucket * 10

def inBounds (bucket : Nat) (output : OutputToTransfer) : Bool :=
  lowerBound bucket ≤ output.out.amount && output.out.amount < upperBound bucket

def sortOutputs (outputs : List OutputToTransfer) : List OutputToTransfer :=
  outputs.insertionSort fun left right => left.out.amount ≤ right.out.amount

def trim (random : FusionRandom) (maxInputCount : Nat) (selectedOuts : List OutputToTransfer) :
    List OutputToTransfer :=
  let generator := start selectedOuts.length
  ((generator.draw random.randomValue maxInputCount 0).getD []).filterMap fun position =>
    selectedOuts[position]?

def selectFusionInputs (random : FusionRandom) (minInputCount maxInputCount : Nat)
    (ready : List (OutputToTransfer × Nat)) : List OutputToTransfer :=
  let bucketNumbers := random.shuffleBuckets (range (digits10 + 1))
  match bucketNumbers.find? fun bucket => bucketSize ready bucket ≥ minInputCount with
  | none => []
  | some selectedBucket =>
    let selectedOuts := (ready.map Prod.fst).filter (inBounds selectedBucket)
    if selectedOuts.length ≤ maxInputCount then sortOutputs selectedOuts
    else sortOutputs (trim random maxInputCount selectedOuts)

def pickRandomFusionInputs (codec : AddressCodec) (wallets : List WalletRecord)
    (random : FusionRandom) (addresses : List Text) (threshold : UInt64)
    (minInputCount maxInputCount : Nat) (height : UInt32) :
    Except Failure (List OutputToTransfer) := do
  let walletOuts ← pickSources codec wallets addresses
  return selectFusionInputs random minInputCount maxInputCount
    (fusionReadyOuts threshold height walletOuts)

def decomposeFusionOutputs (inputsAmount : UInt64) : List UInt64 :=
  sortAmounts (decomposeAmountIntoDigits inputsAmount 0)

/-! ### Buckets -/

/-- An amount of the table lies between the bounds of its power of ten and of no other. -/
theorem table_bounds : ∀ entry ∈ SendTransaction.prettyAmounts.zipIdx,
    (∀ bucket ∈ range 20, (lowerBound bucket ≤ entry.1 ∧ entry.1 < upperBound bucket) ↔
      entry.2 / 9 = bucket) ∧
    entry.2 / 9 < 20 ∧
    1 ≤ entry.1.toNat / 10 ^ (entry.2 / 9) ∧ entry.1.toNat / 10 ^ (entry.2 / 9) ≤ 9 ∧
    entry.1.toNat % 10 ^ (entry.2 / 9) = 0 := by
  decide +kernel

structure Applicable (threshold : UInt64) (height : UInt32) (amount : UInt64) (power : Nat) :
    Prop where
  below : amount < threshold
  noDust : defaultFusionDustThreshold height ≤ amount
  power_lt : power < 20
  bounds : ∀ bucket < 20, (lowerBound bucket ≤ amount ∧ amount < upperBound bucket) ↔ power = bucket
  digit : ∃ digit, 1 ≤ digit ∧ digit ≤ 9 ∧ amount.toNat = digit * 10 ^ power

variable {threshold : UInt64} {height : UInt32} {power : Nat}

theorem applicable_of_isAmountApplicable {amount : UInt64} (ran : isAmountApplicableInFusionTransactionInput amount threshold height
      = some power) : Applicable threshold height amount power := by
  unfold isAmountApplicableInFusionTransactionInput at ran
  split at ran
  · cases ran
  · rename_i below
    split at ran
    · cases ran
    · rename_i noDust
      dsimp only at ran
      split at ran
      · cases ran
      · rename_i isPretty
        cases ran
        have entry := mk_mem_zipIdx_iff_getElem?.mpr (Decidable.not_not.mp isPretty)
        obtain ⟨bounds, small, positive, single, zeros⟩ := table_bounds _ entry
        refine ⟨UInt64.not_le.mp below, UInt64.not_lt.mp noDust, small, ?_, _, positive, single, ?_⟩
        · intro bucket inside
          exact bounds bucket (mem_range.mpr inside)
        · exact (Nat.div_mul_cancel (Nat.dvd_of_mod_eq_zero zeros)).symm

def decimalBucket (ready : List (OutputToTransfer × Nat)) (power : Nat) : List OutputToTransfer :=
  (ready.map Prod.fst).filter fun output =>
    10 ^ power ≤ output.out.amount.toNat && output.out.amount.toNat < 10 ^ (power + 1)

def ReadyOuts (threshold : UInt64) (height : UInt32) (ready : List (OutputToTransfer × Nat)) :
    Prop :=
  ∀ entry ∈ ready, Applicable threshold height entry.1.out.amount entry.2

theorem readyOuts_fusionReadyOuts (threshold : UInt64) (height : UInt32)
    (walletOuts : List WalletRecord) :
    ReadyOuts threshold height (fusionReadyOuts threshold height walletOuts) := by
  intro entry member
  obtain ⟨wallet, _, inside⟩ := mem_flatMap.mp member
  obtain ⟨out, _, isEntry⟩ := mem_filterMap.mp inside
  obtain ⟨power, applicable, same⟩ := Option.map_eq_some_iff.mp isEntry
  rw [← same]
  exact applicable_of_isAmountApplicable applicable

theorem Applicable.decimal_iff {amount : UInt64}
    (applicable : Applicable threshold height amount power) (other : Nat) :
    (10 ^ other ≤ amount.toNat ∧ amount.toNat < 10 ^ (other + 1)) ↔ power = other := by
  obtain ⟨digit, positive, single, isAmount⟩ := applicable.digit
  have lower : 10 ^ power ≤ amount.toNat := by
    rw [isAmount]
    exact Nat.le_mul_of_pos_left _ positive
  have upper : amount.toNat < 10 ^ (power + 1) := by
    rw [isAmount, pow_succ, mul_comm]
    exact Nat.mul_lt_mul_of_pos_left (by omega) (Nat.pow_pos (by decide))
  constructor
  · intro ⟨otherLower, otherUpper⟩
    have first := (Nat.pow_lt_pow_iff_right (by decide)).mp (Nat.lt_of_le_of_lt lower otherUpper)
    have second := (Nat.pow_lt_pow_iff_right (by decide)).mp (Nat.lt_of_le_of_lt otherLower upper)
    omega
  · intro same
    rw [← same]
    exact ⟨lower, upper⟩

section Ready
variable {threshold : UInt64} {height : UInt32} {ready : List (OutputToTransfer × Nat)}

section
variable (isReady : ReadyOuts threshold height ready)
include isReady

theorem filter_inBounds {bucket : Nat}
    (inside : bucket < 20) :
    (ready.map Prod.fst).filter (inBounds bucket) = decimalBucket ready bucket := by
  refine filter_congr fun output member => ?_
  obtain ⟨entry, isEntry, same⟩ := mem_map.mp member
  have applicable := isReady entry isEntry
  rw [same] at applicable
  have both := (applicable.bounds bucket inside).trans (applicable.decimal_iff bucket).symm
  rw [inBounds, Bool.eq_iff_iff]
  simpa only [and_eq_true, decide_eq_true_eq] using both

theorem bucketSize_eq (bucket : Nat) :
    bucketSize ready bucket = (decimalBucket ready bucket).length := by
  rw [bucketSize, decimalBucket, filter_map, length_map, countP_eq_length_filter]
  refine congrArg length (filter_congr fun entry member => ?_)
  have decimal := (isReady entry member).decimal_iff bucket
  rw [Bool.eq_iff_iff]
  simpa only [Function.comp_apply, and_eq_true, decide_eq_true_eq] using decimal.symm

theorem decimalBucket_eq_nil
    (large : 20 ≤ power) : decimalBucket ready power = [] := by
  refine filter_eq_nil_iff.mpr fun output member inside => ?_
  obtain ⟨entry, isEntry, same⟩ := mem_map.mp member
  have applicable := isReady entry isEntry
  rw [same] at applicable
  rw [and_eq_true, decide_eq_true_eq, decide_eq_true_eq] at inside
  have isPower := (applicable.decimal_iff power).mp inside
  have small := applicable.power_lt
  omega

end
end Ready

/-! ### Random choices -/

theorem filterMap_range_getElem? {α : Type} (items : List α) :
    (range items.length).filterMap (fun position => items[position]?) = items := by
  induction items with
  | nil => rfl
  | cons item items ih =>
    rw [length_cons, range_succ_eq_map, filterMap_cons, filterMap_map]
    exact congrArg (cons item) ih

theorem trim_subperm (random : FusionRandom) {maxInputCount : Nat}
    {selectedOuts : List OutputToTransfer} (enough : maxInputCount ≤ selectedOuts.length) :
    (trim random maxInputCount selectedOuts).Subperm selectedOuts ∧
      (trim random maxInputCount selectedOuts).length = maxInputCount := by
  obtain ⟨values, drawn, length, left, perm⟩ := draw_subperm random.randomValue_le 0
    (show maxInputCount ≤ (start selectedOuts.length).count from enough)
  rw [remaining_start] at perm
  have outputs := perm.filterMap fun position => selectedOuts[position]?
  rw [filterMap_append, filterMap_range_getElem?] at outputs
  have isTrim : trim random maxInputCount selectedOuts
      = values.filterMap fun position => selectedOuts[position]? := by
    rw [trim, drawn]
    rfl
  rw [isTrim]
  refine ⟨((sublist_append_left _ _).subperm).trans outputs.subperm, ?_⟩
  have total := outputs.length_eq
  have whole := perm.length_eq
  rw [length_append] at total whole
  rw [length_range] at whole
  have few := length_filterMap_le (fun position => selectedOuts[position]?) values
  have others := length_filterMap_le (fun position => selectedOuts[position]?) left
  omega

theorem sortOutputs_perm (outputs : List OutputToTransfer) : (sortOutputs outputs).Perm outputs :=
  perm_insertionSort _ _

section Selection
variable {threshold : UInt64} {height : UInt32} {ready : List (OutputToTransfer × Nat)}
  {random : FusionRandom} {maxInputCount : Nat}

theorem selectFusionInputs_cases (isReady : ReadyOuts threshold height ready)
    (random : FusionRandom) (maxInputCount : Nat) :
    (selectFusionInputs random fusionTxMinInputCount maxInputCount ready = [] ∧
        ∀ power, (decimalBucket ready power).length < fusionTxMinInputCount) ∨
      ∃ power, fusionTxMinInputCount ≤ (decimalBucket ready power).length ∧
        (selectFusionInputs random fusionTxMinInputCount maxInputCount ready).Subperm
          (decimalBucket ready power) ∧
        (selectFusionInputs random fusionTxMinInputCount maxInputCount ready).length
          = min (decimalBucket ready power).length maxInputCount := by
  have buckets := random.shuffleBuckets_perm (range (digits10 + 1))
  unfold selectFusionInputs
  dsimp only
  split
  · rename_i notFound
    refine .inl ⟨rfl, fun power => ?_⟩
    by_cases small : power < 20
    · have few := find?_eq_none.mp notFound power (buckets.symm.subset (mem_range.mpr small))
      rw [decide_eq_true_eq, bucketSize_eq isReady] at few
      exact not_le.mp few
    · rw [decimalBucket_eq_nil isReady (not_lt.mp small)]
      decide
  · rename_i bucket found
    have inside : bucket < 20 :=
      mem_range.mp (buckets.subset (mem_of_find?_eq_some found))
    have full := find?_some found
    rw [decide_eq_true_eq, bucketSize_eq isReady] at full
    rw [filter_inBounds isReady inside]
    refine .inr ⟨bucket, full, ?_⟩
    split
    · rename_i all
      have perm := sortOutputs_perm (decimalBucket ready bucket)
      exact ⟨perm.subperm, by rw [perm.length_eq, min_eq_left all]⟩
    · rename_i many
      obtain ⟨part, length⟩ := trim_subperm random (le_of_lt (not_le.mp many))
      have perm := sortOutputs_perm (trim random maxInputCount (decimalBucket ready bucket))
      refine ⟨perm.subperm.trans part, ?_⟩
      rw [perm.length_eq, length, min_eq_right (le_of_lt (not_le.mp many))]

end Selection

/-- The sum of at least twelve single digits with the same number of zeros has at most a
fourth as many digits. -/
theorem four_inputs_per_output {amounts : List UInt64}
    (digits : ∀ amount ∈ amounts, ∃ digit, 1 ≤ digit ∧ digit ≤ 9 ∧ amount.toNat = digit * 10 ^ power)
    (count : fusionTxMinInputCount ≤ amounts.length)
    (fits : totalAmount amounts < 2 ^ 64) :
    (splitAmountIntoDenominations amounts.sum).length
      * fusionTxMinInOutCountRatio ≤ amounts.length := by
  have sum : ∃ total, total ≤ 9 * amounts.length ∧ totalAmount amounts = total * 10 ^ power := by
    clear count fits
    induction amounts with
    | nil => exact ⟨0, le_refl 0, by rw [zero_mul]; rfl⟩
    | cons amount amounts ih =>
      obtain ⟨isDigit, others⟩ := forall_mem_cons.mp digits
      obtain ⟨digit, _, single, isAmount⟩ := isDigit
      obtain ⟨total, bound, isTotal⟩ := ih others
      refine ⟨digit + total, ?_, ?_⟩
      · rw [length_cons]
        omega
      · rw [totalAmount_cons, isAmount, isTotal, add_mul]
  obtain ⟨total, bound, isTotal⟩ := sum
  have length : (splitAmountIntoDenominations amounts.sum).length
      = (Decimal.parts 20 1 (total * 10 ^ power)).length := by
    rw [← isTotal, ← toNat_sum_of_lt fits, ← map_toNat_splitAmount, length_map]
  unfold fusionTxMinInputCount at count
  unfold fusionTxMinInOutCountRatio
  by_cases few : amounts.length < 80
  · have small := Decimal.length_parts_mul_le 20 power 1 (show total < 10 ^ 3 by omega)
    omega
  · rw [isTotal] at fits
    have small := Decimal.length_parts_le 20 1
      (lt_trans fits (show 2 ^ 64 < 10 ^ 20 by decide))
    omega

/-! ### Inputs that the node takes -/

def amountsToTransfer (outputs : List OutputToTransfer) : List UInt64 :=
  outputs.map fun output => output.out.amount

structure FusionReady (threshold : UInt64) (height : UInt32)
    (ready : List (OutputToTransfer × Nat)) (chosen : List OutputToTransfer) : Prop where
  empty : chosen = [] → ∀ power, (decimalBucket ready power).length < fusionTxMinInputCount
  distinct : fusionTxMinInputCount ≤ chosen.length → (chosen.map OutputToTransfer.out).Nodup
  bucket : fusionTxMinInputCount ≤ chosen.length → ∃ power, ∀ output ∈ chosen,
    10 ^ power ≤ output.out.amount.toNat ∧ output.out.amount.toNat < 10 ^ (power + 1) ∧
      output.out.amount < threshold
  fusion : fusionTxMinInputCount ≤ chosen.length →
    totalAmount (amountsToTransfer chosen) < 2 ^ 64 → ∀ size ≤ fusionTxMaxSize,
      isFusionTransaction (amountsToTransfer chosen)
        (decomposeFusionOutputs (amountsToTransfer chosen).sum) size height = true

theorem decomposeFusionOutputs_eq (amount : UInt64) :
    decomposeFusionOutputs amount = splitAmountIntoDenominations amount := by
  rw [decomposeFusionOutputs, decomposeAmountIntoDigits_eq (zero_le _)]
  exact (sorted_splitAmount amount).insertionSort_eq

section FromBucket
variable {threshold : UInt64} {height : UInt32} {ready : List (OutputToTransfer × Nat)}
  {chosen : List OutputToTransfer} {power : Nat}

section
variable (isReady : ReadyOuts threshold height ready)
include isReady

theorem mem_decimalBucket {output : OutputToTransfer}
    (member : output ∈ decimalBucket ready power) :
    Applicable threshold height output.out.amount power := by
  obtain ⟨isOutput, inside⟩ := mem_filter.mp member
  obtain ⟨entry, isEntry, same⟩ := mem_map.mp isOutput
  have applicable := isReady entry isEntry
  rw [same] at applicable
  rw [and_eq_true, decide_eq_true_eq, decide_eq_true_eq] at inside
  rw [← (applicable.decimal_iff power).mp inside]
  exact applicable

theorem isFusion_of_bucket
    (part : chosen ⊆ decimalBucket ready power)
    (count : fusionTxMinInputCount ≤ chosen.length)
    (fits : totalAmount (amountsToTransfer chosen) < 2 ^ 64) {size : Nat}
    (small : size ≤ fusionTxMaxSize) :
    isFusionTransaction (amountsToTransfer chosen)
      (decomposeFusionOutputs (amountsToTransfer chosen).sum) size height = true := by
  have applicable : ∀ amount ∈ amountsToTransfer chosen,
      Applicable threshold height amount power := by
    intro amount member
    obtain ⟨output, isOutput, same⟩ := mem_map.mp member
    rw [← same]
    exact mem_decimalBucket isReady (part isOutput)
  have length : (amountsToTransfer chosen).length = chosen.length := length_map _
  rw [isFusionTransaction_eq_true, sortAmounts_decompose, decomposeFusionOutputs_eq]
  refine ⟨small, length ▸ count, ?_, fun amount member => (applicable amount member).noDust, rfl⟩
  exact four_inputs_per_output (fun amount member => (applicable amount member).digit)
    (length ▸ count) fits

theorem fusionReady_of_bucket
    (part : chosen.Subperm (decimalBucket ready power)) (some : 0 < chosen.length)
    (distinct : ((decimalBucket ready power).map OutputToTransfer.out).Nodup) :
    FusionReady threshold height ready chosen := by
  refine ⟨?_, ?_, ?_, ?_⟩
  · intro empty
    rw [empty] at some
    exact absurd some (lt_irrefl 0)
  · intro _
    obtain ⟨same, perm, sublist⟩ := part
    exact (perm.map _).nodup_iff.mp (distinct.sublist (sublist.map _))
  · intro _
    refine ⟨power, fun output member => ?_⟩
    have applicable := mem_decimalBucket isReady (part.subset member)
    obtain ⟨lower, upper⟩ := (applicable.decimal_iff power).mpr rfl
    exact ⟨lower, upper, applicable.below⟩
  · intro count fits size small
    exact isFusion_of_bucket isReady part.subset count fits small

end
end FromBucket

/-- Random choices that look at one bucket first and draw two of its positions first. -/
def choosing (power size first second : Nat) : FusionRandom :=
  { shuffleBuckets := fun buckets =>
      if power ∈ buckets then power :: buckets.erase power else buckets
    randomValue := drawPair size first second
    shuffleBuckets_perm := by
      intro buckets
      split
      · rename_i member
        exact (perm_cons_erase member).symm
      · exact .refl _
    randomValue_le := fun _ _ => Nat.min_le_right _ _ }

theorem selectFusionInputs_choosing {ready : List (OutputToTransfer × Nat)}
    (maxInputCount first second : Nat) (isReady : ReadyOuts threshold height ready)
    (full : fusionTxMinInputCount ≤ (decimalBucket ready power).length) :
    selectFusionInputs (choosing power (decimalBucket ready power).length first second)
        fusionTxMinInputCount maxInputCount ready
      = if (decimalBucket ready power).length ≤ maxInputCount then
          sortOutputs (decimalBucket ready power)
        else sortOutputs (trim (choosing power (decimalBucket ready power).length first second)
          maxInputCount (decimalBucket ready power)) := by
  have inside : power < 20 := by
    by_contra large
    rw [decimalBucket_eq_nil isReady (not_lt.mp large)] at full
    exact absurd full (by decide)
  have found : (find? (fun bucket =>
      decide (bucketSize ready bucket ≥ fusionTxMinInputCount))
      ((choosing power (decimalBucket ready power).length first second).shuffleBuckets
        (range (digits10 + 1)))) = some power := by
    change find? _ (if power ∈ range 20 then _ else _) = _
    rw [if_pos (mem_range.mpr inside)]
    refine find?_cons_of_pos ?_
    rw [decide_eq_true_eq, bucketSize_eq isReady]
    exact full
  unfold selectFusionInputs
  dsimp only
  rw [found]
  dsimp only
  rw [filter_inBounds isReady inside]

theorem nodup_of_ready {ready : List (OutputToTransfer × Nat)} {maxInputCount : Nat}
    (isReady : ReadyOuts threshold height ready)
    (limit : fusionTxMinInputCount ≤ maxInputCount)
    (always : ∀ random, FusionReady threshold height ready
      (selectFusionInputs random fusionTxMinInputCount maxInputCount ready)) (full : fusionTxMinInputCount ≤ (decimalBucket ready power).length) :
    ((decimalBucket ready power).map OutputToTransfer.out).Nodup := by
  generalize bucketIs : decimalBucket ready power = bucket at full
  by_cases all : bucket.length ≤ maxInputCount
  · have isReadyChoice := always (choosing power (decimalBucket ready power).length 0 0)
    rw [selectFusionInputs_choosing _ _ _ isReady (bucketIs ▸ full), bucketIs, if_pos all]
      at isReadyChoice
    have perm := sortOutputs_perm bucket
    exact (perm.map _).nodup_iff.mp (isReadyChoice.distinct (perm.length_eq ▸ full))
  · rw [List.Nodup, pairwise_map, pairwise_iff_getElem]
    intro first second firstInside secondInside ordered same
    have isReadyChoice := always (choosing power (decimalBucket ready power).length first second)
    rw [selectFusionInputs_choosing _ _ _ isReady (bucketIs ▸ full), bucketIs, if_neg all]
      at isReadyChoice
    have many := le_of_lt (not_le.mp all)
    have atLeastTwo : 2 ≤ maxInputCount := le_trans (by decide) limit
    obtain ⟨rest, drawn⟩ := exists_draw_pair ordered secondInside
      (show maxInputCount - 2 + 2 ≤ bucket.length by omega)
    rw [Nat.sub_add_cancel atLeastTwo] at drawn
    have trimmed : trim (choosing power bucket.length first second) maxInputCount bucket
        = bucket[first] :: bucket[second] :: rest.filterMap fun position => bucket[position]? := by
      unfold trim
      dsimp only [choosing]
      rw [drawn, Option.getD_some, filterMap_cons, filterMap_cons,
        getElem?_eq_getElem firstInside, getElem?_eq_getElem secondInside]
    have perm := sortOutputs_perm (trim (choosing power bucket.length first second) maxInputCount
      bucket)
    have count := (trim_subperm (choosing power bucket.length first second) many).2
    have distinct := (perm.map OutputToTransfer.out).nodup_iff.mp
      (isReadyChoice.distinct (by rw [perm.length_eq, count]; exact limit))
    rw [trimmed, map_cons, map_cons] at distinct
    exact (nodup_cons.mp distinct).1 (same ▸ mem_cons_self)

/-- Every choice of fusion inputs is taken by the node exactly if no full bucket holds an
output twice. -/
theorem pickRandomFusionInputs_ready_iff {codec : AddressCodec} {wallets : List WalletRecord}
    {addresses : List Text} {walletOuts : List WalletRecord} {threshold : UInt64}
    {maxInputCount : Nat} {height : UInt32}
    (picked : pickSources codec wallets addresses = .ok walletOuts)
    (limit : fusionTxMinInputCount ≤ maxInputCount) :
    (∀ random chosen, pickRandomFusionInputs codec wallets random addresses threshold
        fusionTxMinInputCount maxInputCount height = .ok chosen →
      FusionReady threshold height (fusionReadyOuts threshold height walletOuts) chosen) ↔
      ∀ power, fusionTxMinInputCount
          ≤ (decimalBucket (fusionReadyOuts threshold height walletOuts) power).length →
        ((decimalBucket (fusionReadyOuts threshold height walletOuts) power).map
          OutputToTransfer.out).Nodup := by
  have isReady := readyOuts_fusionReadyOuts threshold height walletOuts
  have ran : ∀ random, pickRandomFusionInputs codec wallets random addresses threshold
      fusionTxMinInputCount maxInputCount height
      = .ok (selectFusionInputs random fusionTxMinInputCount maxInputCount
        (fusionReadyOuts threshold height walletOuts)) := by
    intro random
    rw [pickRandomFusionInputs, picked]
    rfl
  constructor
  · intro always power full
    exact nodup_of_ready isReady limit (fun random => always random _ (ran random)) full
  · intro distinct random chosen isChosen
    rw [ran random] at isChosen
    cases isChosen
    rcases selectFusionInputs_cases isReady random maxInputCount with
      ⟨empty, few⟩ | ⟨power, full, part, length⟩
    · rw [empty]
      exact ⟨fun _ => few, fun count => absurd count (by decide),
        fun count => absurd count (by decide), fun count => absurd count (by decide)⟩
    · refine fusionReady_of_bucket isReady part ?_ (distinct power full)
      have positive : 0 < fusionTxMinInputCount := by decide
      omega

def fusionOutput (index : Nat) : TransactionOutputInformation :=
  { amount := 100, globalOutputIndex := UInt32.ofNat index, outputInTransaction := 0
    transactionHash := ⟨BitVec.ofNat 256 index⟩, transactionPublicKey := ⟨2⟩, outputKey := ⟨1⟩ }

def fusionWallet (count : Nat) : WalletRecord :=
  { spendPublicKey := ⟨1⟩, actualBalance := UInt64.ofNat (100 * count)
    unlockedOuts := (range count).map fusionOutput }

theorem ready_of_twelve_outputs :
    pickSources flatCodec [fusionWallet 12] [] = .ok [fusionWallet 12] ∧
      ∀ random chosen, pickRandomFusionInputs flatCodec [fusionWallet 12] random []
          1000 fusionTxMinInputCount 20 100 = .ok chosen →
        FusionReady 1000 100 (fusionReadyOuts 1000 100 [fusionWallet 12]) chosen := by
  have picked : pickSources flatCodec [fusionWallet 12] [] = .ok [fusionWallet 12] := rfl
  refine ⟨picked, (pickRandomFusionInputs_ready_iff picked (by decide)).mpr fun power _ => ?_⟩
  have all : (((fusionReadyOuts 1000 100 [fusionWallet 12]).map Prod.fst).map
      OutputToTransfer.out).Nodup := by decide +kernel
  exact all.sublist (filter_sublist.map _)

/-- Six outputs of an address that is named twice are chosen twice. -/
theorem fusion_outputs_repeated :
    ∃ chosen, pickRandomFusionInputs flatCodec [fusionWallet 6] (choosing 2 12 0 1)
        [standardAddress, standardAddress] 1000
        fusionTxMinInputCount 20 100 = .ok chosen ∧
      chosen.length = 12 ∧ ¬(chosen.map OutputToTransfer.out).Nodup := by
  refine ⟨_, rfl, by decide +kernel, by decide +kernel⟩

end WalletGreen
end Mevacoin
