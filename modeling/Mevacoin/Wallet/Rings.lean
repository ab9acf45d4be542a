/-
How a transfer hides its inputs. The wallet asks the daemon for decoys of each amount,
puts the real output among them and writes the indexes of every ring as differences.

The order that is meant to be increasing is the order of the reply: the loop that sorts
the decoys works on a copy.
-/

import Mathlib.Data.List.Sort
import Mevacoin.Lib.Checked
import Mevacoin.Lib.RunningSums
import Mevacoin.Wallet.Types

namespace Mevacoin.SendTransaction
open List WalletTypes Wallet UInt64 Nat Checked RunningSums

variable {mixin : UInt64} {outputs : List GlobalIndexKey} {source : TxInputAndOwner}
  {ring : ObscuredInput} {crypto : WalletCrypto} {privateViewKey : SecretKey}

/-- `getRandomOutsByAmounts`: the amounts and the number of decoys asked for. -/
abbrev GetRandomOuts := List UInt64 → UInt64 → Option (List RandomOuts)

def explanation : Text :=
  ascii ". Further explanation here: https://gist.github.com/zpalmtree/80b3e80463225bcfb8f8432043cb594c"

def notEnoughOutputs (amount : UInt64) (requested : UInt64) (found : Nat) : Failure :=
  .returned
    { code := .notEnoughFakeOutputs
      customMessage := ascii "Failed to get enough matching outputs for amount "
        ++ toText amount.toNat ++ ascii " (" ++ formatAmount amount
        ++ ascii "). Requested outputs: " ++ toText requested.toNat
        ++ ascii ", found outputs: " ++ toText found ++ explanation }

def noOutputs (amount : UInt64) : Failure :=
  .returned
    { code := .notEnoughFakeOutputs
      customMessage := ascii "Failed to get any matching outputs for amount "
        ++ toText amount.toNat ++ ascii " (" ++ formatAmount amount ++ ascii ")" ++ explanation }

/-- The first entry of the reply for the amount has to hold enough outputs. -/
def checkAmount (mixin : UInt64) (fakeOuts : List RandomOuts) (amount : UInt64) :
    Except Failure Unit := do
  let entry ← orError (noOutputs amount) (fakeOuts.find? fun output => output.amount == amount)
  rejectIf (entry.outs.length < mixin.toNat)
    (notEnoughOutputs amount (mixin + 1) entry.outs.length)

def checkEntry (mixin : UInt64) (fakeOut : RandomOuts) : Except Failure Unit :=
  rejectIf (fakeOut.outs.length < mixin.toNat)
    (notEnoughOutputs fakeOut.amount (mixin + 1) fakeOut.outs.length)

/-- The entries are returned in the order of the reply, and so are the outputs of
each: what the last loop sorts is its own copy of an entry. -/
def getRingParticipants (mixin : UInt64) (daemon : GetRandomOuts)
    (sources : List TxInputAndOwner) : Except Failure (List RandomOuts) :=
  if mixin = 0 then .ok []
  else do
    let amounts := sources.map fun source => source.input.amount
    let fakeOuts ← orError (.ofCode .daemonOffline) (daemon amounts (mixin + 1))
    amounts.forM (checkAmount mixin fakeOuts)
    rejectIf (fakeOuts.length ≠ amounts.length) (.ofCode .notEnoughFakeOutputs)
    fakeOuts.forM (checkEntry mixin)
    return fakeOuts

def GlobalIndexKey.ofEntry (entry : OutputEntry) : GlobalIndexKey :=
  { index := entry.globalAmountIndex.toUInt64, key := entry.outKey }

/-- The loop over the outputs of one entry: the real output is skipped, and the loop
ends when there are enough decoys. -/
def addFakeOutputs (mixin : UInt64) (real : UInt64) :
    List OutputEntry → List GlobalIndexKey → List GlobalIndexKey
  | [], outputs => outputs
  | fakeOut :: rest, outputs =>
    if real = fakeOut.globalAmountIndex.toUInt64 then addFakeOutputs mixin real rest outputs
    else
      let outputs := outputs ++ [GlobalIndexKey.ofEntry fakeOut]
      if outputs.length ≥ mixin.toNat then outputs else addFakeOutputs mixin real rest outputs

def obscure (mixin : UInt64) (walletAmount : TxInputAndOwner) (fakeOut : RandomOuts) :
    Except Failure ObscuredInput := do
  let real ← orError (.thrown (ascii "bad optional access"))
    walletAmount.input.globalOutputIndex
  let outputs := if mixin ≠ 0 then addFakeOutputs mixin real fakeOut.outs [] else []
  rejectIf (outputs.length < mixin.toNat)
    (notEnoughOutputs walletAmount.input.amount mixin outputs.length)
  let insertPosition := outputs.findIdx fun output => real ≤ output.index
  return {
    outputs := outputs.insertIdx insertPosition { index := real, key := walletAmount.input.key }
    realOutput := UInt64.ofNat insertPosition
    realTransactionPublicKey := walletAmount.input.transactionPublicKey
    realOutputTransactionIndex := walletAmount.input.transactionIndex
    amount := walletAmount.input.amount
    ownerPublicSpendKey := walletAmount.publicSpendKey
    ownerPrivateSpendKey := walletAmount.privateSpendKey }

/-- The order in which the rings are built. Inputs of one amount may come in any order
from the library's sort; every such order is that of another list of sources. -/
def sortByAmount (sources : List TxInputAndOwner) : List TxInputAndOwner :=
  sources.insertionSort fun left right => left.input.amount ≤ right.input.amount

def entryAt (fakeOuts : List RandomOuts) (position : Nat) : RandomOuts :=
  fakeOuts.getD position { amount := 0, outs := [] }

def prepareRingParticipants (sources : List TxInputAndOwner) (mixin : UInt64)
    (daemon : GetRandomOuts) : Except Failure (List ObscuredInput) := do
  let sources := sortByAmount sources
  let fakeOuts ← getRingParticipants mixin daemon sources
  sources.zipIdx.mapM fun (walletAmount, i) => obscure mixin walletAmount (entryAt fakeOuts i)

def absoluteOutputOffsetsToRelative (off : List UInt32) : List UInt32 :=
  differences off

def genKeyImage (crypto : WalletCrypto) (input : ObscuredInput) (privateViewKey : SecretKey) :
    KeyPair × KeyImage :=
  let derivation := crypto.generateKeyDerivation input.realTransactionPublicKey privateViewKey
  let tmpKeyPair : KeyPair :=
    { publicKey := crypto.derivePublicKey derivation input.realOutputTransactionIndex
        input.ownerPublicSpendKey
      secretKey := crypto.deriveSecretKey derivation input.realOutputTransactionIndex
        input.ownerPrivateSpendKey }
  (tmpKeyPair, crypto.generateKeyImage tmpKeyPair.publicKey tmpKeyPair.secretKey)

def setupInput (crypto : WalletCrypto) (privateViewKey : SecretKey) (input : ObscuredInput) :
    Except Failure (KeyInput × SecretKey) := do
  let (tmpKeyPair, keyImage) := genKeyImage crypto input privateViewKey
  rejectIf
    (input.outputs[input.realOutput.toNat]?.map (fun output => output.key)
      ≠ some tmpKeyPair.publicKey) (.ofCode .invalidGeneratedKeyimage)
  let outputIndexes := input.outputs.map fun output => output.index.toUInt32
  return ({ amount := input.amount
            keyImage := keyImage
            outputIndexes := absoluteOutputOffsetsToRelative outputIndexes }, tmpKeyPair.secretKey)

def setupInputs (crypto : WalletCrypto) (inputsAndFakes : List ObscuredInput)
    (privateViewKey : SecretKey) : Except Failure (List KeyInput × List SecretKey) := do
  let inputs ← inputsAndFakes.mapM (setupInput crypto privateViewKey)
  return (inputs.map Prod.fst, inputs.map Prod.snd)

def ReturnedFor (reply : List RandomOuts) (amount : UInt64) (member : GlobalIndexKey) : Prop :=
  ∃ entry ∈ reply, entry.amount = amount ∧ ∃ out ∈ entry.outs, member = GlobalIndexKey.ofEntry out

structure RingWellFormed (mixin : UInt64) (reply : List RandomOuts) (source : TxInputAndOwner)
    (ring : ObscuredInput) (input : KeyInput) : Prop where
  size : ring.outputs.length = mixin.toNat + 1
  increasing : ring.outputs.Pairwise fun left right => left.index < right.index
  real : ∃ index, source.input.globalOutputIndex = some index ∧
    ring.outputs[ring.realOutput.toNat]? = some { index := index, key := source.input.key }
  realOnce : ∀ position member, ring.outputs[position]? = some member →
    source.input.globalOutputIndex = some member.index → position = ring.realOutput.toNat
  others : ∀ member ∈ ring.outputs.eraseIdx ring.realOutput.toNat,
    ReturnedFor reply source.input.amount member
  decodes : sumsFrom 0 input.outputIndexes = ring.outputs.map fun output => output.index.toNat
  noWrap : ∀ sum ∈ sumsFrom 0 input.outputIndexes, sum < 2 ^ 32

def decoys (mixin : UInt64) (source : TxInputAndOwner) (fakeOut : RandomOuts) :
    List OutputEntry :=
  (fakeOut.outs.filter fun out =>
    source.input.globalOutputIndex ≠ some out.globalAmountIndex.toUInt64).take mixin.toNat

/-- What has to hold of the input and of the reply before the ring is built. -/
structure DecoysUsable (mixin : UInt64) (reply : List RandomOuts) (source : TxInputAndOwner)
    (position : Nat) : Prop where
  fits : ∀ index, source.input.globalOutputIndex = some index → index.toNat < 2 ^ 32
  increasing : (decoys mixin source (entryAt reply position)).Pairwise fun left right =>
    left.globalAmountIndex < right.globalAmountIndex
  sameAmount : ∀ out ∈ decoys mixin source (entryAt reply position),
    ∃ entry ∈ reply, entry.amount = source.input.amount ∧ out ∈ entry.outs

/-! ### One ring -/

theorem addFakeOutputs_eq {real : UInt64} {outs : List OutputEntry}
    (room : outputs.length < mixin.toNat) :
    addFakeOutputs mixin real outs outputs
      = outputs ++ ((outs.filter fun out => real ≠ out.globalAmountIndex.toUInt64).take
          (mixin.toNat - outputs.length)).map GlobalIndexKey.ofEntry := by
  induction outs generalizing outputs with
  | nil => simp [addFakeOutputs]
  | cons fakeOut rest ih =>
    rw [addFakeOutputs]
    by_cases isReal : real = fakeOut.globalAmountIndex.toUInt64
    · rw [if_pos isReal, ih room, filter_cons_of_neg (by simpa using isReal)]
    · rw [if_neg isReal, filter_cons_of_pos (by simpa using isReal)]
      obtain ⟨left, isLeft⟩ : ∃ left, mixin.toNat - outputs.length = left + 1 :=
        ⟨mixin.toNat - outputs.length - 1, by omega⟩
      have size : (outputs ++ [GlobalIndexKey.ofEntry fakeOut]).length = outputs.length + 1 := by
        simp
      rw [isLeft, take_succ_cons, map_cons]
      by_cases full : (outputs ++ [GlobalIndexKey.ofEntry fakeOut]).length ≥ mixin.toNat
      · have none : left = 0 := by omega
        rw [if_pos full, none, take_zero, map_nil]
      · rw [if_neg full, ih (by omega), size, append_assoc,
          show mixin.toNat - (outputs.length + 1) = left by omega]
        rfl

theorem obscure_eq_ok {fakeOut : RandomOuts} (ran : obscure mixin source fakeOut = .ok ring) :
    ∃ real members, source.input.globalOutputIndex = some real ∧
      members = (decoys mixin source fakeOut).map GlobalIndexKey.ofEntry ∧
      members.length = mixin.toNat ∧
      ring.outputs = members.insertIdx (members.findIdx fun output => real ≤ output.index)
        { index := real, key := source.input.key } ∧
      ring.realOutput.toNat = members.findIdx fun output => real ≤ output.index := by
  obtain ⟨real, isReal, rest⟩ := bind_eq_ok.mp ran
  have isReal := orError_eq_ok.mp isReal
  obtain ⟨enough, finished⟩ := rejectIf_bind_eq_ok.mp rest
  cases finished
  have chosen : (if mixin ≠ 0 then addFakeOutputs mixin real fakeOut.outs [] else [])
      = (decoys mixin source fakeOut).map GlobalIndexKey.ofEntry := by
    by_cases zero : mixin = 0
    · simp [zero, decoys]
    · have positive : ([] : List GlobalIndexKey).length < mixin.toNat := by
        have := mt UInt64.toNat_inj.mp zero
        simpa [pos_iff_ne_zero] using this
      rw [if_pos zero, addFakeOutputs_eq positive]
      simp [decoys, isReal]
  rw [chosen] at enough ⊢
  have size : ((decoys mixin source fakeOut).map GlobalIndexKey.ofEntry).length
      = mixin.toNat := by
    have atMost : (decoys mixin source fakeOut).length ≤ mixin.toNat :=
      length_take_le _ _
    rw [length_map] at enough ⊢
    omega
  refine ⟨real, _, isReal, rfl, size, rfl, ?_⟩
  have position : ((decoys mixin source fakeOut).map GlobalIndexKey.ofEntry).findIdx
      (fun output => real ≤ output.index) ≤ _ := findIdx_le_length
  rw [size] at position
  exact toNat_ofNat_of_lt' (lt_of_le_of_lt position mixin.toNat_lt)

theorem setupInput_eq_ok {secretKey : SecretKey} {input : KeyInput}
    (ran : setupInput crypto privateViewKey ring = .ok (input, secretKey)) :
    input.outputIndexes = differences (ring.outputs.map fun output => output.index.toUInt32) := by
  obtain ⟨_, finished⟩ := rejectIf_bind_eq_ok.mp ran
  cases finished
  rfl

theorem index_ne_of_mem_decoys {real : UInt64}
    {fakeOut : RandomOuts} (isReal : source.input.globalOutputIndex = some real)
    {out : OutputEntry} (chosen : out ∈ decoys mixin source fakeOut) :
    (GlobalIndexKey.ofEntry out).index ≠ real := by
  have kept := (mem_filter.mp (mem_of_mem_take chosen)).2
  rw [isReal] at kept
  intro same
  exact of_decide_eq_true kept (congrArg some same.symm)

theorem increasing_insertIdx {members : List GlobalIndexKey} {item : GlobalIndexKey}
    (increasing : members.Pairwise fun left right => left.index < right.index)
    (fresh : ∀ member ∈ members, member.index ≠ item.index) :
    (members.insertIdx (members.findIdx fun output => item.index ≤ output.index) item).Pairwise
      fun left right => left.index < right.index := by
  induction members with
  | nil => exact pairwise_singleton _ _
  | cons head tail ih =>
    obtain ⟨before, rest⟩ := pairwise_cons.mp increasing
    have apart := fresh head mem_cons_self
    rw [findIdx_cons]
    by_cases here : item.index ≤ head.index
    · rw [decide_eq_true here]
      have smaller : item.index < head.index := UInt64.lt_of_le_of_ne here apart.symm
      refine pairwise_cons.mpr ⟨?_, increasing⟩
      intro member isMember
      rcases mem_cons.mp isMember with isHead | inTail
      · rw [isHead]
        exact smaller
      · exact UInt64.lt_trans smaller (before member inTail)
    · rw [decide_eq_false here]
      have smaller : head.index < item.index := UInt64.not_le.mp here
      refine pairwise_cons.mpr
        ⟨?_, ih rest fun member inTail => fresh member (mem_cons_of_mem _ inTail)⟩
      intro member isMember
      rcases eq_or_mem_of_mem_insertIdx isMember with isItem | inTail
      · rw [isItem]
        exact smaller
      · exact before member inTail

/-- Increasing indexes below `2 ^ 32` survive the cast and the differences. -/
theorem sumsFrom_indexes (increasing : outputs.Pairwise fun left right => left.index < right.index)
    (fits : ∀ output ∈ outputs, output.index.toNat < 2 ^ 32) :
    sumsFrom 0
        (differences (outputs.map fun output => output.index.toUInt32))
      = outputs.map fun output => output.index.toNat := by
  have exact : ∀ output ∈ outputs, output.index.toUInt32.toNat = output.index.toNat := by
    intro output member
    rw [toNat_toUInt32, mod_eq_of_lt (fits output member)]
  have ordered : (outputs.map fun output => output.index.toUInt32).Pairwise (· ≤ ·) := by
    rw [pairwise_map]
    refine increasing.imp_of_mem ?_
    intro left right leftMember rightMember below
    rw [UInt32.le_iff_toNat_le, exact left leftMember, exact right rightMember]
    exact le_of_lt (lt_iff_toNat_lt.mp below)
  rw [sumsFrom_differences ordered, map_map]
  exact map_congr_left exact

theorem position_unique (increasing : outputs.Pairwise fun left right => left.index < right.index)
    {first second : Nat} {left right : GlobalIndexKey} (isLeft : outputs[first]? = some left)
    (isRight : outputs[second]? = some right) (same : left.index = right.index) :
    first = second := by
  obtain ⟨firstBound, isLeft⟩ := List.getElem?_eq_some_iff.mp isLeft
  obtain ⟨secondBound, isRight⟩ := List.getElem?_eq_some_iff.mp isRight
  have ordered := pairwise_iff_getElem.mp increasing
  rcases lt_trichotomy first second with below | equal | above
  · have := ordered first second firstBound secondBound below
    rw [isLeft, isRight, same] at this
    exact absurd this (UInt64.lt_irrefl _)
  · exact equal
  · have := ordered second first secondBound firstBound above
    rw [isLeft, isRight, same] at this
    exact absurd this (UInt64.lt_irrefl _)

theorem ofEntry_injective : Function.Injective GlobalIndexKey.ofEntry := by
  intro left right same
  cases left with
  | mk leftIndex leftKey =>
    cases right with
    | mk rightIndex rightKey =>
      obtain ⟨index, key⟩ := GlobalIndexKey.mk.inj same
      cases UInt32.toUInt64_inj.mp index
      cases key
      rfl

private theorem ring_wellFormed_iff {reply : List RandomOuts} {position : Nat}
    {secretKey : SecretKey} {input : KeyInput}
    (built : obscure mixin source (entryAt reply position) = .ok ring)
    (setUp : setupInput crypto privateViewKey ring = .ok (input, secretKey)) :
    RingWellFormed mixin reply source ring input ↔ DecoysUsable mixin reply source position := by
  obtain ⟨real, members, isReal, areMembers, size, outputs, realOutput⟩ := obscure_eq_ok built
  have indexes := setupInput_eq_ok setUp
  have inserted : ring.outputs[ring.realOutput.toNat]?
      = some { index := real, key := source.input.key } := by
    rw [outputs, realOutput]
    exact getElem?_insertIdx_self.trans (if_pos findIdx_le_length)
  have erased : ring.outputs.eraseIdx ring.realOutput.toNat = members := by
    rw [outputs, realOutput, eraseIdx_insertIdx_self]
  have ofDecoys : ∀ member, member ∈ members ↔
      ∃ out ∈ decoys mixin source (entryAt reply position),
        GlobalIndexKey.ofEntry out = member := by
    intro member
    rw [areMembers, mem_map]
  constructor
  · intro wellFormed
    refine ⟨?_, ?_, ?_⟩
    · intro index isIndex
      cases isReal.symm.trans isIndex
      refine wellFormed.noWrap _ ?_
      rw [wellFormed.decodes]
      exact mem_map_of_mem (mem_of_getElem? inserted)
    · have kept := wellFormed.increasing.sublist (eraseIdx_sublist ring.outputs
        ring.realOutput.toNat)
      rw [erased, areMembers, pairwise_map] at kept
      refine kept.imp ?_
      intro left right below
      exact below
    · intro out chosen
      obtain ⟨entry, isEntry, amount, other, isOther, same⟩ := wellFormed.others
        (GlobalIndexKey.ofEntry out) (by rw [erased, ofDecoys]; exact ⟨out, chosen, rfl⟩)
      exact ⟨entry, isEntry, amount, ofEntry_injective same ▸ isOther⟩
  · intro usable
    have increasing : ring.outputs.Pairwise fun left right => left.index < right.index := by
      rw [outputs]
      refine @increasing_insertIdx members ⟨real, source.input.key⟩ ?_ ?_
      · rw [areMembers, pairwise_map]
        exact usable.increasing.imp fun below => below
      · intro member isMember
        obtain ⟨out, chosen, same⟩ := (ofDecoys member).mp isMember
        exact same ▸ index_ne_of_mem_decoys isReal chosen
    have fits : ∀ output ∈ ring.outputs, output.index.toNat < 2 ^ 32 := by
      intro output isOutput
      rw [outputs] at isOutput
      rcases eq_or_mem_of_mem_insertIdx isOutput with isInserted | isMember
      · rw [isInserted]
        exact usable.fits real isReal
      · obtain ⟨out, _, same⟩ := (ofDecoys output).mp isMember
        rw [← same]
        exact out.globalAmountIndex.toNat_lt
    have decodes : sumsFrom 0 input.outputIndexes
        = ring.outputs.map fun output => output.index.toNat := by
      rw [indexes, sumsFrom_indexes increasing fits]
    refine ⟨?_, increasing, ⟨real, isReal, inserted⟩, ?_, ?_, decodes, ?_⟩
    · rw [outputs, length_insertIdx_of_le_length findIdx_le_length, size]
    · intro other member isOther isRealIndex
      exact position_unique increasing isOther inserted
        (Option.some.inj (isRealIndex.symm.trans isReal))
    · intro member isMember
      rw [erased] at isMember
      obtain ⟨out, chosen, same⟩ := (ofDecoys member).mp isMember
      obtain ⟨entry, isEntry, amount, isOut⟩ := usable.sameAmount out chosen
      exact ⟨entry, isEntry, amount, out, isOut, same.symm⟩
    · intro sum isSum
      rw [decodes] at isSum
      obtain ⟨output, isOutput, same⟩ := mem_map.mp isSum
      exact same ▸ fits output isOutput

/-! ### All rings of a transfer -/

def replyFor (daemon : GetRandomOuts) (sources : List TxInputAndOwner) (mixin : UInt64) :
    List RandomOuts :=
  (daemon ((sortByAmount sources).map fun source => source.input.amount) (mixin + 1)).getD []

theorem getRingParticipants_eq_ok {daemon : GetRandomOuts}
    {sources : List TxInputAndOwner} {fakeOuts : List RandomOuts}
    (ran : getRingParticipants mixin daemon (sortByAmount sources) = .ok fakeOuts) :
    mixin = 0 ∨ fakeOuts = replyFor daemon sources mixin := by
  unfold getRingParticipants at ran
  split at ran
  · exact .inl ‹_›
  · obtain ⟨reply, answered, rest⟩ := bind_eq_ok.mp ran
    obtain ⟨_, _, rest⟩ := bind_eq_ok.mp rest
    obtain ⟨_, rest⟩ := rejectIf_bind_eq_ok.mp rest
    obtain ⟨_, _, finished⟩ := bind_eq_ok.mp rest
    cases finished
    refine .inr ?_
    rw [replyFor, orError_eq_ok.mp answered, Option.getD_some]

theorem obscure_zero (source : TxInputAndOwner) (fakeOut other : RandomOuts) :
    obscure 0 source fakeOut = obscure 0 source other :=
  rfl

theorem length_sortByAmount (sources : List TxInputAndOwner) :
    (sortByAmount sources).length = sources.length :=
  length_insertionSort _ _

theorem prepareRingParticipants_eq_ok {sources : List TxInputAndOwner} {daemon : GetRandomOuts}
    {rings : List ObscuredInput} (ran : prepareRingParticipants sources mixin daemon = .ok rings) :
    rings.length = sources.length ∧
      ∀ position source ring, (sortByAmount sources)[position]? = some source →
        rings[position]? = some ring →
        obscure mixin source (entryAt (replyFor daemon sources mixin) position) = .ok ring := by
  obtain ⟨fakeOuts, asked, built⟩ := bind_eq_ok.mp ran
  have each := mapM_eq_ok_iff.mp built
  have size := each.length_eq
  rw [length_zipIdx, length_sortByAmount] at size
  refine ⟨size.symm, ?_⟩
  intro position source ring isSource isRing
  have paired : (sortByAmount sources).zipIdx[position]? = some (source, position) := by
    rw [getElem?_zipIdx, isSource, Option.map_some, zero_add]
  obtain ⟨bound, isPaired⟩ := List.getElem?_eq_some_iff.mp paired
  obtain ⟨ringBound, isRing⟩ := List.getElem?_eq_some_iff.mp isRing
  have round := each.get bound ringBound
  rw [get_eq_getElem, get_eq_getElem, isPaired, isRing] at round
  rcases getRingParticipants_eq_ok asked with none | same
  · subst none
    exact (obscure_zero _ _ _).trans round
  · exact same ▸ round

theorem setupInputs_eq_ok {rings : List ObscuredInput} {inputs : List KeyInput}
    {tmpSecretKeys : List SecretKey}
    (ran : setupInputs crypto rings privateViewKey = .ok (inputs, tmpSecretKeys)) :
    inputs.length = rings.length ∧
      ∀ (position : Nat) ring input, rings[position]? = some ring → inputs[position]? = some input →
        ∃ secretKey, setupInput crypto privateViewKey ring = .ok (input, secretKey) := by
  obtain ⟨results, setUp, finished⟩ := bind_eq_ok.mp ran
  cases finished
  have each := mapM_eq_ok_iff.mp setUp
  refine ⟨(length_map _).trans each.length_eq.symm, ?_⟩
  intro position ring input isRing isInput
  rw [getElem?_map, Option.map_eq_some_iff] at isInput
  obtain ⟨⟨_, secretKey⟩, isResult, rfl⟩ := isInput
  obtain ⟨ringBound, isRing⟩ := List.getElem?_eq_some_iff.mp isRing
  obtain ⟨resultBound, isResult⟩ := List.getElem?_eq_some_iff.mp isResult
  have round := each.get ringBound resultBound
  rw [get_eq_getElem, get_eq_getElem, isRing, isResult] at round
  exact ⟨secretKey, round⟩

/-- Whatever the daemon sends, the ring of an input is well formed exactly if the decoys
chosen for it arrive in increasing order and for its amount and its own index fits. -/
theorem rings_wellFormed_iff {crypto : WalletCrypto} {sources : List TxInputAndOwner}
    {mixin : UInt64} {daemon : GetRandomOuts} {privateViewKey : SecretKey}
    {rings : List ObscuredInput} {inputs : List KeyInput} {tmpSecretKeys : List SecretKey}
    (prepared : prepareRingParticipants sources mixin daemon = .ok rings)
    (setUp : setupInputs crypto rings privateViewKey = .ok (inputs, tmpSecretKeys)) :
    rings.length = sources.length ∧ inputs.length = sources.length ∧
      ∀ position source ring input, (sortByAmount sources)[position]? = some source →
        rings[position]? = some ring → inputs[position]? = some input →
        (RingWellFormed mixin (replyFor daemon sources mixin) source ring input ↔
          DecoysUsable mixin (replyFor daemon sources mixin) source position) := by
  obtain ⟨ringCount, built⟩ := prepareRingParticipants_eq_ok prepared
  obtain ⟨inputCount, made⟩ := setupInputs_eq_ok setUp
  refine ⟨ringCount, inputCount.trans ringCount, ?_⟩
  intro position source ring input isSource isRing isInput
  obtain ⟨secretKey, madeHere⟩ := made position ring input isRing isInput
  exact ring_wellFormed_iff (built position source ring isSource isRing) madeHere

/-! ### A reply out of order -/

/-- A curve on which every derived key is the key it is derived from. -/
def flatCrypto : WalletCrypto :=
  { generateKeyDerivation := fun _ _ => ⟨0⟩
    derivePublicKey := fun _ _ key => key
    deriveSecretKey := fun _ _ key => key
    underivePublicKey := fun _ _ key => key
    generateKeyImage := fun key _ => ⟨key.value⟩
    secretKeyToPublicKey := fun key => ⟨key.value⟩
    generateRingSignatures := fun _ _ keys _ _ => some (keys.map fun _ => ⟨0⟩)
    checkRingSignature := fun _ _ _ _ => true }

def fifthOutput : TxInputAndOwner :=
  { input :=
      { keyImage := ⟨1⟩, amount := 100, blockHeight := 1, transactionPublicKey := ⟨2⟩
        transactionIndex := 0, globalOutputIndex := some 5, key := ⟨1⟩, spendHeight := 0
        unlockTime := 0, parentTransactionHash := ⟨3⟩ }
    publicSpendKey := ⟨1⟩
    privateSpendKey := ⟨1⟩ }

/-- A daemon that answers every request with one entry for 100. -/
def answering (indexes : List UInt32) : GetRandomOuts := fun _ _ =>
  some [{ amount := 100, outs := indexes.map fun index => ⟨index, ⟨4⟩⟩ }]

def fifthRing (indexes : List UInt64) : ObscuredInput :=
  { outputs := { index := 5, key := ⟨1⟩ } :: indexes.map fun index => { index := index, key := ⟨4⟩ }
    realOutput := 0, realTransactionPublicKey := ⟨2⟩, realOutputTransactionIndex := 0
    amount := 100, ownerPublicSpendKey := ⟨1⟩, ownerPrivateSpendKey := ⟨1⟩ }

theorem rings_of_ordered_reply :
    prepareRingParticipants [fifthOutput] 2 (answering [7, 9]) = .ok [fifthRing [7, 9]] ∧
      setupInputs flatCrypto [fifthRing [7, 9]] ⟨1⟩ = .ok ([⟨100, [5, 2, 2], ⟨1⟩⟩], [⟨1⟩]) ∧
      RingWellFormed 2 (replyFor (answering [7, 9]) [fifthOutput] 2) fifthOutput
        (fifthRing [7, 9]) ⟨100, [5, 2, 2], ⟨1⟩⟩ := by
  have prepared : prepareRingParticipants [fifthOutput] 2 (answering [7, 9])
      = .ok [fifthRing [7, 9]] := by decide +kernel
  have setUp : setupInputs flatCrypto [fifthRing [7, 9]] ⟨1⟩
      = .ok ([⟨100, [5, 2, 2], ⟨1⟩⟩], [⟨1⟩]) := by decide +kernel
  refine ⟨prepared, setUp, ?_⟩
  refine ((rings_wellFormed_iff prepared setUp).2.2 0 fifthOutput _ _ rfl rfl rfl).mpr ⟨?_, ?_, ?_⟩
  · intro index isIndex
    cases isIndex
    decide
  · decide +kernel
  · decide +kernel

/-- A daemon that sends the decoys in the other order gets a ring whose last offset
wraps. -/
theorem ring_out_of_order :
    prepareRingParticipants [fifthOutput] 2 (answering [9, 7]) = .ok [fifthRing [9, 7]] ∧
      setupInputs flatCrypto [fifthRing [9, 7]] ⟨1⟩
        = .ok ([⟨100, [5, 4, 4294967294], ⟨1⟩⟩], [⟨1⟩]) ∧
      ¬RingWellFormed 2 (replyFor (answering [9, 7]) [fifthOutput] 2) fifthOutput
        (fifthRing [9, 7]) ⟨100, [5, 4, 4294967294], ⟨1⟩⟩ := by
  refine ⟨by decide +kernel, by decide +kernel, ?_⟩
  intro wellFormed
  exact absurd wellFormed.increasing (by decide)

end Mevacoin.SendTransaction
