/-
Where the first synchronisation starts. The container starts at the earliest height or
timestamp of its subwallets, heights and timestamps being compared through the time at
which a block of that height is expected.
-/

import Mevacoin.Wallet.SubWallets

namespace Mevacoin
open Parameters SubWallet

def Parameters.genesisBlockTimestamp : Nat := 1324214400

/-- The earliest time that no block in the future can have, with the clock as an argument. -/
def getCurrentTimestampAdjusted (time : UInt64) : UInt64 :=
  time - UInt64.ofNat (max (max blockFutureTimeLimit blockFutureTimeLimitV3) blockFutureTimeLimitV4)

def scanHeightToTimestamp (time scanHeight : UInt64) : UInt64 :=
  if scanHeight = 0 then 0
  else
    let secondsSinceLaunch := scanHeight * UInt64.ofNat difficultyTarget
    let timestamp := UInt64.ofNat genesisBlockTimestamp + secondsSinceLaunch
    if timestamp ≥ getCurrentTimestampAdjusted time then getCurrentTimestampAdjusted time
    else timestamp

namespace SubWallet

def convertSyncTimestampToHeight (timestamp height : UInt64) (subWallet : SubWallet) : SubWallet :=
  if subWallet.syncStartTimestamp ≠ 0 then
    { subWallet with syncStartTimestamp := timestamp, syncStartHeight := height }
  else subWallet

end SubWallet

namespace SubWallets

/-- The height and the timestamp to start from. A container without subwallets has no
smallest one, and looking at it is undefined. -/
def getMinInitialSyncStart (time : UInt64) (wallets : SubWallets) : Option (UInt64 × UInt64) := do
  let minTimestamp ← (wallets.subWallets.map syncStartTimestamp).min?
  let minHeight ← (wallets.subWallets.map syncStartHeight).min?
  if minHeight = 0 ∨ minTimestamp = 0 then some (minHeight, minTimestamp)
  else
    let timestampFromHeight := scanHeightToTimestamp time minHeight
    if timestampFromHeight < minTimestamp then some (minHeight, 0) else some (0, minTimestamp)

/-- The loop over the map binds copies of its entries, so what it converts is lost. -/
def convertSyncTimestampToHeight (timestamp height : UInt64) (wallets : SubWallets) : SubWallets :=
  wallets.subWallets.foldl
    (fun stored subWallet =>
      let _copy := subWallet.convertSyncTimestampToHeight timestamp height
      stored)
    wallets

theorem convertSyncTimestampToHeight_eq (timestamp height : UInt64) (wallets : SubWallets) :
    wallets.convertSyncTimestampToHeight timestamp height = wallets := by
  unfold convertSyncTimestampToHeight
  induction wallets.subWallets with
  | nil => rfl
  | cons _ _ ih => exact ih

/-- The start is not later than a subwallet asks for. A subwallet that asks for nothing is to
be scanned from the first block. -/
structure AtOrBefore (time : UInt64) (start : UInt64 × UInt64) (subWallet : SubWallet) :
    Prop where
  height : subWallet.syncStartHeight ≠ 0 → if start.1 ≠ 0 then start.1 ≤ subWallet.syncStartHeight
    else start.2 ≤ scanHeightToTimestamp time subWallet.syncStartHeight
  timestamp : subWallet.syncStartTimestamp ≠ 0 →
    if start.1 ≠ 0 then scanHeightToTimestamp time start.1 ≤ subWallet.syncStartTimestamp
    else start.2 ≤ subWallet.syncStartTimestamp
  genesis : subWallet.syncStartHeight = 0 → subWallet.syncStartTimestamp = 0 → start = (0, 0)

/-- At most one of the two numbers is set, no subwallet is skipped, and the start is set if
all subwallets set theirs. -/
structure GoodStart (time : UInt64) (wallets : SubWallets) (start : UInt64 × UInt64) : Prop where
  single : start.1 = 0 ∨ start.2 = 0
  early : ∀ subWallet ∈ wallets.subWallets, AtOrBefore time start subWallet
  set : (∀ subWallet ∈ wallets.subWallets,
      subWallet.syncStartHeight ≠ 0 ∨ subWallet.syncStartTimestamp ≠ 0) → start ≠ (0, 0)

/-- The subwallets that started at the timestamp start at the height, the others are as
before. -/
def Converted (timestamp height : UInt64) (before after : SubWallets) : Prop :=
  after.subWallets = before.subWallets.map fun subWallet =>
    if timestamp > 0 ∧ subWallet.syncStartTimestamp = timestamp then
      { subWallet with syncStartTimestamp := 0, syncStartHeight := height }
    else subWallet

/-! ### When the chosen start meets it -/

/-- What the smallest height and the smallest timestamp have to do with each subwallet. -/
structure StartsAgree (time : UInt64) (wallets : SubWallets) (minHeight minTimestamp : UInt64) :
    Prop where
  unmixed : minHeight = 0 → minTimestamp = 0 → ∃ subWallet ∈ wallets.subWallets,
    subWallet.syncStartHeight = 0 ∧ subWallet.syncStartTimestamp = 0
  byHeight : minHeight ≠ 0 → minTimestamp = 0 → ∀ subWallet ∈ wallets.subWallets,
    subWallet.syncStartTimestamp ≠ 0 →
      scanHeightToTimestamp time minHeight ≤ subWallet.syncStartTimestamp
  byTimestamp : minTimestamp ≠ 0 →
    minHeight = 0 ∨ minTimestamp ≤ scanHeightToTimestamp time minHeight →
      ∀ subWallet ∈ wallets.subWallets, subWallet.syncStartHeight ≠ 0 →
        minTimestamp ≤ scanHeightToTimestamp time subWallet.syncStartHeight

section Minima
variable {time : UInt64} {wallets : SubWallets} {minHeight minTimestamp : UInt64}

private theorem min_le {field : SubWallet → UInt64} {least : UInt64}
    (isLeast : (wallets.subWallets.map field).min? = some least) {subWallet : SubWallet}
    (member : subWallet ∈ wallets.subWallets) : least ≤ field subWallet :=
  (List.min?_eq_some_iff.mp isLeast).2 _ (List.mem_map_of_mem member)

private theorem ne_zero_of_le {least value : UInt64} (le : least ≤ value) (set : least ≠ 0) :
    value ≠ 0 := by
  intro zero
  rw [zero] at le
  exact set (UInt64.le_zero_iff.mp le)

theorem goodStart_genesis_iff : GoodStart time wallets (0, 0) ↔ ∃ subWallet ∈ wallets.subWallets,
    subWallet.syncStartHeight = 0 ∧ subWallet.syncStartTimestamp = 0 := by
  constructor
  · intro good
    by_contra none
    apply good.set _ rfl
    intro subWallet member
    by_cases height : subWallet.syncStartHeight = 0
    · right
      intro timestamp
      exact none ⟨subWallet, member, height, timestamp⟩
    · left
      exact height
  · rintro ⟨unset, isUnset, height, timestamp⟩
    refine ⟨.inl rfl, ?_, ?_⟩
    · intro subWallet member
      exact ⟨fun _ => UInt64.zero_le, fun _ => UInt64.zero_le, fun _ _ => rfl⟩
    · intro allSet
      rcases allSet unset isUnset with setHeight | setTimestamp
      · exact absurd height setHeight
      · exact absurd timestamp setTimestamp

theorem goodStart_height_iff
    (isMin : (wallets.subWallets.map syncStartHeight).min? = some minHeight)
    (set : minHeight ≠ 0) :
    GoodStart time wallets (minHeight, 0) ↔ ∀ subWallet ∈ wallets.subWallets,
      subWallet.syncStartTimestamp ≠ 0 →
        scanHeightToTimestamp time minHeight ≤ subWallet.syncStartTimestamp := by
  constructor
  · intro good subWallet member hasTimestamp
    have early := (good.early subWallet member).timestamp hasTimestamp
    rwa [if_pos set] at early
  · intro early
    refine ⟨.inr rfl, ?_, ?_⟩
    · intro subWallet member
      have le := min_le isMin member
      constructor
      · intro _
        rwa [if_pos set]
      · intro hasTimestamp
        rw [if_pos set]
        exact early subWallet member hasTimestamp
      · intro height
        exact absurd height (ne_zero_of_le le set)
    · intro _ zero
      exact set (congrArg Prod.fst zero)

theorem goodStart_timestamp_iff
    (isMin : (wallets.subWallets.map syncStartTimestamp).min? = some minTimestamp)
    (set : minTimestamp ≠ 0) :
    GoodStart time wallets (0, minTimestamp) ↔ ∀ subWallet ∈ wallets.subWallets,
      subWallet.syncStartHeight ≠ 0 →
        minTimestamp ≤ scanHeightToTimestamp time subWallet.syncStartHeight := by
  constructor
  · intro good subWallet member hasHeight
    exact (good.early subWallet member).height hasHeight
  · intro early
    refine ⟨.inl rfl, ?_, ?_⟩
    · intro subWallet member
      have le := min_le isMin member
      exact ⟨early subWallet member, fun _ => le,
        fun _ timestamp => absurd timestamp (ne_zero_of_le le set)⟩
    · intro _ zero
      exact set (congrArg Prod.snd zero)

def startOf (time minHeight minTimestamp : UInt64) : UInt64 × UInt64 :=
  if minHeight = 0 ∨ minTimestamp = 0 then (minHeight, minTimestamp)
  else if scanHeightToTimestamp time minHeight < minTimestamp then (minHeight, 0)
  else (0, minTimestamp)

theorem goodStart_iff
    (isHeight : (wallets.subWallets.map syncStartHeight).min? = some minHeight)
    (isTimestamp : (wallets.subWallets.map syncStartTimestamp).min? = some minTimestamp) :
    GoodStart time wallets (startOf time minHeight minTimestamp)
      ↔ StartsAgree time wallets minHeight minTimestamp := by
  unfold startOf
  by_cases height : minHeight = 0
  · rw [if_pos (.inl height)]
    subst height
    by_cases timestamp : minTimestamp = 0
    · subst timestamp
      rw [goodStart_genesis_iff]
      constructor
      · intro unset
        exact ⟨fun _ _ => unset, fun set => absurd rfl set, fun set => absurd rfl set⟩
      · intro agree
        exact agree.unmixed rfl rfl
    · rw [goodStart_timestamp_iff isTimestamp timestamp]
      constructor
      · intro early
        exact ⟨fun _ zero => absurd zero timestamp, fun set => absurd rfl set, fun _ _ => early⟩
      · intro agree
        exact agree.byTimestamp timestamp (.inl rfl)
  · by_cases timestamp : minTimestamp = 0
    · rw [if_pos (.inr timestamp)]
      subst timestamp
      rw [goodStart_height_iff isHeight height]
      constructor
      · intro early
        exact ⟨fun zero => absurd zero height, fun _ _ => early, fun set => absurd rfl set⟩
      · intro agree
        exact agree.byHeight height rfl
    · rw [if_neg (not_or.mpr ⟨height, timestamp⟩)]
      split
      · rename_i earlier
        rw [goodStart_height_iff isHeight height]
        constructor
        · intro _
          refine ⟨fun zero => absurd zero height, fun _ zero => absurd zero timestamp, ?_⟩
          rintro - (zero | later)
          · exact absurd zero height
          · exact absurd later (UInt64.not_le.mpr earlier)
        · intro _ subWallet member _
          exact UInt64.le_of_lt (UInt64.lt_of_lt_of_le earlier (min_le isTimestamp member))
      · rename_i later
        rw [goodStart_timestamp_iff isTimestamp timestamp]
        constructor
        · intro early
          exact ⟨fun zero => absurd zero height, fun _ zero => absurd zero timestamp,
            fun _ _ => early⟩
        · intro agree
          exact agree.byTimestamp timestamp (.inr (UInt64.not_lt.mp later))

theorem getMinInitialSyncStart_eq_some {start : UInt64 × UInt64} :
    wallets.getMinInitialSyncStart time = some start ↔ ∃ minHeight minTimestamp,
      (wallets.subWallets.map syncStartHeight).min? = some minHeight ∧
      (wallets.subWallets.map syncStartTimestamp).min? = some minTimestamp ∧
      start = startOf time minHeight minTimestamp := by
  have result : ∀ minHeight minTimestamp : UInt64,
      (if minHeight = 0 ∨ minTimestamp = 0 then some (minHeight, minTimestamp)
      else
        let timestampFromHeight := scanHeightToTimestamp time minHeight
        if timestampFromHeight < minTimestamp then some (minHeight, 0) else some (0, minTimestamp))
      = some (startOf time minHeight minTimestamp) := by
    intro minHeight minTimestamp
    unfold startOf
    split
    · rfl
    · exact (apply_ite some _ _ _).symm
  unfold getMinInitialSyncStart
  simp only [Option.bind_eq_bind, Option.bind_eq_some_iff, result, Option.some_inj]
  constructor
  · rintro ⟨minTimestamp, isTimestamp, minHeight, isHeight, same⟩
    exact ⟨minHeight, minTimestamp, isHeight, isTimestamp, same.symm⟩
  · rintro ⟨minHeight, minTimestamp, isHeight, isTimestamp, same⟩
    exact ⟨minTimestamp, isTimestamp, minHeight, isHeight, same.symm⟩

end Minima

theorem converted_iff {timestamp height : UInt64} {wallets : SubWallets} :
    Converted timestamp height wallets (wallets.convertSyncTimestampToHeight timestamp height) ↔
      ∀ subWallet ∈ wallets.subWallets,
        ¬(timestamp > 0 ∧ subWallet.syncStartTimestamp = timestamp) := by
  rw [convertSyncTimestampToHeight_eq]
  unfold Converted
  constructor
  · intro unchanged subWallet member ⟨positive, started⟩
    have same : ∀ subWallet ∈ wallets.subWallets, (if timestamp > 0 ∧
        subWallet.syncStartTimestamp = timestamp then
          { subWallet with syncStartTimestamp := 0, syncStartHeight := height }
        else subWallet) = subWallet := by
      apply List.map_inj_left.mp
      rw [List.map_id']
      exact unchanged.symm
    have kept := congrArg syncStartTimestamp (same subWallet member)
    rw [if_pos ⟨positive, started⟩, started] at kept
    rw [← kept] at positive
    exact absurd positive (UInt64.lt_irrefl 0)
  · intro none
    symm
    calc wallets.subWallets.map _ = wallets.subWallets.map id := by
          apply List.map_congr_left
          intro subWallet member
          exact if_neg (none subWallet member)
      _ = wallets.subWallets := List.map_id _

/-- The start is right exactly if the smallest height and timestamp agree with every
subwallet, and the conversion exactly if no subwallet started at the timestamp. -/
theorem sync_start_iff (time : UInt64) (wallets : SubWallets) (timestamp height : UInt64) :
    ((∃ start, wallets.getMinInitialSyncStart time = some start ∧ GoodStart time wallets start) ∧
      Converted timestamp height wallets
        (wallets.convertSyncTimestampToHeight timestamp height)) ↔
    (∃ minHeight minTimestamp, (wallets.subWallets.map syncStartHeight).min? = some minHeight ∧
      (wallets.subWallets.map syncStartTimestamp).min? = some minTimestamp ∧
      StartsAgree time wallets minHeight minTimestamp) ∧
    ∀ subWallet ∈ wallets.subWallets,
      ¬(timestamp > 0 ∧ subWallet.syncStartTimestamp = timestamp) := by
  rw [converted_iff]
  apply and_congr_left'
  constructor
  · rintro ⟨start, isStart, good⟩
    obtain ⟨minHeight, minTimestamp, isHeight, isTimestamp, rfl⟩ :=
      getMinInitialSyncStart_eq_some.mp isStart
    exact ⟨minHeight, minTimestamp, isHeight, isTimestamp,
      (goodStart_iff isHeight isTimestamp).mp good⟩
  · rintro ⟨minHeight, minTimestamp, isHeight, isTimestamp, agree⟩
    exact ⟨startOf time minHeight minTimestamp,
      getMinInitialSyncStart_eq_some.mpr ⟨minHeight, minTimestamp, isHeight, isTimestamp, rfl⟩,
      (goodStart_iff isHeight isTimestamp).mpr agree⟩

def mixedStarts : SubWallets :=
  { subWallets :=
      [{ publicSpendKey := ⟨1⟩, privateSpendKey := ⟨1⟩, syncStartTimestamp := 0
         syncStartHeight := 400000, address := [], isPrimaryAddress := true },
       { publicSpendKey := ⟨2⟩, privateSpendKey := ⟨2⟩, syncStartTimestamp := 1378214400
         syncStartHeight := 0, address := [], isPrimaryAddress := false }]
    transactions := []
    lockedTransactions := []
    privateViewKey := ⟨3⟩
    isViewWallet := false
    publicSpendKeys := [⟨1⟩, ⟨2⟩]
    transactionPrivateKeys := [] }

/-- The scan starts at the first block although both subwallets start later, and the
subwallet with the timestamp keeps it. -/
theorem mixed_starts_scan_everything :
    (∀ subWallet ∈ mixedStarts.subWallets,
      subWallet.syncStartHeight ≠ 0 ∨ subWallet.syncStartTimestamp ≠ 0) ∧
    mixedStarts.getMinInitialSyncStart 1700000000 = some (0, 0) ∧
    (mixedStarts.convertSyncTimestampToHeight 1378214400 300000).subWallets.map
        (fun subWallet => (subWallet.syncStartHeight, subWallet.syncStartTimestamp))
      = [(400000, 0), (0, 1378214400)] := by
  decide +kernel

end SubWallets
end Mevacoin
