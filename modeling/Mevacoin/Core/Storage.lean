/-
The persistent main chain storage. On a switch it is cut down to the start of the
new main leaf, whose blocks are appended. Whether it then holds the new main chain
depends on what lies below the leaf.
-/

import Mevacoin.Core.Chains

namespace Mevacoin
open List Checked Segment BlockEntry SegmentTree BlockchainCache.Totals
open SegmentTree (Line)

variable {middle : Core} {cache : DatabaseBlockchainCache}

theorem mapM_range'_getElem? {α β : Type} (f : α → β) (items : List α) (start count : Nat)
    (inside : start + count ≤ items.length) :
    (List.range' start count).mapM (fun index => (items[index]?).map f)
      = some (((items.drop start).take count).map f) := by
  induction count generalizing start with
  | zero => simp
  | succ count ih =>
    have here : start < items.length := by omega
    rw [range'_succ, mapM_cons, ih (start + 1) (by omega),
      getElem?_eq_getElem here, drop_eq_getElem_cons here, take_succ_cons]
    rfl

theorem Stacked.getBlockByIndex {segments : List Segment} {items : List BlockEntry}
    (stacked : Stacked segments items) (blockIndex : Nat) :
    Lineage.getBlockByIndex blockIndex segments = (items[blockIndex]?).map BlockEntry.rawBlock := by
  induction stacked with
  | database cache =>
    simp [Lineage.getBlockByIndex, DatabaseBlockchainCache.entries, Function.comp_def]
  | memory _ start ih =>
    unfold Lineage.getBlockByIndex
    split
    · rw [ih, getElem?_append_left (by omega)]
    · rw [getElem?_append_right (by omega), start]

namespace Core
variable {primitives : Primitives} {core result : Core} {ptr : SegmentPtr} {segment : Segment}
  {link : BlockEntry → BlockEntry → Prop}

theorem Sound.chain_length_le (sound : core.Sound primitives)
    (found : core.chainsStorage[ptr]? = some segment) :
    (core.chain ptr).length ≤ 2 ^ 32 := by
  obtain ⟨above, line⟩ := exists_line sound.toTreeSound found
  cases length : (core.chain ptr).length with
  | zero => omega
  | succ top =>
    have inside : top < (core.chain ptr).length := by omega
    have index := sound.blockIndex_eq line (getElem?_eq_getElem inside)
    have bound : ((core.chain ptr)[top]).blockIndex primitives < 2 ^ 32 := by
      unfold blockIndex
      cases primitives.blockFromBinaryArray _ with
      | none => simp
      | some block =>
        simp only [Option.map_some, Option.getD_some]
        unfold BlockTemplate.getBlockIndex
        split
        · rename_i blockIndex _
          exact blockIndex.toNat_lt
        · omega
    omega

theorem switchMainChainStorage_exact (sound : core.TreeSound link)
    (found : core.chainsStorage[ptr]? = some segment) {splitBlockIndex : Nat}
    (inside : splitBlockIndex ≤ (core.chain ptr).length)
    (short : core.mainChainStorage.length ≤ 2 ^ 32) (positive : 0 < splitBlockIndex)
    (bounded : splitBlockIndex < 2 ^ 32) :
    core.switchMainChainStorage splitBlockIndex ptr
      = if core.mainChainStorage.length < splitBlockIndex then .error .storageUnderflow
        else .ok { core with
          mainChainStorage := core.mainChainStorage.take splitBlockIndex
            ++ ((core.chain ptr).drop splitBlockIndex).map rawBlock } := by
  obtain ⟨above, items, line, -, stacked, length⟩ := sound.stacked found
  have isChain := chain_eq sound line
  have nonempty : 0 < segment.entries.length := sound.tree.items_length_pos (tree_found found)
  have top : segment.getTopBlockIndex + 1 = items.length := by
    unfold getTopBlockIndex getBlockCount
    omega
  have blocks : (List.range' splitBlockIndex
      (segment.getTopBlockIndex + 1 - splitBlockIndex)).mapM
        (fun index => Lineage.getBlockByIndex index (core.lineage ptr))
      = some ((items.drop splitBlockIndex).map rawBlock) := by
    rw [isChain] at inside
    simp only [stacked.getBlockByIndex]
    rw [mapM_range'_getElem? _ _ _ _ (by omega), top, take_of_length_le (by rw [length_drop])]
  unfold switchMainChainStorage
  simp only [found, isChain]
  by_cases under : core.mainChainStorage.length < splitBlockIndex
  · have pops : (core.mainChainStorage.length + 2 ^ 32 - splitBlockIndex) % 2 ^ 32
        = core.mainChainStorage.length + 2 ^ 32 - splitBlockIndex := Nat.mod_eq_of_lt (by omega)
    rw [if_pos under, pops]
    simp only [rejectIf]
    rw [if_pos (by omega)]
    rfl
  · have pops : (core.mainChainStorage.length + 2 ^ 32 - splitBlockIndex) % 2 ^ 32
        = core.mainChainStorage.length - splitBlockIndex := by omega
    rw [if_neg under, pops]
    simp only [rejectIf]
    rw [if_neg (by omega), Nat.sub_sub_self (by omega)]
    simp only [orError, bind, Except.bind, blocks]
    rfl

/-! ### What the storage should hold -/

def StorageMatches (core : Core) : Prop :=
  core.chains.head?.map (List.map BlockEntry.rawBlock) = some core.mainChainStorage

instance (core : Core) : Decidable core.StorageMatches :=
  inferInstanceAs (Decidable (_ = _))

theorem StorageMatches.of_head {main : List BlockEntry} {others : List (List BlockEntry)}
    (chains : core.chains = main :: others) :
    core.StorageMatches ↔ core.mainChainStorage = main.map BlockEntry.rawBlock := by
  unfold StorageMatches
  rw [chains, head?_cons, Option.map_some, Option.some.injEq, eq_comm]

/-- If the block makes an alternative leaf the main leaf, the blocks below that leaf's
segment are the first blocks of the main chain. -/
def SwitchKeepsMainChain (primitives : Primitives) (core : Core) (rawBlock : RawBlock) : Prop :=
  ∀ block ptr segment main difficulty, primitives.blockFromBinaryArray rawBlock.block = some block →
    core.findSegmentContainingBlock block.previousBlockHash = some ptr →
    core.chainsStorage[ptr]? = some segment →
    segment.getBlockIndex block.previousBlockHash = some segment.getTopBlockIndex →
    segment.children = [] → core.chainsLeaves.head? = some main → main ≠ ptr →
    Lineage.getDifficultyForNextBlock (core.lineage ptr) segment.getTopBlockIndex
      = some difficulty →
    chainWork (core.chain main) < chainWork (core.chain ptr) + difficulty →
    ((core.chain ptr).take segment.getStartBlockIndex).map BlockEntry.rawBlock
      <+: (core.chain main).map BlockEntry.rawBlock

instance (primitives : Primitives) (core : Core) (rawBlock : RawBlock) :
    Decidable (core.SwitchKeepsMainChain primitives rawBlock) :=
  decidable_of_iff (∀ block ∈ primitives.blockFromBinaryArray rawBlock.block,
      ∀ ptr ∈ core.findSegmentContainingBlock block.previousBlockHash,
      ∀ segment ∈ core.chainsStorage[ptr]?,
      segment.getBlockIndex block.previousBlockHash = some segment.getTopBlockIndex →
      segment.children = [] → ∀ main ∈ core.chainsLeaves.head?, main ≠ ptr →
      (Lineage.getDifficultyForNextBlock (core.lineage ptr) segment.getTopBlockIndex).all
        fun difficulty => chainWork (core.chain main) < chainWork (core.chain ptr) + difficulty →
          ((core.chain ptr).take segment.getStartBlockIndex).map BlockEntry.rawBlock
            <+: (core.chain main).map BlockEntry.rawBlock) (by
    simp only [Option.all_eq_true, decide_eq_true_eq]
    exact ⟨fun keeps block ptr segment main difficulty parsed located found isTop childless isMain
        notMain isDifficulty => keeps block parsed ptr located segment found isTop childless main
          isMain notMain difficulty isDifficulty,
      fun keeps block parsed ptr located segment found isTop childless main isMain notMain
        difficulty => keeps block ptr segment main difficulty parsed located found isTop childless
          isMain notMain⟩)

theorem start_pos_of_alternative (sound : core.TreeSound link)
    (found : core.chainsStorage[ptr]? = some segment) (childless : segment.children = [])
    {main : SegmentPtr} {mainSegment : Segment}
    (mainFound : core.chainsStorage[main]? = some mainSegment) (notMain : main ≠ ptr) :
    0 < segment.getStartBlockIndex := by
  by_cases atRoot : ptr = 0
  · subst atRoot
    obtain ⟨above, line⟩ := exists_line sound mainFound
    exact absurd childless (line.root_branched sound.tree notMain (tree_found found))
  · obtain ⟨q, parent, -, parentFound, start, -⟩ := sound.tree.attached (tree_found found) atRoot
    have positive := sound.tree.items_length_pos parentFound
    have same : segment.getStartBlockIndex = parent.startIndex + parent.items.length := start
    omega

section Switch
variable {accepted : AcceptedBlock} {below : BlockEntry} {grown : Segment}
  {mainPtr : SegmentPtr}

theorem switch_storage (sound : core.Sound primitives) (isMatch : core.StorageMatches)
    (found : core.chainsStorage[ptr]? = some segment) (childless : segment.children = [])
    (parent : ParentEntry primitives segment accepted below)
    (onTop : segment.getTopBlockIndex = accepted.previousBlockIndex)
    (pushed : segment.pushBlock primitives (core.lineage ptr).tail accepted.pushed = some grown)
    (isMain : core.chainsLeaves.head? = some mainPtr) (notMain : mainPtr ≠ ptr)
    (isMiddle : middle = updateMainChainSet
      { core with
        chainsStorage := core.chainsStorage.set ptr grown
        chainsLeaves :=
          (core.chainsLeaves.set 0 ptr).set (core.chainsLeaves.idxOf ptr) mainPtr }) :
    middle.switchMainChainStorage grown.getStartBlockIndex ptr
      = if core.mainChainStorage.length < segment.getStartBlockIndex then
          .error .storageUnderflow
        else .ok { middle with
          mainChainStorage := core.mainChainStorage.take segment.getStartBlockIndex
            ++ ((core.chain ptr ++ [accepted.pushed.entry primitives
              (ofInfo below.info)]).drop
                segment.getStartBlockIndex).map rawBlock } := by
  have treeSound := sound.toTreeSound
  have middleSound : middle.TreeSound (Recorded primitives) := by
    rw [isMiddle]
    exact (sound.switch found childless parent onTop pushed isMain notMain
      core.mainChainStorage).toTreeSound
  have tree : middle.tree = extend core.tree ptr segment.toNode
      (accepted.pushed.entry primitives (ofInfo below.info)) := by
    rw [isMiddle]
    exact pushed_tree ptr (parent.isLast onTop) pushed
  have isGrown := (chains_of_push treeSound middleSound found childless tree).1
  have grownFound : middle.chainsStorage[ptr]? = some grown := by
    rw [isMiddle]
    exact set_found found grown
  obtain ⟨-, -, start, -⟩ := Segment.pushBlock_eq_some (parent.isLast onTop) pushed
  obtain ⟨mainSegment, mainFound, -⟩ := leaf_found treeSound (mem_of_head? isMain)
  have positive := start_pos_of_alternative treeSound found childless mainFound notMain
  have length := chain_length treeSound found
  have bounded := sound.chain_length_le found
  have nonempty : 0 < segment.entries.length := sound.tree.items_length_pos (tree_found found)
  have short : core.mainChainStorage.length ≤ 2 ^ 32 := by
    obtain ⟨tail, leaves⟩ := head?_eq_some_iff.mp isMain
    rw [(StorageMatches.of_head (chains_eq core leaves)).mp isMatch, length_map]
    exact sound.chain_length_le mainFound
  have sameStorage : middle.mainChainStorage = core.mainChainStorage := by
    rw [isMiddle]
    rfl
  rw [start, switchMainChainStorage_exact middleSound grownFound
    (by rw [isGrown, length_append]; omega) (by rw [sameStorage]; exact short) positive
    (by omega), isGrown, sameStorage]

end Switch

/-! ### When the storage holds the main chain after a call -/

theorem splice_eq_iff {α : Type} {old new : List α} {start : Nat} (inNew : start ≤ new.length) :
    old.take start ++ new.drop start = new ↔ new.take start <+: old := by
  have lengths : (new.take start).length = start := by
    rw [length_take]
    omega
  rw [prefix_iff_eq_take, lengths]
  constructor
  · intro same
    have whole := same.trans (take_append_drop start new).symm
    exact (append_cancel_right whole).symm
  · intro same
    rw [← same, take_append_drop]

theorem chainWork_append (chain : List BlockEntry) (entry : BlockEntry) :
    chainWork (chain ++ [entry]) = entry.info.cumulativeDifficulty := by
  simp [chainWork]

variable {environment : Environment} {now : UInt64} {rawBlock : RawBlock}
  {accepted : AcceptedBlock} {data : AcceptanceData} {below : BlockEntry} {code : ErrorCode}

theorem chainWork_of_onTop (sound : core.TreeSound link)
    (found : core.chainsStorage[ptr]? = some segment)
    (parent : ParentEntry primitives segment accepted below)
    (onTop : segment.getTopBlockIndex = accepted.previousBlockIndex) :
    chainWork (core.chain ptr ++ [accepted.pushed.entry primitives
        (ofInfo below.info)])
      = chainWork (core.chain ptr) + accepted.pushed.blockDifficulty := by
  rw [chainWork_append, chainWork_eq sound found]
  unfold getCurrentCumulativeDifficulty
  rw [parent.isLast onTop]
  rfl

theorem Extension.switchKeeps_iff
    (extension : Extension environment now core rawBlock ptr segment accepted data below) :
    core.SwitchKeepsMainChain environment.primitives rawBlock ↔
      (segment.getTopBlockIndex = accepted.previousBlockIndex → segment.children = [] →
        ∀ main, core.chainsLeaves.head? = some main → main ≠ ptr →
        chainWork (core.chain main) < chainWork (core.chain ptr) + accepted.pushed.blockDifficulty →
        ((core.chain ptr).take segment.getStartBlockIndex).map BlockEntry.rawBlock
          <+: (core.chain main).map BlockEntry.rawBlock) := by
  have position := position_of_acceptance extension.found extension.acceptance
  have difficulty := extension.acceptance.difficulty
  constructor
  · intro keeps onTop childless main isMain notMain heavier
    rw [← onTop] at position difficulty
    exact keeps _ _ _ _ _ extension.parsed extension.located extension.found position childless
      isMain notMain difficulty heavier
  · intro keeps block ptr' segment' main difficulty' parsed located found isTop childless isMain
      notMain isDifficulty heavier
    rw [extension.parsed] at parsed
    cases parsed
    rw [extension.located] at located
    cases located
    rw [extension.found] at found
    cases found
    rw [position] at isTop
    have onTop := (Option.some.inj isTop).symm
    rw [onTop, difficulty] at isDifficulty
    cases isDifficulty
    exact keeps onTop childless main isMain notMain heavier

theorem BranchedSplit.frame (sound : core.TreeSound link)
    (root : BranchedSplit primitives core middle result ptr cache accepted below) :
    ptr ∉ core.chainsLeaves ∧
      result.chainsLeaves = core.chainsLeaves ++ [middle.chainsStorage.length] ∧
      result.mainChainStorage = core.mainChainStorage := by
  have notLeaf : ptr ∉ core.chainsLeaves := by
    intro isLeaf
    obtain ⟨same, sameFound, childless⟩ := leaf_found sound isLeaf
    rw [root.found] at sameFound
    cases sameFound
    exact root.branched childless
  obtain ⟨lower, isSplit⟩ := splitSegment_root root.found root.split
  obtain ⟨grown, rfl, -⟩ := forkSegment_withFork isSplit.found root.forked
  refine ⟨notLeaf, ?_, isSplit.storage⟩
  change middle.chainsLeaves ++ _ = _
  rw [isSplit.leaves, idxOf_eq_length notLeaf, set_eq_of_length_le (Nat.le_refl _)]

theorem chain_of_replaced_root (sound : core.TreeSound link) {main : SegmentPtr}
    (isLeaf : main ∈ core.chainsLeaves) (notRoot : main ≠ 0) {lower : DatabaseBlockchainCache}
    (found : core.chainsStorage[0]? = some (.database cache))
    (lowerFound : result.chainsStorage[0]? = some (.database lower))
    (others : ∀ other, 0 ≠ other → other < core.chainsStorage.length →
      result.chainsStorage[other]? = core.chainsStorage[other]?) :
    ∃ rest, core.chain main = cache.entries ++ rest ∧
      result.chain main = lower.entries ++ rest := by
  obtain ⟨segment, mainFound, -⟩ := leaf_found sound isLeaf
  obtain ⟨above, line⟩ := exists_line sound mainFound
  obtain ⟨front, rfl, absent⟩ := line.ends_at_root sound.tree
  have isPath : core.ancestry main = front ++ [0] := by
    rw [ancestry_eq, line.path_eq sound.tree]
  have known : ∀ q ∈ front ++ [0], q < core.chainsStorage.length := by
    intro q member
    obtain ⟨node, nodeFound⟩ := line.mem_found member
    rw [← tree_length]
    exact lt_length_of_found nodeFound
  have sameParents : ∀ q ∈ front ++ [0], result.getParent q = core.getParent q := by
    intro q member
    unfold getParent
    by_cases atRoot : q = 0
    · rw [atRoot, found, lowerFound]
      rfl
    · rw [others q (Ne.symm atRoot) (known q member)]
  have sameMain : result.chainsStorage[main]? = core.chainsStorage[main]? :=
    others main (Ne.symm notRoot) (index_lt mainFound)
  have samePath : result.ancestry main = front ++ [0] := by
    rw [← isPath]
    unfold ancestry
    rw [sameMain]
    refine walk_congr fun q member => sameParents q ?_
    rw [← isPath]
    exact member
  have sameFront : front.filterMap (fun q => result.chainsStorage[q]?)
      = front.filterMap fun q => core.chainsStorage[q]? := by
    apply filterMap_congr
    intro q inFront
    exact others q (fun same => absent (same ▸ inFront))
      (known q (mem_append_left _ inFront))
  refine ⟨(front.filterMap fun q => core.chainsStorage[q]?).reverse.flatMap entries,
    ?_, ?_⟩
  · unfold chain lineage
    rw [isPath, filterMap_append]
    simp [found, entries]
  · unfold chain lineage
    rw [samePath, filterMap_append, sameFront]
    simp [lowerFound, entries]

theorem BranchedSplit.not_storageMatches (sound : core.Sound primitives)
    (isMatch : core.StorageMatches)
    (root : BranchedSplit primitives core middle result ptr cache accepted below) :
    ¬result.StorageMatches := by
  intro again
  obtain ⟨atRoot, -⟩ := sound.tree.root_of_no_parent (tree_found root.found) rfl
  subst atRoot
  obtain ⟨notLeaf, leaves, storage⟩ := root.frame sound.toTreeSound
  obtain ⟨⟨lower, lowerFound, entries⟩, others⟩ := root.lookup
  obtain ⟨main, isMain, -⟩ := sound.mainChain
  have isLeaf := mem_of_head? isMain
  obtain ⟨rest, before, after⟩ := chain_of_replaced_root sound.toTreeSound isLeaf
    (fun same => notLeaf (same ▸ isLeaf)) root.found lowerFound others
  obtain ⟨tail, leavesBefore⟩ := head?_eq_some_iff.mp isMain
  rw [leavesBefore, cons_append] at leaves
  have stored := (StorageMatches.of_head (chains_eq core leavesBefore)).mp isMatch
  have stored' := (StorageMatches.of_head (chains_eq result leaves)).mp again
  have lengths := congrArg List.length ((storage.symm.trans stored').symm.trans stored)
  rw [before, after, length_map, length_map, length_append, length_append,
    entries, length_take] at lengths
  have position := root.position
  omega

theorem grown_work (sound : core.TreeSound link) (found : core.chainsStorage[ptr]? = some segment)
    (parent : ParentEntry primitives segment accepted below)
    (onTop : segment.getTopBlockIndex = accepted.previousBlockIndex) {grown : Segment}
    {parents : List Segment}
    (pushed : segment.pushBlock primitives parents accepted.pushed = some grown) :
    grown.getCurrentCumulativeDifficulty
      = chainWork (core.chain ptr) + accepted.pushed.blockDifficulty := by
  rw [← chainWork_of_onTop sound found parent onTop, chainWork_append]
  obtain ⟨entries, -⟩ := Segment.pushBlock_eq_some (parent.isLast onTop) pushed
  unfold getCurrentCumulativeDifficulty
  rw [entries, getLast?_concat]

theorem ChainStep.storageMatches {ancestors : List BlockEntry} {entry : BlockEntry}
    (step : ChainStep core result ancestors entry code)
    (notSwitched : code ≠ .addBlock .addedToAlternativeAndSwitched)
    (isMatch : core.StorageMatches) : result.StorageMatches := by
  cases step with
  | main before after storage =>
    rw [StorageMatches.of_head before] at isMatch
    rw [StorageMatches.of_head after, storage, isMatch, map_append]
    rfl
  | alternative before after _ storage =>
    rw [StorageMatches.of_head before] at isMatch
    rw [StorageMatches.of_head after, storage, isMatch]
  | switched => exact absurd rfl notSwitched
  | branched member _ _ after storage =>
    unfold StorageMatches at isMatch ⊢
    rw [after, storage, head?_append_of_ne_nil _ (ne_nil_of_mem member)]
    exact isMatch

/-- The storage holds the main chain after an accepted block exactly if the parent's
segment can be split and a switch keeps what lies below the new main leaf. -/
theorem Placement.storageMatches_iff (sound : core.Sound environment.primitives)
    (isMatch : core.StorageMatches)
    (extension : Extension environment now core rawBlock ptr segment accepted data below)
    (placement : Placement environment.primitives core ptr segment accepted code result) :
    result.StorageMatches ↔ core.ParentSplitsCleanly environment.primitives rawBlock ∧
      core.SwitchKeepsMainChain environment.primitives rawBlock := by
  rw [extension.splitsCleanly_iff, extension.switchKeeps_iff]
  have found := extension.found
  have parent := extension.parent
  have treeSound := sound.toTreeSound
  by_cases clean : segment.getTopBlockIndex ≠ accepted.previousBlockIndex → segment.SplitsCleanly
  · have step := placement.chainStep sound extension clean
    rw [and_iff_right clean]
    cases placement with
    | main onTop childless isMain pushed =>
      refine iff_of_true (step.storageMatches (by simp) isMatch) ?_
      intro _ _ main isMain' notMain
      rw [isMain] at isMain'
      exact absurd (Option.some.inj isMain').symm notMain
    | alternative onTop childless isMain notMain mainFound pushed notHeavier =>
      refine iff_of_true (step.storageMatches (by simp) isMatch) ?_
      intro _ _ main isMain' _ heavier
      rw [isMain] at isMain'
      cases isMain'
      rw [chainWork_eq treeSound mainFound,
        ← grown_work treeSound found parent onTop pushed] at heavier
      exact absurd heavier (UInt64.not_lt.mpr notHeavier)
    | switched onTop childless isMain notMain mainFound pushed heavier isMiddle switched =>
      rw [switch_storage sound isMatch found childless parent onTop pushed isMain notMain
        isMiddle] at switched
      split at switched
      · cases switched
      · cases switched
        rw [ancestors_of_onTop treeSound found onTop] at step
        cases step with
        | switched before after _ =>
          obtain ⟨tail, leaves⟩ := head?_eq_some_iff.mp isMain
          have stored := (StorageMatches.of_head (chains_eq core leaves)).mp isMatch
          have length := chain_length treeSound found
          rw [StorageMatches.of_head after, map_drop,
            splice_eq_iff (by rw [length_map, length_append]; omega), stored,
            ← map_take, take_append_of_le_length (by omega)]
          constructor
          · intro isPrefix _ _ main isMain' _ _
            rw [isMain] at isMain'
            cases isMain'
            exact isPrefix
          · intro keeps
            refine keeps onTop childless _ isMain notMain ?_
            rw [chainWork_eq treeSound mainFound, ← grown_work treeSound found parent onTop pushed]
            exact heavier
    | forked onTop branched forked =>
      refine iff_of_true (step.storageMatches (by simp) isMatch) ?_
      intro _ childless
      exact absurd childless branched
    | split inside split forked =>
      refine iff_of_true (step.storageMatches (by simp) isMatch) ?_
      intro onTop
      exact absurd onTop inside
  · refine iff_of_false ?_ fun both => clean both.1
    obtain ⟨-, cache, middle, rfl, root⟩ := placement.branchedSplit found parent clean
    exact root.not_storageMatches sound isMatch

/-! ### Popping from the empty storage -/

theorem addBlock_ne_underflow (sound : core.Sound environment.primitives)
    (isMatch : core.StorageMatches) (now : UInt64)
    (keeps : core.SwitchKeepsMainChain environment.primitives rawBlock) :
    core.addBlock environment now rawBlock ≠ .error .storageUnderflow := by
  intro ran
  rcases addBlock_cases sound now rawBlock with unchanged | failed | placed
  · obtain ⟨code, same, -⟩ := unchanged
    rw [ran] at same
    cases same
  · rw [ran] at failed
    cases failed
  · obtain ⟨ptr, segment, accepted, data, below, extension, same⟩ := placed
    have found := extension.found
    have treeSound := sound.toTreeSound
    have placed : Placed environment.primitives core ptr segment accepted _ :=
      placeBlock_placed found sound.leaves_nonempty
    rw [← same, ran] at placed
    obtain ⟨onTop, childless, mainPtr, mainSegment, grown, isMain, notMain, mainFound, pushed,
      heavier, failed⟩ := placed rfl
    rw [grown_work treeSound found extension.parent onTop pushed,
      ← chainWork_eq treeSound mainFound] at heavier
    have isPrefix := extension.switchKeeps_iff.mp keeps onTop childless mainPtr isMain notMain
      heavier
    rw [switch_storage sound isMatch found childless extension.parent onTop pushed isMain notMain
      rfl] at failed
    split at failed
    · obtain ⟨tail, leaves⟩ := head?_eq_some_iff.mp isMain
      have stored := (StorageMatches.of_head (chains_eq core leaves)).mp isMatch
      have length := chain_length treeSound found
      have shorter := isPrefix.length_le
      rw [← stored, length_map, length_take] at shorter
      omega
    · cases failed

/-- The storage holds the main chain along every run whose blocks neither split a
branched root nor switch to a leaf with foreign blocks below it; an accepted block
that does one of these leaves a storage that does not. -/
theorem reaches_storageMatches {start : Core} (sound : start.Sound environment.primitives)
    (isMatch : start.StorageMatches)
    (run : Reaches environment (fun core rawBlock =>
      core.ParentSplitsCleanly environment.primitives rawBlock ∧
        core.SwitchKeepsMainChain environment.primitives rawBlock) start core) :
    core.StorageMatches ∧
      (∀ now rawBlock, core.SwitchKeepsMainChain environment.primitives rawBlock →
        core.addBlock environment now rawBlock ≠ .error .storageUnderflow) ∧
      ∀ now rawBlock code result,
        core.addBlock environment now rawBlock = .ok (code, result) → code.accepted = true →
        (result.StorageMatches ↔
          core.ParentSplitsCleanly environment.primitives rawBlock ∧
            core.SwitchKeepsMainChain environment.primitives rawBlock) := by
  have both : core.Sound environment.primitives ∧ core.StorageMatches := by
    induction run with
    | refl => exact ⟨sound, isMatch⟩
    | tail _ step ih =>
      obtain ⟨now, rawBlock, code, permitted, ran⟩ := step
      refine ⟨ih.1.addBlock permitted.1 ran, ?_⟩
      rcases addBlock_eq_ok ih.1 ran with unchanged | placed
      · rw [unchanged.2]
        exact ih.2
      · obtain ⟨ptr, segment, accepted, data, below, extension, placement⟩ := placed
        exact (placement.storageMatches_iff ih.1 ih.2 extension).mpr permitted
  obtain ⟨here, matchHere⟩ := both
  refine ⟨matchHere, fun now rawBlock => addBlock_ne_underflow here matchHere now, ?_⟩
  intro now rawBlock code result ran isAccepted
  rcases addBlock_eq_ok here ran with unchanged | placed
  · rw [unchanged.1] at isAccepted
    cases isAccepted
  · obtain ⟨ptr, segment, accepted, data, below, extension, placement⟩ := placed
    exact placement.storageMatches_iff here matchHere extension

/-- Blocks 1 and 2 form the main chain. Blocks 3 and 4 compete with them, block 5
competes with block 4, block 6 extends block 5 and block 7 extends block 4. -/
def switchEnvironment : Environment :=
  { primitives := tablePrimitives
      [coinbaseBlock 0 255 0 1, coinbaseBlock 1 0 1 37252902, coinbaseBlock 2 1 2 37252902,
        coinbaseBlock 3 0 1 37252902, coinbaseBlock 4 3 2 37252902,
        coinbaseBlock 5 3 2 37252902, coinbaseBlock 6 5 3 37252902,
        coinbaseBlock 7 4 3 37252902] []
    checkpoints := { points := [] } }

def switchGenesis : GenesisBlock switchEnvironment.primitives :=
  { block := coinbaseBlock 0 255 0 1
    binaryArray := [0]
    parsed := rfl
    coinbase := inputs_firstBlock }

theorem reaches_storageMatches_direct_switch :
    (afterAll switchEnvironment (initRootSegment switchGenesis) [1, 2, 3, 4, 7]).chainsLeaves
        ≠ (afterAll switchEnvironment (initRootSegment switchGenesis) [1, 2, 3, 4]).chainsLeaves ∧
      (afterAll switchEnvironment (initRootSegment switchGenesis) [1, 2, 3, 4, 7]).StorageMatches :=
  ⟨by decide +kernel, (reaches_storageMatches (initRootSegment_sound switchGenesis)
    (by decide +kernel) (reaches_afterAll (by decide +kernel))).1⟩

/-- Block 6 makes the segment of blocks 5 and 6 the main leaf. Block 3 below it is never
written to the storage, which keeps block 1 in its place. -/
theorem indirect_switch_not_storageMatches :
    (initRootSegment switchGenesis).StorageMatches ∧
      Reaches switchEnvironment
        (fun core rawBlock => core.ParentSplitsCleanly switchEnvironment.primitives rawBlock)
        (initRootSegment switchGenesis)
        (afterAll switchEnvironment (initRootSegment switchGenesis) [1, 2, 3, 4, 5]) ∧
      (afterAll switchEnvironment (initRootSegment switchGenesis) [1, 2, 3, 4, 5]).addBlock
          switchEnvironment 0 (codedBlock 6)
        = .ok (.addBlock .addedToAlternativeAndSwitched,
          afterAll switchEnvironment (initRootSegment switchGenesis) [1, 2, 3, 4, 5, 6]) ∧
      ¬(afterAll switchEnvironment (initRootSegment switchGenesis)
        [1, 2, 3, 4, 5, 6]).StorageMatches :=
  ⟨by decide +kernel, reaches_afterAll (by decide +kernel),
    addBlock_eq_after (by decide +kernel), by decide +kernel⟩

end Core
end Mevacoin
