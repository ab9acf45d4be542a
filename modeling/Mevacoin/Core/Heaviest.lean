/-
The main leaf carries the most work. Only one way of placing a block compares work;
for the others it follows from the difficulty of a block being a function of its
ancestors: a block that starts a branch weighs as much as the block it competes with.
-/

import Mevacoin.Cache.Windows
import Mevacoin.Core.Storage

namespace Mevacoin
open List Nat Segment BlockchainCache

variable {entry : BlockEntry} {difficulty : UInt64} {ancestors : List BlockEntry}

/-! ### Work along a chain -/

def Weighted (chain : List BlockEntry) : Prop :=
  ∀ (index : Nat) (below above : BlockEntry), chain[index]? = some below →
    chain[index + 1]? = some above →
    ∃ difficulty, nextDifficulty (chain.take (index + 1)) = some difficulty ∧
      above.info.cumulativeDifficulty.toNat
        = below.info.cumulativeDifficulty.toNat + difficulty.toNat

instance (chain : List BlockEntry) : Decidable (Weighted chain) :=
  decidable_of_iff (∀ index < chain.length, ∀ below ∈ chain[index]?,
      ∀ above ∈ chain[index + 1]?, (nextDifficulty (chain.take (index + 1))).any fun difficulty =>
        above.info.cumulativeDifficulty.toNat
          = below.info.cumulativeDifficulty.toNat + difficulty.toNat) (by
    simp only [Option.any_eq_true, decide_eq_true_eq]
    exact ⟨fun weighted index below above isBelow isAbove => weighted index
        (index_lt isBelow) below isBelow above isAbove,
      fun weighted index _ below isBelow above isAbove =>
        weighted index below above isBelow isAbove⟩)

namespace Weighted
variable {chain : List BlockEntry}

theorem mono (weighted : Weighted chain) {index : Nat} (found : chain[index]? = some entry)
    (steps : Nat) {later : BlockEntry} (laterFound : chain[index + steps]? = some later) :
    entry.info.cumulativeDifficulty ≤ later.info.cumulativeDifficulty := by
  induction steps generalizing later with
  | zero =>
    rw [add_zero, found] at laterFound
    cases laterFound
    exact UInt64.le_refl _
  | succ steps ih =>
    have inside := index_lt laterFound
    have previous := getElem?_eq_getElem (lt_of_succ_lt inside)
    obtain ⟨difficulty, -, sum⟩ := weighted (index + steps) _ later previous laterFound
    have lower := UInt64.le_iff_toNat_le.mp (ih previous)
    rw [UInt64.le_iff_toNat_le]
    omega

theorem le_chainWork (weighted : Weighted chain) {index : Nat}
    (found : chain[index]? = some entry) :
    entry.info.cumulativeDifficulty ≤ chainWork chain := by
  have inside := index_lt found
  have last : chain[index + (chain.length - 1 - index)]? = chain.getLast? := by
    rw [getLast?_eq_getElem?]
    congr 1
    omega
  cases isLast : chain.getLast? with
  | none =>
    rw [getLast?_eq_none_iff] at isLast
    rw [isLast] at inside
    cases inside
  | some later =>
    have reached := weighted.mono found _ (last.trans isLast)
    simpa [chainWork, isLast] using reached

theorem of_shorter {shorter : List BlockEntry} (weighted : Weighted chain)
    (isPrefix : shorter <+: chain) : Weighted shorter := by
  obtain ⟨rest, rfl⟩ := isPrefix
  intro index below above isBelow isAbove
  have inside := index_lt isAbove
  have kept := weighted index below above
    (by rw [getElem?_append_left (by omega)]; exact isBelow)
    (by rw [getElem?_append_left inside]; exact isAbove)
  rwa [take_append_of_le_length (by omega)] at kept

theorem append {below : BlockEntry} (weighted : Weighted chain)
    (isLast : chain.getLast? = some below) (isNext : nextDifficulty chain = some difficulty)
    (sum : entry.info.cumulativeDifficulty.toNat
      = below.info.cumulativeDifficulty.toNat + difficulty.toNat) :
    Weighted (chain ++ [entry]) := by
  intro index first second isFirst isSecond
  by_cases inside : index + 1 < chain.length
  · rw [getElem?_append_left (by omega)] at isFirst
    rw [getElem?_append_left inside] at isSecond
    rw [take_append_of_le_length (by omega)]
    exact weighted index first second isFirst isSecond
  · have bound := index_lt isSecond
    rw [length_append, length_singleton] at bound
    have atEnd : index + 1 = chain.length := by omega
    rw [getElem?_append_right (by omega), atEnd, Nat.sub_self] at isSecond
    cases isSecond
    rw [getElem?_append_left (by omega)] at isFirst
    rw [getLast?_eq_getElem?, ← atEnd, Nat.add_sub_cancel, isFirst] at isLast
    cases isLast
    rw [atEnd, take_left]
    exact ⟨difficulty, isNext, sum⟩

end Weighted

namespace Core
variable {environment : Environment} {now : UInt64} {core result : Core} {rawBlock : RawBlock}
  {code : ErrorCode} {ptr : SegmentPtr} {segment : Segment} {accepted : AcceptedBlock}
  {data : AcceptanceData} {below : BlockEntry} {link : BlockEntry → BlockEntry → Prop}
  {primitives : Primitives}

/-! ### Work of the leaves -/

def leafWork (core : Core) (ptr : SegmentPtr) : UInt64 :=
  ((core.chainsStorage[ptr]?).map Segment.getCurrentCumulativeDifficulty).getD 0

def works (core : Core) : List UInt64 := core.chainsLeaves.map core.leafWork

def Heaviest (core : Core) : Prop :=
  ∀ main ∈ core.works.head?, ∀ work ∈ core.works, work ≤ main

instance (core : Core) : Decidable core.Heaviest :=
  decidable_of_iff (core.works.head?.all fun main => core.works.all (· ≤ main)) (by
    simp only [Option.all_eq_true, List.all_eq_true, decide_eq_true_eq]
    rfl)

def DifficultiesRecorded (core : Core) : Prop := ∀ chain ∈ core.chains, Weighted chain

def WorkInRange (primitives : Primitives) (core : Core) (rawBlock : RawBlock) : Prop :=
  ∀ block ptr segment index entry difficulty,
    primitives.blockFromBinaryArray rawBlock.block = some block →
    core.findSegmentContainingBlock block.previousBlockHash = some ptr →
    core.chainsStorage[ptr]? = some segment →
    segment.getBlockIndex block.previousBlockHash = some index →
    segment.entries[index - segment.getStartBlockIndex]? = some entry →
    Lineage.getDifficultyForNextBlock (core.lineage ptr) index = some difficulty →
    entry.info.cumulativeDifficulty.toNat + difficulty.toNat < 2 ^ 64

instance (core : Core) : Decidable core.DifficultiesRecorded :=
  inferInstanceAs (Decidable (∀ chain ∈ core.chains, _))

instance (primitives : Primitives) (core : Core) (rawBlock : RawBlock) :
    Decidable (core.WorkInRange primitives rawBlock) :=
  decidable_of_iff (∀ block ∈ primitives.blockFromBinaryArray rawBlock.block,
      ∀ ptr ∈ core.findSegmentContainingBlock block.previousBlockHash,
      ∀ segment ∈ core.chainsStorage[ptr]?,
      ∀ index ∈ segment.getBlockIndex block.previousBlockHash,
      ∀ entry ∈ segment.entries[index - segment.getStartBlockIndex]?,
      (Lineage.getDifficultyForNextBlock (core.lineage ptr) index).all fun difficulty =>
        entry.info.cumulativeDifficulty.toNat + difficulty.toNat < 2 ^ 64) (by
    simp only [Option.all_eq_true, decide_eq_true_eq]
    exact ⟨fun inRange block ptr segment index entry difficulty parsed located found isIndex
        isEntry => inRange block parsed ptr located segment found index isIndex entry isEntry
          difficulty,
      fun inRange block parsed ptr located segment found index isIndex entry isEntry difficulty =>
        inRange block ptr segment index entry difficulty parsed located found isIndex isEntry⟩)

theorem works_eq (sound : core.TreeSound link) : core.works = core.chains.map chainWork := by
  unfold works chains
  rw [map_map]
  apply map_congr_left
  intro leaf isLeaf
  obtain ⟨segment, found, -⟩ := leaf_found sound isLeaf
  rw [Function.comp_apply, chainWork_eq sound found]
  unfold leafWork
  rw [found]
  rfl

theorem Sound.unitsCached (sound : core.Sound primitives) (ptr : SegmentPtr) :
    UnitsCached (core.lineage ptr) := by
  intro cache member
  obtain ⟨other, -, found⟩ := mem_filterMap.mp member
  obtain ⟨atRoot, -⟩ := sound.tree.root_of_no_parent (tree_found found) rfl
  subst atRoot
  refine ⟨(sound.rooted cache found).units, ?_⟩
  have nonempty := sound.tree.nonempty (tree_found found)
  rw [DatabaseBlockchainCache.infos_eq]
  intro empty
  exact nonempty (map_eq_nil_iff.mp empty)

/-! ### The block and its ancestors -/

theorem ancestors_getLast? (sound : core.TreeSound link)
    (found : core.chainsStorage[ptr]? = some segment)
    (parent : ParentEntry primitives segment accepted below) :
    (core.ancestors ptr accepted).length = accepted.previousBlockIndex + 1 ∧
      (core.ancestors ptr accepted).getLast? = some below := by
  obtain ⟨above, line⟩ := exists_line sound found
  have entry := chain_getElem? line sound found
    (accepted.previousBlockIndex - segment.getStartBlockIndex)
  rw [Nat.add_sub_cancel' parent.above, parent.entry] at entry
  have inside := index_lt entry
  have length : (core.ancestors ptr accepted).length = accepted.previousBlockIndex + 1 := by
    rw [ancestors, length_take]
    omega
  refine ⟨length, ?_⟩
  rw [getLast?_eq_getElem?, length, Nat.add_sub_cancel, ancestors,
    getElem?_take_of_lt (lt_succ_self _), entry]

theorem Extension.nextDifficulty_eq (sound : core.Sound environment.primitives)
    (extension : Extension environment now core rawBlock ptr segment accepted data below) :
    nextDifficulty (core.ancestors ptr accepted) = some accepted.pushed.blockDifficulty := by
  obtain ⟨above, items, line, -, stacked, -⟩ := sound.toTreeSound.stacked extension.found
  have length := (ancestors_getLast? sound.toTreeSound extension.found extension.parent).1
  have isChain := chain_eq sound.toTreeSound line
  rw [ancestors, isChain, length_take] at length
  rw [ancestors, isChain, ← stacked.getDifficultyForNextBlock (sound.unitsCached ptr) (by omega)]
  exact extension.acceptance.difficulty

theorem Extension.work_lt
    (extension : Extension environment now core rawBlock ptr segment accepted data below)
    (inRange : core.WorkInRange environment.primitives rawBlock) :
    below.info.cumulativeDifficulty.toNat + accepted.pushed.blockDifficulty.toNat < 2 ^ 64 := by
  have position := position_of_acceptance extension.found extension.acceptance
  exact inRange _ _ _ _ _ _ extension.parsed extension.located extension.found position
    extension.parent.entry extension.acceptance.difficulty

theorem work_le_competitor (recorded : core.DifficultiesRecorded) {chain : List BlockEntry}
    (isLast : ancestors.getLast? = some below) (isNext : nextDifficulty ancestors = some difficulty)
    (member : chain ∈ core.chains) (isPrefix : ancestors <+: chain)
    (shorter : ancestors.length < chain.length) :
    below.info.cumulativeDifficulty + difficulty ≤ chainWork chain := by
  have weighted := recorded chain member
  have nonempty : 0 < ancestors.length := by
    refine length_pos_iff.mpr fun empty => ?_
    rw [empty] at isLast
    cases isLast
  have isTake := prefix_iff_eq_take.mp isPrefix
  have isBelow : chain[ancestors.length - 1]? = some below := by
    rw [getLast?_eq_getElem?] at isLast
    obtain ⟨rest, rfl⟩ := isPrefix
    rw [getElem?_append_left (by omega)]
    exact isLast
  have competitor := getElem?_eq_getElem shorter
  obtain ⟨difficulty', isNext', sum⟩ := weighted (ancestors.length - 1) below _ isBelow
    (by rw [Nat.sub_add_cancel nonempty]; exact competitor)
  rw [Nat.sub_add_cancel nonempty, ← isTake, isNext] at isNext'
  cases isNext'
  have same : below.info.cumulativeDifficulty + difficulty
      = chain[ancestors.length].info.cumulativeDifficulty := by
    rw [← UInt64.toNat_inj, UInt64.toNat_add, sum]
    have bound := chain[ancestors.length].info.cumulativeDifficulty.toNat_lt
    rw [sum] at bound
    exact (mod_eq_of_lt bound)
  rw [same]
  exact weighted.le_chainWork competitor

/-! ### A split of a branched root -/

theorem forkSegment_work (found : core.chainsStorage[ptr]? = some segment)
    (parent : ParentEntry primitives segment accepted below)
    (ran : core.forkSegment primitives ptr accepted = some result) :
    result.leafWork core.chainsStorage.length
      = below.info.cumulativeDifficulty + accepted.pushed.blockDifficulty := by
  obtain ⟨grown, rfl, pushed⟩ := forkSegment_withFork found ran
  rw [createSegment_tail, SegmentTree.walk, filterMap_cons, createSegment_self found] at pushed
  obtain ⟨totals, hasTotals, blocks, -⟩ := BlockchainCache.pushBlock_eq_some pushed
  have work : (segment.addChild core.chainsStorage.length).getCurrentCumulativeDifficultyAt
      accepted.previousBlockIndex = some below.info.cumulativeDifficulty := by
    unfold getCurrentCumulativeDifficultyAt
    rw [addChild_getStartBlockIndex, addChild_entries, if_neg (not_lt.mpr parent.above), parent.entry]
    rfl
  have isWork : totals.cumulativeDifficulty = below.info.cumulativeDifficulty := by
    simp only [previousTotals, create, getLast?_nil,
      parent.index, Nat.add_sub_cancel, work] at hasTotals
    obtain ⟨_, same, hasTotals⟩ := Option.bind_eq_some_iff.mp hasTotals
    cases same
    obtain ⟨_, -, hasTotals⟩ := Option.bind_eq_some_iff.mp hasTotals
    obtain ⟨_, -, hasTotals⟩ := Option.bind_eq_some_iff.mp hasTotals
    cases hasTotals
    rfl
  have newFound : (core.withFork ptr segment grown).chainsStorage[core.chainsStorage.length]?
      = some (.memory grown) := by
    simp [withFork, updateMainChainSet]
  unfold leafWork
  rw [newFound]
  simp [getCurrentCumulativeDifficulty, entries, blocks, create,
    PushedBlock.entry, PushedBlock.info, isWork]

theorem BranchedSplit.works {cache : DatabaseBlockchainCache} {middle : Core}
    (sound : core.TreeSound link)
    (root : BranchedSplit primitives core middle result ptr cache accepted below) :
    result.works = core.works
      ++ [below.info.cumulativeDifficulty + accepted.pushed.blockDifficulty] := by
  obtain ⟨notLeaf, leaves, -⟩ := root.frame sound
  obtain ⟨-, others⟩ := root.lookup
  obtain ⟨lower, isSplit⟩ := splitSegment_root root.found root.split
  have parent' : ParentEntry primitives (.database lower) accepted below :=
    { above := root.parent.above
      entry := by
        change lower.entries[_]? = _
        rw [isSplit.entries]
        change (cache.entries.take _)[accepted.previousBlockIndex]? = _
        rw [getElem?_take_of_lt (lt_succ_self _)]
        exact root.parent.entry
      index := root.parent.index
      recorded := root.parent.recorded }
  unfold Core.works
  rw [leaves, map_append, map_singleton, forkSegment_work isSplit.found parent' root.forked]
  congr 1
  apply map_congr_left
  intro leaf isLeaf
  obtain ⟨leafSegment, leafFound, -⟩ := leaf_found sound isLeaf
  unfold leafWork
  rw [others leaf (fun same => notLeaf (same ▸ isLeaf)) (index_lt leafFound)]

/-! ### The main leaf stays the heaviest -/

theorem Heaviest.of_cons {main : UInt64} {others : List UInt64}
    (works : core.works = main :: others) :
    core.Heaviest ↔ ∀ work ∈ others, work ≤ main := by
  unfold Heaviest
  simp [works]

theorem heaviest_of_branch (sound : core.TreeSound link) (heaviest : core.Heaviest)
    {chain : List BlockEntry} (member : chain ∈ core.chains) {work : UInt64}
    (light : work ≤ chainWork chain) (after : result.works = core.works ++ [work]) :
    result.Heaviest := by
  have inWorks : chainWork chain ∈ core.works := by
    rw [works_eq sound]
    exact mem_map_of_mem member
  cases works : core.works with
  | nil =>
    rw [works] at inWorks
    cases inWorks
  | cons main others =>
    rw [works] at inWorks after
    have limit := (Heaviest.of_cons works).mp heaviest
    have competitor : chainWork chain ≤ main := by
      rcases mem_cons.mp inWorks with same | inOthers
      · rw [same]
        exact UInt64.le_refl _
      · exact limit _ inOthers
    rw [Heaviest.of_cons after]
    intro other inAll
    rcases mem_append.mp inAll with old | new
    · exact limit other old
    · rw [mem_singleton.mp new]
      exact UInt64.le_trans light competitor

/-- A step of the chains leaves the main chain the heaviest, and a switch is made only to
a strictly heavier chain. -/
theorem ChainStep.heaviest (sound : core.TreeSound link) (resultSound : result.TreeSound link)
    (recorded : core.DifficultiesRecorded) (heaviest : core.Heaviest)
    (isLast : ancestors.getLast? = some below) (isNext : nextDifficulty ancestors = some difficulty)
    (isWork : entry.info.cumulativeDifficulty = below.info.cumulativeDifficulty + difficulty)
    (bound : below.info.cumulativeDifficulty.toNat + difficulty.toNat < 2 ^ 64)
    (step : ChainStep core result ancestors entry code) :
    result.Heaviest ∧ (code = .addBlock .addedToAlternativeAndSwitched →
      ∀ old ∈ core.works.head?, ∀ new ∈ result.works.head?, old < new) := by
  have worksBefore := works_eq sound
  have worksAfter := works_eq resultSound
  have ancestorsWork : chainWork ancestors = below.info.cumulativeDifficulty := by
    simp [chainWork, isLast]
  cases step with
  | main before after _ =>
    rw [before, map_cons] at worksBefore
    rw [after, map_cons] at worksAfter
    refine ⟨?_, by rintro ⟨⟩⟩
    rw [Heaviest.of_cons worksAfter]
    intro work member
    have limit := (Heaviest.of_cons worksBefore).mp heaviest work member
    have grows : chainWork ancestors ≤ chainWork (ancestors ++ [entry]) := by
      rw [chainWork_append, isWork, ancestorsWork, UInt64.le_iff_toNat_le, UInt64.toNat_add,
        mod_eq_of_lt bound]
      omega
    exact UInt64.le_trans limit grows
  | alternative before after notHeavier _ =>
    rw [before, map_cons, map_append, map_cons] at worksBefore
    rw [after, map_cons, map_append, map_cons] at worksAfter
    refine ⟨?_, by rintro ⟨⟩⟩
    have limit := (Heaviest.of_cons worksBefore).mp heaviest
    rw [forall_mem_append, forall_mem_cons] at limit
    rw [Heaviest.of_cons worksAfter, forall_mem_append, forall_mem_cons]
    exact ⟨limit.1, notHeavier, limit.2.2⟩
  | switched before after heavier =>
    rw [before, map_cons, map_append, map_cons] at worksBefore
    rw [after, map_cons, map_append, map_cons] at worksAfter
    constructor
    · have limit := (Heaviest.of_cons worksBefore).mp heaviest
      rw [forall_mem_append, forall_mem_cons] at limit
      rw [Heaviest.of_cons worksAfter, forall_mem_append, forall_mem_cons]
      have rises := UInt64.le_of_lt heavier
      exact ⟨fun work inLeft => UInt64.le_trans (limit.1 work inLeft) rises, rises,
        fun work inRight => UInt64.le_trans (limit.2.2 work inRight) rises⟩
    · intro _ old isOld new isNew
      rw [worksBefore] at isOld
      rw [worksAfter] at isNew
      cases isOld
      cases isNew
      exact heavier
  | branched member isPrefix shorter after _ =>
    refine ⟨?_, by rintro ⟨⟩⟩
    have light := work_le_competitor recorded isLast isNext member isPrefix shorter
    refine heaviest_of_branch sound heaviest member light ?_
    rw [worksAfter, after, map_append, ← worksBefore, map_singleton, chainWork_append, isWork]

/-- After an accepted block no leaf has more work than the main leaf, and the main leaf
changes only to one with strictly more work. -/
theorem addBlock_heaviest (sound : core.Sound environment.primitives)
    (recorded : core.DifficultiesRecorded) (heaviest : core.Heaviest)
    (inRange : core.WorkInRange environment.primitives rawBlock)
    (ran : core.addBlock environment now rawBlock = .ok (code, result)) :
    result.Heaviest ∧ (code = .addBlock .addedToAlternativeAndSwitched →
      ∀ old ∈ core.works.head?, ∀ new ∈ result.works.head?, old < new) := by
  rcases addBlock_eq_ok sound ran with unchanged | placed
  · obtain ⟨notAccepted, rfl⟩ := unchanged
    refine ⟨heaviest, ?_⟩
    intro isSwitch
    rw [isSwitch] at notAccepted
    cases notAccepted
  · obtain ⟨ptr, segment, accepted, data, below, extension, placement⟩ := placed
    have found := extension.found
    have parent := extension.parent
    obtain ⟨-, isLast⟩ := ancestors_getLast? sound.toTreeSound found parent
    have isNext := extension.nextDifficulty_eq sound
    by_cases clean : segment.getTopBlockIndex ≠ accepted.previousBlockIndex → segment.SplitsCleanly
    · exact (placement.chainStep sound extension clean).heaviest sound.toTreeSound
        (placement.sound sound found parent clean).toTreeSound recorded heaviest isLast isNext rfl
        (extension.work_lt inRange)
    -- The split of a branched root breaks the tree, but not the comparison of the leaves.
    · obtain ⟨rfl, cache, middle, rfl, root⟩ := placement.branchedSplit found parent clean
      refine ⟨?_, fun isSwitch => nomatch isSwitch⟩
      obtain ⟨chain, member, isPrefix, shorter⟩ := exists_competitor sound.toTreeSound
        found parent extension.located fun onTop => absurd onTop root.inside
      exact heaviest_of_branch sound.toTreeSound heaviest member
        (work_le_competitor recorded isLast isNext member isPrefix shorter)
        (root.works sound.toTreeSound)

theorem addBlock_heaviest_switch :
    (afterAll switchEnvironment (initRootSegment switchGenesis) [1, 2, 3, 4]).codeOf
        switchEnvironment 0 (codedBlock 7) = some (.addBlock .addedToAlternativeAndSwitched) ∧
      (afterAll switchEnvironment (initRootSegment switchGenesis) [1, 2, 3, 4, 7]).Heaviest := by
  have sound : (afterAll switchEnvironment (initRootSegment switchGenesis) [1, 2, 3, 4]).Sound
      switchEnvironment.primitives :=
    (initRootSegment_sound switchGenesis).reaches (fun _ _ clean => clean)
      (reaches_afterAll (by decide +kernel))
  have returned : (afterAll switchEnvironment (initRootSegment switchGenesis) [1, 2, 3, 4]).codeOf
      switchEnvironment 0 (codedBlock 7) = some (.addBlock .addedToAlternativeAndSwitched) := by
    decide +kernel
  exact ⟨returned, (addBlock_heaviest sound (by decide +kernel) (by decide +kernel)
    (by decide +kernel) (addBlock_eq_after returned)).1⟩

theorem ChainStep.difficultiesRecorded (recorded : core.DifficultiesRecorded)
    (isLast : ancestors.getLast? = some below) (isNext : nextDifficulty ancestors = some difficulty)
    (isWork : entry.info.cumulativeDifficulty = below.info.cumulativeDifficulty + difficulty)
    (bound : below.info.cumulativeDifficulty.toNat + difficulty.toNat < 2 ^ 64)
    (step : ChainStep core result ancestors entry code) : result.DifficultiesRecorded := by
  have sum : entry.info.cumulativeDifficulty.toNat
      = below.info.cumulativeDifficulty.toNat + difficulty.toNat := by
    rw [isWork, UInt64.toNat_add, Nat.mod_eq_of_lt bound]
  have extended : Weighted ancestors → Weighted (ancestors ++ [entry]) := fun weighted =>
    weighted.append isLast isNext sum
  intro chain member
  rcases step.mem_chains member with old | isNew
  · exact recorded chain old
  · obtain ⟨isNew, longer, inChains, isPrefix⟩ := isNew
    rw [isNew]
    exact extended ((recorded longer inChains).of_shorter isPrefix)

end Core
end Mevacoin
