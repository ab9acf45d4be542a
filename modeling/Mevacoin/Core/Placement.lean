/-
Where an accepted block goes. The placement is inverted into its five outcomes;
each outcome is one of the three ways in which a segment tree grows, except that a
split of the database segment leaves the children it has behind.
-/

import Mevacoin.Core.Accept
import Mevacoin.Core.WellFormed

namespace Mevacoin
open List Checked Nat Option Segment BlockchainCache PushedBlock SegmentTree BlockchainCache.Totals
open SegmentTree (Leaves Line parentOf path extend fork cut)

namespace Core
variable {result : Core} {accepted : AcceptedBlock} {cache : BlockchainCache}
  {splitBlockIndex : Nat}

/-- The outcomes of placing an accepted block whose parent lies in the given segment. -/
inductive Placement (primitives : Primitives) (core : Core) (ptr : SegmentPtr)
    (segment : Segment) (accepted : AcceptedBlock) : ErrorCode → Core → Prop where
  | main {grown : Segment}
      (onTop : segment.getTopBlockIndex = accepted.previousBlockIndex)
      (childless : segment.children = [])
      (isMain : core.chainsLeaves.head? = some ptr)
      (pushed : segment.pushBlock primitives (core.lineage ptr).tail accepted.pushed = some grown) :
      Placement primitives core ptr segment accepted (.addBlock .addedToMain)
        { core with
          chainsStorage := core.chainsStorage.set ptr grown
          mainChainStorage := core.mainChainStorage ++ [accepted.pushed.rawBlock] }
  | alternative {grown mainSegment : Segment} {mainPtr : SegmentPtr}
      (onTop : segment.getTopBlockIndex = accepted.previousBlockIndex)
      (childless : segment.children = [])
      (isMain : core.chainsLeaves.head? = some mainPtr) (notMain : mainPtr ≠ ptr)
      (mainFound : core.chainsStorage[mainPtr]? = some mainSegment)
      (pushed : segment.pushBlock primitives (core.lineage ptr).tail accepted.pushed = some grown)
      (notHeavier : grown.getCurrentCumulativeDifficulty
        ≤ mainSegment.getCurrentCumulativeDifficulty) :
      Placement primitives core ptr segment accepted (.addBlock .addedToAlternative)
        { core with chainsStorage := core.chainsStorage.set ptr grown }
  | switched {grown mainSegment : Segment} {mainPtr : SegmentPtr} {middle result : Core}
      (onTop : segment.getTopBlockIndex = accepted.previousBlockIndex)
      (childless : segment.children = [])
      (isMain : core.chainsLeaves.head? = some mainPtr) (notMain : mainPtr ≠ ptr)
      (mainFound : core.chainsStorage[mainPtr]? = some mainSegment)
      (pushed : segment.pushBlock primitives (core.lineage ptr).tail accepted.pushed = some grown)
      (heavier : mainSegment.getCurrentCumulativeDifficulty < grown.getCurrentCumulativeDifficulty)
      (isMiddle : middle = updateMainChainSet
        { core with
          chainsStorage := core.chainsStorage.set ptr grown
          chainsLeaves :=
            (core.chainsLeaves.set 0 ptr).set (core.chainsLeaves.idxOf ptr) mainPtr })
      (switched : middle.switchMainChainStorage grown.getStartBlockIndex ptr = .ok result) :
      Placement primitives core ptr segment accepted
        (.addBlock .addedToAlternativeAndSwitched) result
  | forked {result : Core}
      (onTop : segment.getTopBlockIndex = accepted.previousBlockIndex)
      (branched : segment.children ≠ [])
      (forked : core.forkSegment primitives ptr accepted = some result) :
      Placement primitives core ptr segment accepted (.addBlock .addedToAlternative) result
  | split {middle result : Core}
      (inside : segment.getTopBlockIndex ≠ accepted.previousBlockIndex)
      (split : core.splitSegment primitives ptr (accepted.previousBlockIndex + 1) = some middle)
      (forked : middle.forkSegment primitives ptr accepted = some result) :
      Placement primitives core ptr segment accepted (.addBlock .addedToAlternative) result

/-- How a call that places the block ends: placed, by an exception, or by popping too many
blocks at a switch. -/
def Placed (primitives : Primitives) (core : Core) (ptr : SegmentPtr) (segment : Segment)
    (accepted : AcceptedBlock) : Except Fault (ErrorCode × Core) → Prop
  | .ok (code, result) => Placement primitives core ptr segment accepted code result
  | .error fault => fault = .storageUnderflow →
    segment.getTopBlockIndex = accepted.previousBlockIndex ∧ segment.children = [] ∧
      ∃ mainPtr mainSegment grown, core.chainsLeaves.head? = some mainPtr ∧ mainPtr ≠ ptr ∧
        core.chainsStorage[mainPtr]? = some mainSegment ∧
        segment.pushBlock primitives (core.lineage ptr).tail accepted.pushed = some grown ∧
        mainSegment.getCurrentCumulativeDifficulty < grown.getCurrentCumulativeDifficulty ∧
        (updateMainChainSet
          { core with
            chainsStorage := core.chainsStorage.set ptr grown
            chainsLeaves := (core.chainsLeaves.set 0 ptr).set (core.chainsLeaves.idxOf ptr)
              mainPtr }).switchMainChainStorage grown.getStartBlockIndex ptr
          = .error .storageUnderflow

variable {primitives : Primitives} {core : Core} {ptr : SegmentPtr} {segment : Segment}

theorem placed_orError {α : Type} {option : Option α}
    {next : α → Except Fault (ErrorCode × Core)}
    (placed : ∀ value, option = some value →
      Placed primitives core ptr segment accepted (next value)) :
    Placed primitives core ptr segment accepted (orError .exception option >>= next) := by
  cases option with
  | none => exact fun impossible => nomatch impossible
  | some value => exact placed value rfl

theorem pushBlock_eq_some {pushed : PushedBlock}
    (ran : core.pushBlock primitives ptr pushed = some result)
    (found : core.chainsStorage[ptr]? = some segment) :
    ∃ grown, segment.pushBlock primitives (core.lineage ptr).tail pushed = some grown ∧
      result = { core with chainsStorage := core.chainsStorage.set ptr grown } := by
  obtain ⟨_, again, ran⟩ := bind_eq_some_iff.mp ran
  rw [found] at again
  cases again
  obtain ⟨grown, isGrown, rest⟩ := bind_eq_some_iff.mp ran
  cases rest
  exact ⟨grown, isGrown, rfl⟩

section
variable (found : core.chainsStorage[ptr]? = some segment)
include found

theorem set_found (grown : Segment) :
    (core.chainsStorage.set ptr grown)[ptr]? = some grown := by
  have inside := index_lt found
  simp [inside]

theorem extendAlternative_placed {mainPtr : SegmentPtr}
    (onTop : segment.getTopBlockIndex = accepted.previousBlockIndex)
    (childless : segment.children = [])
    (isMain : core.chainsLeaves.head? = some mainPtr) (notMain : mainPtr ≠ ptr) :
    Placed primitives core ptr segment accepted
      (core.extendAlternative primitives ptr accepted) := by
  apply placed_orError
  intro middle pushRan
  obtain ⟨grown, isGrown, rfl⟩ := pushBlock_eq_some pushRan found
  apply placed_orError
  intro _ grownFound
  rw [set_found found] at grownFound
  cases grownFound
  apply placed_orError
  intro _ mainAgain
  rw [isMain] at mainAgain
  cases mainAgain
  apply placed_orError
  intro mainSegment mainFound
  rw [getElem?_set_ne (Ne.symm notMain)] at mainFound
  split
  · rename_i heavier
    dsimp only
    generalize switched : switchMainChainStorage _ _ _ = outcome
    cases outcome with
    | ok result =>
      exact Placement.switched onTop childless isMain notMain mainFound isGrown heavier rfl
        switched
    | error fault =>
      intro isUnderflow
      rw [isUnderflow] at switched
      exact ⟨onTop, childless, mainPtr, mainSegment, grown, isMain, notMain, mainFound, isGrown,
        heavier, switched⟩
  · rename_i notHeavier
    exact Placement.alternative onTop childless isMain notMain mainFound isGrown
      (UInt64.not_lt.mp notHeavier)

theorem placeBlock_placed (nonempty : core.chainsLeaves ≠ []) :
    Placed primitives core ptr segment accepted (core.placeBlock primitives ptr accepted) := by
  apply placed_orError
  intro _ again
  rw [found] at again
  cases again
  split
  · rename_i onTop
    split
    · rename_i noChild
      have childless : segment.children = [] := length_eq_zero_iff.mp noChild
      split
      · rename_i isMain
        apply placed_orError
        intro pushed pushRan
        obtain ⟨grown, isGrown, rfl⟩ := pushBlock_eq_some pushRan found
        exact Placement.main onTop childless isMain isGrown
      · rename_i notMain
        cases isMain : core.chainsLeaves.head? with
        | none => exact absurd (head?_eq_none_iff.mp isMain) nonempty
        | some mainPtr =>
          rw [isMain] at notMain
          exact extendAlternative_placed found onTop childless isMain
            (fun same => notMain (by rw [same]))
    · rename_i hasChild
      apply placed_orError
      intro forked isForked
      exact Placement.forked onTop (fun none => hasChild (length_eq_zero_iff.mpr none)) isForked
  · rename_i inside
    apply placed_orError
    intro middle isSplit
    apply placed_orError
    intro forked isForked
    exact Placement.split inside isSplit isForked

end

/-! ### A new segment -/

variable {primitives : Primitives} {link : BlockEntry → BlockEntry → Prop} {core : Core}
  {ptr : SegmentPtr} {segment : Segment}

theorem toNode_addChild {child : SegmentPtr} (fresh : child ∉ segment.children) :
    (segment.addChild child).toNode
      = { segment.toNode with children := segment.toNode.children ++ [child] } := by
  cases segment with
  | database cache =>
    have fresh : child ∉ cache.children := fresh
    simp only [addChild, if_neg fresh]
    rfl
  | memory cache => rfl

@[simp] theorem addChild_getStartBlockIndex (child : SegmentPtr) :
    (segment.addChild child).getStartBlockIndex = segment.getStartBlockIndex := by
  cases segment <;> rfl

@[simp] theorem addChild_entries (child : SegmentPtr) :
    (segment.addChild child).entries = segment.entries := by
  cases segment <;> rfl

theorem createSegment_new (startIndex : Nat) :
    (core.createSegment ptr segment startIndex).chainsStorage[core.chainsStorage.length]?
      = some (.memory (create ptr startIndex)) := by
  simp [createSegment]

theorem createSegment_self (found : core.chainsStorage[ptr]? = some segment) (startIndex : Nat) :
    (core.createSegment ptr segment startIndex).chainsStorage[ptr]?
      = some (segment.addChild core.chainsStorage.length) := by
  have inside := index_lt found
  simp only [createSegment]
  rw [getElem?_append_left (by simpa using inside), getElem?_set_self inside]

theorem createSegment_tail (startIndex : Nat) :
    ((core.createSegment ptr segment startIndex).lineage core.chainsStorage.length).tail
      = (walk (core.createSegment ptr segment startIndex).getParent startIndex
          ptr).filterMap
            fun other => (core.createSegment ptr segment startIndex).chainsStorage[other]? := by
  have newFound := @createSegment_new core ptr segment startIndex
  have parent : (core.createSegment ptr segment startIndex).getParent core.chainsStorage.length
      = some ptr := by
    simp [getParent, newFound, Segment.getParent, create]
  simp [lineage, ancestry, newFound, walk, parent, getStartBlockIndex, create]

section
variable (sound : core.TreeSound link) (found : core.chainsStorage[ptr]? = some segment)
include sound found

theorem TreeSound.fresh_child :
    core.chainsStorage.length ∉ segment.children := by
  intro child
  have inside := sound.tree.child_lt (tree_found found) child
  rw [tree_length] at inside
  exact lt_irrefl _ inside

theorem createSegment_tree {startIndex : Nat}
    (start : startIndex = segment.getStartBlockIndex + segment.entries.length) :
    (core.createSegment ptr segment startIndex).tree = fork core.tree ptr segment.toNode [] := by
  unfold tree createSegment fork
  rw [map_append, map_set, toNode_addChild (sound.fresh_child found), start, length_map]
  rfl

theorem createSegment_lineage {startIndex : Nat}
    (start : startIndex = segment.getStartBlockIndex + segment.entries.length) :
    ((core.createSegment ptr segment startIndex).lineage core.chainsStorage.length).tail
      = segment.addChild core.chainsStorage.length :: (core.lineage ptr).tail := by
  obtain ⟨above, items, line, isPath, -, -⟩ := sound.stacked found
  obtain ⟨rest, rfl, notAgain⟩ := line.path_cons sound.tree
  have positive := sound.tree.items_length_pos (tree_found found)
  have enough := line.path_length_le sound.tree
  rw [startOf_eq (tree_found found)] at enough
  have walked : walk (core.createSegment ptr segment startIndex).getParent startIndex
      ptr = ptr :: rest := by
    rw [getParent_eq, createSegment_tree sound found start]
    apply (line.fork (tree_found found)).walk_eq
    have : segment.toNode.items.length = segment.entries.length := rfl
    have : segment.toNode.startIndex = segment.getStartBlockIndex := rfl
    omega
  have below : rest.filterMap (fun ptr' =>
      (core.createSegment ptr segment startIndex).chainsStorage[ptr']?)
      = rest.filterMap fun ptr => core.chainsStorage[ptr]? := by
    apply filterMap_congr
    intro other inRest
    have different : ptr ≠ other := fun same => notAgain (same ▸ inRest)
    obtain ⟨node, otherFound⟩ := line.mem_found (mem_cons_of_mem ptr inRest)
    have old := lt_length_of_found otherFound
    simp only [createSegment]
    rw [getElem?_append_left (by simpa using old), getElem?_set_ne different]
  rw [createSegment_tail, walked, lineage, isPath]
  simp only [filterMap_cons, createSegment_self found, found, below, tail_cons]

end

def withFork (core : Core) (ptr : SegmentPtr) (segment : Segment) (grown : BlockchainCache) :
    Core :=
  updateMainChainSet { core with
    chainsStorage := core.chainsStorage.set ptr (segment.addChild core.chainsStorage.length)
      ++ [Segment.memory grown]
    chainsLeaves := core.chainsLeaves ++ [core.chainsStorage.length] }

theorem forkSegment_withFork (found : core.chainsStorage[ptr]? = some segment)
    (ran : core.forkSegment primitives ptr accepted = some result) :
    ∃ grown, result = core.withFork ptr segment grown ∧
      (BlockchainCache.create ptr (accepted.previousBlockIndex + 1)).pushBlock primitives
          ((core.createSegment ptr segment (accepted.previousBlockIndex + 1)).lineage
            core.chainsStorage.length).tail
          accepted.pushed = some grown := by
  obtain ⟨_, again, ran⟩ := bind_eq_some_iff.mp ran
  rw [found] at again
  cases again
  obtain ⟨pushed, pushRan, finished⟩ := bind_eq_some_iff.mp ran
  obtain ⟨grown', isGrown, rfl⟩ := pushBlock_eq_some pushRan (createSegment_new _)
  obtain ⟨grown, cachePushed, rfl⟩ := map_eq_some_iff.mp isGrown
  refine ⟨grown, ?_, cachePushed⟩
  cases finished
  unfold withFork createSegment
  simp

theorem forkSegment_eq_some (sound : core.TreeSound link)
    (found : core.chainsStorage[ptr]? = some segment)
    {last : BlockEntry} (isLast : segment.entries.getLast? = some last)
    (start : accepted.previousBlockIndex + 1 = segment.getStartBlockIndex + segment.entries.length)
    (index : accepted.pushed.block.getBlockIndex = accepted.previousBlockIndex + 1)
    (ran : core.forkSegment primitives ptr accepted = some result) :
    ∃ grown, result = core.withFork ptr segment grown ∧
      (BlockchainCache.create ptr (accepted.previousBlockIndex + 1)).pushBlock primitives
          (segment.addChild core.chainsStorage.length :: (core.lineage ptr).tail)
          accepted.pushed = some grown ∧
      grown.blocks = [accepted.pushed.entry primitives (ofInfo last.info)] ∧
      grown.parent = some ptr ∧ grown.startIndex = accepted.previousBlockIndex + 1 ∧
      grown.children = [] := by
  obtain ⟨grown, isResult, cachePushed⟩ := forkSegment_withFork found ran
  rw [createSegment_lineage sound found start] at cachePushed
  obtain ⟨totals, hasTotals, blocks, parent, startIndex, children, -⟩ :=
    BlockchainCache.pushBlock_eq_some cachePushed
  have positive : 0 < segment.entries.length := sound.tree.items_length_pos (tree_found found)
  have below : previousTotals
      (segment.addChild core.chainsStorage.length :: (core.lineage ptr).tail)
      (create ptr (accepted.previousBlockIndex + 1))
      accepted.pushed.block.getBlockIndex = some (ofInfo last.info) := by
    apply previousTotals_of_parent rfl
    · rw [addChild_getStartBlockIndex, index]
      omega
    · rw [addChild_entries, addChild_getStartBlockIndex, index, start, ← isLast, getLast?_eq_getElem?]
      congr 1
      omega
  rw [hasTotals] at below
  cases below
  exact ⟨grown, isResult, cachePushed, blocks, parent, startIndex, children⟩

theorem withFork_tree (sound : core.TreeSound link)
    (found : core.chainsStorage[ptr]? = some segment) {grown : BlockchainCache}
    (parent : grown.parent = some ptr)
    (start : grown.startIndex = segment.getStartBlockIndex + segment.entries.length)
    (children : grown.children = []) :
    (core.withFork ptr segment grown).tree = fork core.tree ptr segment.toNode grown.blocks := by
  have node : (Segment.memory grown).toNode
      = { parent := some ptr
          startIndex := segment.toNode.startIndex + segment.toNode.items.length
          items := grown.blocks
          children := [] } := by
    simp [Segment.toNode, Segment.getParent, Segment.getStartBlockIndex, Segment.entries,
      Segment.children, parent, start, children]
  unfold fork
  rw [← node, tree_length, ← toNode_addChild (sound.fresh_child found)]
  simp [tree, withFork, updateMainChainSet, map_set]

/-! ### A split -/

def withSplit (core : Core) (ptr : SegmentPtr) (cache : BlockchainCache)
    (splitBlockIndex : Nat) : Core :=
  { core with
    chainsStorage :=
      ((core.chainsStorage.set ptr
        (.memory (cache.splitLower splitBlockIndex core.chainsStorage.length))).mapIdx
          fun other segment =>
            if other ∈ cache.children then segment.setParent core.chainsStorage.length
            else segment)
        ++ [Segment.memory (cache.splitUpper splitBlockIndex ptr)]
    chainsLeaves :=
      if cache.children = [] then
        core.chainsLeaves.set (core.chainsLeaves.idxOf ptr) core.chainsStorage.length
      else core.chainsLeaves }

theorem splitSegment_memory {middle : Core}
    (found : core.chainsStorage[ptr]? = some (.memory cache))
    (ran : core.splitSegment primitives ptr splitBlockIndex = some middle) :
    middle = core.withSplit ptr cache splitBlockIndex := by
  unfold splitSegment at ran
  simp only [found] at ran
  cases ran
  rfl

theorem splitSegment_database {cache : DatabaseBlockchainCache}
    {middle : Core} (found : core.chainsStorage[ptr]? = some (.database cache))
    (ran : core.splitSegment primitives ptr splitBlockIndex = some middle) :
    ∃ upper lower, cache.replayUpper primitives splitBlockIndex ptr = some upper ∧
      cache.deleteUpper splitBlockIndex core.chainsStorage.length = some lower ∧
      middle = { core with
        chainsStorage := core.chainsStorage.set ptr (.database lower) ++ [.memory upper]
        chainsLeaves :=
          core.chainsLeaves.set (core.chainsLeaves.idxOf ptr) core.chainsStorage.length } := by
  unfold splitSegment at ran
  simp only [found] at ran
  obtain ⟨upper, isUpper, ran⟩ := bind_eq_some_iff.mp ran
  obtain ⟨lower, isLower, ran⟩ := bind_eq_some_iff.mp ran
  cases ran
  exact ⟨upper, lower, isUpper, isLower, rfl⟩

theorem withSplit_lookup (sound : core.TreeSound link)
    (found : core.chainsStorage[ptr]? = some (.memory cache)) (splitBlockIndex : Nat)
    (other : SegmentPtr) :
    (core.withSplit ptr cache splitBlockIndex).chainsStorage[other]?
      = if other = ptr then
          some (.memory (cache.splitLower splitBlockIndex core.chainsStorage.length))
        else if other = core.chainsStorage.length then
          some (.memory (cache.splitUpper splitBlockIndex ptr))
        else (core.chainsStorage[other]?).map fun segment =>
          if other ∈ cache.children then segment.setParent core.chainsStorage.length
          else segment := by
  have notOwn : ptr ∉ cache.children := sound.tree.not_own_child (tree_found found)
  have inside := index_lt found
  unfold withSplit
  rw [getElem?_append, length_mapIdx, length_set]
  by_cases old : other < core.chainsStorage.length
  · rw [if_pos old, getElem?_mapIdx, getElem?_set]
    by_cases same : ptr = other
    · subst same
      simp [old, notOwn]
    · simp [same, Ne.symm same, Nat.ne_of_lt old]
  · rw [if_neg old]
    have notHere : other ≠ ptr := fun same => old (same ▸ inside)
    by_cases fresh : other = core.chainsStorage.length
    · simp [fresh, ne_of_gt inside]
    · have outside : core.chainsStorage.length < other :=
        Nat.lt_of_le_of_ne (Nat.le_of_not_lt old) (Ne.symm fresh)
      rw [if_neg notHere, if_neg fresh, getElem?_eq_none (le_of_lt outside)]
      exact getElem?_eq_none (by simp; omega)

theorem withSplit_tree (sound : core.TreeSound link)
    (found : core.chainsStorage[ptr]? = some (.memory cache))
    (above : cache.startIndex ≤ splitBlockIndex) :
    (core.withSplit ptr cache splitBlockIndex).tree
      = cut core.tree ptr (Segment.memory cache).toNode (splitBlockIndex - cache.startIndex) := by
  apply ext_getElem?
  intro other
  rw [cut_lookup (tree_found found) (sound.tree.not_own_child (tree_found found)),
    tree_lookup, withSplit_lookup sound found, tree_length]
  by_cases same : other = ptr
  · rw [if_pos same, if_pos same]
    rfl
  · rw [if_neg same, if_neg same]
    by_cases fresh : other = core.chainsStorage.length
    · rw [if_pos fresh, if_pos fresh]
      simp [Segment.toNode, Segment.getParent, Segment.getStartBlockIndex, Segment.entries,
        Segment.children, BlockchainCache.splitUpper, Nat.add_sub_cancel' above]
    · rw [if_neg fresh, if_neg fresh, tree_lookup]
      cases otherFound : core.chainsStorage[other]? with
      | none => rfl
      | some segment =>
        by_cases isChild : other ∈ cache.children
        · have parent := (sound.tree.mem_children (tree_found found) other).mp isChild
          rw [parentOf_eq (tree_found otherFound)] at parent
          obtain ⟨child, rfl, -⟩ := TreeSound.memory_of_parent otherFound parent
          simp only [Option.map_some, if_pos isChild, Segment.setParent]
          rw [if_pos (show other ∈ (Segment.memory cache).toNode.children from isChild)]
          rfl
        · simp only [Option.map_some, if_neg isChild]
          rw [if_neg (show other ∉ (Segment.memory cache).toNode.children from isChild)]

/-- What is left of the database segment keeps its children; the new segment gets none. -/
theorem databaseSplit_tree {cache lower : DatabaseBlockchainCache} {upper : BlockchainCache}
    (lowerEntries : lower.entries = cache.entries.take splitBlockIndex)
    (lowerChildren : lower.children = cache.children ++ [core.chainsStorage.length])
    (blocks : upper.blocks = cache.entries.drop splitBlockIndex) (parent : upper.parent = some ptr)
    (start : upper.startIndex = splitBlockIndex) (children : upper.children = []) :
    (core.chainsStorage.set ptr (Segment.database lower)
        ++ [Segment.memory upper]).map Segment.toNode
      = core.tree.set ptr
          { (Segment.database cache).toNode with
            items := cache.entries.take splitBlockIndex
            children := cache.children ++ [core.chainsStorage.length] }
        ++ [{ parent := some ptr
              startIndex := splitBlockIndex
              items := cache.entries.drop splitBlockIndex
              children := [] }] := by
  simp [tree, map_set, Segment.toNode, Segment.getParent, Segment.getStartBlockIndex,
    Segment.entries, Segment.children, lowerEntries, lowerChildren, blocks, parent, start,
    children]

/-! ### The block below -/

/-- The parent of an accepted block stands in the segment that was found, and the
record of the new block follows its record. -/
structure ParentEntry (primitives : Primitives) (segment : Segment) (accepted : AcceptedBlock)
    (below : BlockEntry) : Prop where
  above : segment.getStartBlockIndex ≤ accepted.previousBlockIndex
  entry : segment.entries[accepted.previousBlockIndex - segment.getStartBlockIndex]? = some below
  index : accepted.pushed.block.getBlockIndex = accepted.previousBlockIndex + 1
  recorded : Recorded primitives below
    (accepted.pushed.entry primitives (ofInfo below.info))

theorem ParentEntry.isLast {below : BlockEntry}
    (parent : ParentEntry primitives segment accepted below)
    (onTop : segment.getTopBlockIndex = accepted.previousBlockIndex) :
    segment.entries.getLast? = some below := by
  rw [getLast?_eq_getElem?, ← parent.entry, ← onTop]
  congr 1
  unfold getTopBlockIndex getBlockCount
  omega

theorem ParentEntry.next {accepted : AcceptedBlock} {below : BlockEntry}
    (parent : ParentEntry primitives segment accepted below)
    (onTop : segment.getTopBlockIndex = accepted.previousBlockIndex) :
    accepted.previousBlockIndex + 1 = segment.getStartBlockIndex + segment.entries.length := by
  have inside := index_lt parent.entry
  unfold getTopBlockIndex getBlockCount at onTop
  omega

theorem Sound.blockIndex_eq (sound : core.Sound primitives) {above : List SegmentPtr}
    {chain : List BlockEntry} (line : Line core.tree ptr above chain) {index : Nat}
    {entry : BlockEntry} (found : chain[index]? = some entry) :
    entry.blockIndex primitives = index := by
  obtain ⟨cache, rootFound⟩ := sound.root
  refine blockIndex_eq_position (line.isChain sound.tree) ?_ found
  rw [line.head?_eq sound.tree (tree_found rootFound)]
  exact (sound.rooted cache rootFound).genesis

theorem chain_getElem? {above : List SegmentPtr} {chain : List BlockEntry}
    (line : Line core.tree ptr above chain) (sound : core.TreeSound link)
    (found : core.chainsStorage[ptr]? = some segment) (position : Nat) :
    chain[segment.getStartBlockIndex + position]? = segment.entries[position]? := by
  cases line with
  | root same top =>
    rw [tree_found found] at same
    cases same
    have start : segment.getStartBlockIndex = 0 :=
      (sound.tree.root_of_no_parent (tree_found found) top).2
    rw [start, zero_add]
    rfl
  | child same _ _ start =>
    rw [tree_found found] at same
    cases same
    have start' : segment.getStartBlockIndex = _ := start.symm
    rw [start', getElem?_append_right (Nat.le_add_right _ _), Nat.add_sub_cancel_left]
    rfl

section
variable {environment : Environment} {now : UInt64} {block : BlockTemplate} {rawBlock : RawBlock}
  {data : AcceptanceData}

theorem position_of_acceptance (found : core.chainsStorage[ptr]? = some segment)
    (acceptance : Acceptance environment now (core.lineage ptr) block rawBlock accepted data) :
    segment.getBlockIndex block.previousBlockHash = some accepted.previousBlockIndex := by
  have isCache := acceptance.cache
  rw [lineage_head found] at isCache
  rw [Option.some.inj isCache]
  exact acceptance.position

theorem parentEntry_of_acceptance (sound : core.Sound environment.primitives)
    (found : core.chainsStorage[ptr]? = some segment)
    (parsed : environment.primitives.blockFromBinaryArray rawBlock.block = some block)
    (acceptance : Acceptance environment now (core.lineage ptr) block rawBlock accepted data) :
    ∃ below, ParentEntry environment.primitives segment accepted below := by
  have position := position_of_acceptance found acceptance
  obtain ⟨offset, below, previous, isBelow, hash⟩ := getBlockIndex_eq_some position
  have index : accepted.pushed.block.getBlockIndex = accepted.previousBlockIndex + 1 := by
    rw [acceptance.sameBlock]
    exact (validateBlock_eq_ok acceptance.validBlock).getBlockIndex
  obtain ⟨above, chain, line, -⟩ := sound.toTreeSound.stacked found
  have indexBelow := sound.blockIndex_eq line
    ((chain_getElem? line sound.toTreeSound found offset).trans isBelow)
  obtain ⟨extracted, -⟩ := extractTransactions_eq_some acceptance.extracted
  refine ⟨below, by omega, ?_, index, block,
    accepted.pushed.transactions.map CachedTransaction.transaction, ?_⟩
  · rw [previous, Nat.add_sub_cancel_left]
    exact isBelow
  · exact {
      block_parsed := by simpa [entry, acceptance.sameRawBlock] using parsed
      transactions_parsed := by
        simpa [entry, acceptance.sameRawBlock] using parsed_of_extracted extracted
      previous := hash.symm
      index := by rw [indexBelow, ← previous, ← index, acceptance.sameBlock]
      hash := by simp [entry, info, acceptance.sameBlock]
      timestamp := by simp [entry, info, acceptance.sameBlock]
      count := by
        simp [entry, info, ofInfo] }

end
end Core
end Mevacoin
