/-
Adding a block keeps the core sound, unless it splits a database segment that has
children.
-/

import Mevacoin.Core.Placement

namespace Mevacoin
open List Option DatabaseBlockchainCache Segment SegmentTree
open SegmentTree (Leaves Line parentOf path extend fork cut)

variable {pushed : PushedBlock} {splitBlockIndex : Nat} {main : SegmentPtr} {grown : Segment}
  {parents : List Segment} {leaves : List SegmentPtr} {result : Core}

/-- Splitting the segment hands its children over to the upper half. -/
def Segment.SplitsCleanly : Segment → Prop
  | database cache => cache.children = []
  | memory _ => True

/-! ### The root -/

namespace DatabaseBlockchainCache
variable {primitives : Primitives} {cache : DatabaseBlockchainCache}

theorem pushUnit_suffix {unitsCache infos : List CachedBlockInfo} (suffix : unitsCache <:+ infos)
    (info : CachedBlockInfo) : pushUnit unitsCache info <:+ infos ++ [info] := by
  have grown : unitsCache ++ [info] <:+ infos ++ [info] := by
    obtain ⟨before, rfl⟩ := suffix
    exact ⟨before, by rw [append_assoc]⟩
  unfold pushUnit
  split
  · exact (drop_suffix 1 _).trans grown
  · exact grown

theorem Rooted.push (rooted : cache.Rooted primitives) {grown : DatabaseBlockchainCache}
    (ran : cache.pushBlock primitives pushed = some grown) :
    grown.Rooted primitives := by
  obtain ⟨last, isLast, entries, -, units, -⟩ := pushBlock_eq_some ran
  have nonempty : cache.entries ≠ [] := by
    intro empty
    simp [empty] at isLast
  constructor
  · rw [entries, head?_append_of_ne_nil _ nonempty]
    exact rooted.genesis
  · rw [units, infos_eq, entries, map_append, ← infos_eq]
    exact pushUnit_suffix rooted.units _

theorem cutTail_suffix {unitsCache infos : List CachedBlockInfo} (suffix : unitsCache <:+ infos)
    (inside : splitBlockIndex ≤ infos.length) :
    cutTail unitsCache (infos.length - splitBlockIndex) <:+ infos.take splitBlockIndex := by
  obtain ⟨before, rfl⟩ := suffix
  rw [length_append] at inside ⊢
  unfold cutTail
  split
  · exact nil_suffix
  · have count : unitsCache.length - (before.length + unitsCache.length - splitBlockIndex)
        = splitBlockIndex - before.length := by omega
    rw [count, take_append]
    exact suffix_append _ _

theorem Rooted.lower (rooted : cache.Rooted primitives) {lower : DatabaseBlockchainCache}
    {upper : SegmentPtr} (positive : 0 < splitBlockIndex)
    (inside : splitBlockIndex ≤ cache.blocks.length)
    (ran : cache.deleteUpper splitBlockIndex upper = some lower) : lower.Rooted primitives := by
  obtain ⟨blocks, -, units, -⟩ := deleteUpper_eq_some ran
  have entries := entries_of_take blocks
  constructor
  · rw [entries, head?_take, if_neg (Nat.ne_of_gt positive)]
    exact rooted.genesis
  · have length : cache.infos.length = cache.blocks.length := by simp [infos]
    have top : cache.getTopBlockIndex + 1 - splitBlockIndex
        = cache.infos.length - splitBlockIndex := by
      rw [length, getTopBlockIndex]
      omega
    rw [units, top, lower.infos_eq, entries, map_take, ← infos_eq]
    exact cutTail_suffix rooted.units (length ▸ inside)

end DatabaseBlockchainCache

namespace Core
variable {primitives : Primitives} {link : BlockEntry → BlockEntry → Prop} {core : Core}
  {ptr : SegmentPtr} {segment : Segment}

theorem TreeSound.of_updated (tree : SegmentTree.Sound link core.tree)
    (root : ∃ cache, core.chainsStorage[0]? = some (.database cache))
    (leaves : Leaves core.tree core.chainsLeaves) (isMain : core.chainsLeaves.head? = some main) :
    core.updateMainChainSet.TreeSound link where
  tree := tree
  root := root
  leaves := leaves
  mainChain := by
    refine ⟨main, isMain, ?_⟩
    intro other
    have isLeaf := (leaves.mem_iff main).mp (mem_of_head? isMain)
    obtain ⟨node, found, -⟩ := isLeaf
    obtain ⟨above, items, line, -⟩ := tree.exists_line found
    have set : core.updateMainChainSet.mainChainSet = above := by
      simp only [updateMainChainSet, isMain, elim_some, ancestry_eq]
      exact line.path_eq tree
    rw [set, line.mem_iff]
    have same : core.updateMainChainSet.getParent = parentOf core.tree := getParent_eq core
    rw [same]

/-! ### A block on top of a leaf -/

theorem pushed_tree (ptr : SegmentPtr) {last : BlockEntry}
    (isLast : segment.entries.getLast? = some last)
    (ran : segment.pushBlock primitives parents pushed = some grown) :
    (core.chainsStorage.set ptr grown).map Segment.toNode
      = extend core.tree ptr segment.toNode
        (pushed.entry primitives (BlockchainCache.Totals.ofInfo last.info)) := by
  obtain ⟨entries, parent, start, children⟩ := Segment.pushBlock_eq_some isLast ran
  simp [extend, tree, map_set, toNode, entries, parent, start, children]

theorem root_of_push (sound : core.TreeSound link) (found : core.chainsStorage[ptr]? = some segment)
    (ran : segment.pushBlock primitives parents pushed = some grown) :
    ∃ cache, (core.chainsStorage.set ptr grown)[0]? = some (.database cache) := by
  obtain ⟨cache, rootFound⟩ := sound.root
  by_cases atRoot : ptr = 0
  · subst atRoot
    rw [rootFound] at found
    cases found
    obtain ⟨grown', -, rfl⟩ := map_eq_some_iff.mp ran
    exact ⟨grown', set_found rootFound _⟩
  · exact ⟨cache, by rw [getElem?_set_ne atRoot, rootFound]⟩

section
variable (sound : core.Sound primitives) (found : core.chainsStorage[ptr]? = some segment)
include sound found

theorem rooted_of_push (ran : segment.pushBlock primitives parents pushed = some grown)
    {cache : DatabaseBlockchainCache}
    (rootFound : (core.chainsStorage.set ptr grown)[0]? = some (.database cache)) :
    cache.Rooted primitives := by
  by_cases atRoot : ptr = 0
  · subst atRoot
    obtain ⟨before, beforeFound⟩ := sound.root
    rw [set_found found] at rootFound
    rw [beforeFound] at found
    cases found
    obtain ⟨grown', pushRan, rfl⟩ := map_eq_some_iff.mp ran
    cases rootFound
    exact (sound.rooted before beforeFound).push pushRan
  · rw [getElem?_set_ne atRoot] at rootFound
    exact sound.rooted cache rootFound

variable {accepted : AcceptedBlock} {below : BlockEntry}

/-- A push onto a leaf keeps the core sound, whatever happens to the order of the
leaves, provided the main chain set is that of the first one. -/
theorem Sound.push
    (childless : segment.children = []) (parent : ParentEntry primitives segment accepted below)
    (onTop : segment.getTopBlockIndex = accepted.previousBlockIndex)
    (ran : segment.pushBlock primitives parents accepted.pushed = some grown)
    {mainChainSet : List SegmentPtr} {storage : List RawBlock}
    (sameLeaves : leaves.Perm core.chainsLeaves)
    (main : ∃ main, leaves.head? = some main ∧ ∀ ptr, ptr ∈ mainChainSet ↔
      Relation.ReflTransGen (fun child parent => core.getParent child = some parent) main ptr) :
    Sound primitives
      { chainsStorage := core.chainsStorage.set ptr grown
        chainsLeaves := leaves
        mainChainSet := mainChainSet
        mainChainStorage := storage } := by
  have isLast := parent.isLast onTop
  have tree : (core.chainsStorage.set ptr grown).map toNode = _ :=
    pushed_tree ptr isLast ran
  constructor
  · constructor
    · unfold Core.tree
      rw [tree]
      refine sound.tree.extend (tree_found found) childless ?_
      intro last isLast'
      have same : last = below := Option.some.inj (isLast'.symm.trans isLast)
      rw [same]
      exact parent.recorded
    · exact root_of_push sound.toTreeSound found ran
    · unfold Core.tree
      rw [tree]
      exact (sound.leaves.extend (tree_found found)).perm sameLeaves
    · obtain ⟨mainPtr, isMain, members⟩ := main
      refine ⟨mainPtr, isMain, ?_⟩
      rw [getParent_eq] at members ⊢
      unfold Core.tree
      rw [tree, funext (parentOf_extend (tree_found found))]
      exact members
  · intro cache rootFound
    exact rooted_of_push sound found ran rootFound

/-! ### A block in a new segment -/

theorem rooted_of_addChild (child : SegmentPtr) (added : List Segment) :
    ∃ cache, (core.chainsStorage.set ptr (segment.addChild child) ++ added)[0]?
        = some (.database cache) ∧ cache.Rooted primitives := by
  obtain ⟨cache, rootFound⟩ := sound.root
  have rooted := sound.rooted cache rootFound
  have inside := index_lt rootFound
  rw [getElem?_append_left (by simpa using inside)]
  by_cases atRoot : ptr = 0
  · subst atRoot
    rw [rootFound] at found
    cases found
    exact ⟨_, set_found rootFound _, rooted.genesis, rooted.units⟩
  · exact ⟨cache, by rw [getElem?_set_ne atRoot, rootFound], rooted⟩

theorem Sound.fork
    (branched : segment.children ≠ []) (parent : ParentEntry primitives segment accepted below)
    (onTop : segment.getTopBlockIndex = accepted.previousBlockIndex)
    (ran : core.forkSegment primitives ptr accepted = some result) :
    result.Sound primitives ∧
      result.tree = SegmentTree.fork core.tree ptr segment.toNode
        [accepted.pushed.entry primitives (BlockchainCache.Totals.ofInfo below.info)] ∧
      result.chainsLeaves = core.chainsLeaves ++ [core.chainsStorage.length] ∧
      result.mainChainStorage = core.mainChainStorage := by
  have isLast := parent.isLast onTop
  have start := parent.next onTop
  obtain ⟨grown, rfl, -, blocks, grownParent, grownStart, grownChildren⟩ :=
    forkSegment_eq_some sound.toTreeSound found isLast start parent.index ran
  have tree := withFork_tree sound.toTreeSound found grownParent (grownStart.trans start)
    grownChildren
  rw [blocks] at tree
  have root := rooted_of_addChild sound found core.chainsStorage.length [.memory grown]
  refine ⟨?_, tree, rfl, rfl⟩
  obtain ⟨mainPtr, isMain, -⟩ := sound.mainChain
  obtain ⟨cache, rootFound, rooted⟩ := root
  have head : (core.chainsLeaves ++ [core.chainsStorage.length]).head? = some mainPtr := by
    simp [head?_append, isMain]
  refine ⟨TreeSound.of_updated ?_ ⟨cache, rootFound⟩ ?_ head, ?_⟩
  · change SegmentTree.Sound _ (core.withFork ptr segment grown).tree
    rw [tree]
    refine sound.tree.fork (tree_found found) (cons_ne_nil _ _) (isChain_singleton _) ?_
    intro last isLast' first isFirst
    cases isFirst
    have same : last = below := Option.some.inj (isLast'.symm.trans isLast)
    rw [same]
    exact parent.recorded
  · change Leaves (core.withFork ptr segment grown).tree _
    rw [tree, ← tree_length]
    exact sound.leaves.fork (tree_found found) branched
  · intro cache' rootFound'
    have same : database cache' = database cache :=
      Option.some.inj (rootFound'.symm.trans rootFound)
    cases same
    exact rooted

end

/-! ### A split -/

/-- The leaves after a split: the upper half takes the place of a leaf. -/
def leavesAfterSplit (core : Core) (ptr : SegmentPtr) (segment : Segment) : List SegmentPtr :=
  if segment.children = [] then
    core.chainsLeaves.set (core.chainsLeaves.idxOf ptr) core.chainsStorage.length
  else core.chainsLeaves

structure SplitOutcome (primitives : Primitives) (core : Core) (ptr : SegmentPtr)
    (segment : Segment) (splitBlockIndex : Nat) (middle : Core) (lower : Segment) : Prop where
  tree : middle.tree = cut core.tree ptr segment.toNode
    (splitBlockIndex - segment.getStartBlockIndex)
  leaves : middle.chainsLeaves = core.leavesAfterSplit ptr segment
  storage : middle.mainChainStorage = core.mainChainStorage
  found : middle.chainsStorage[ptr]? = some lower
  root : ∃ cache, middle.chainsStorage[0]? = some (.database cache) ∧ cache.Rooted primitives

theorem splitOutcome_memory (sound : core.Sound primitives) {cache : BlockchainCache}
    (found : core.chainsStorage[ptr]? = some (.memory cache))
    (above : cache.startIndex ≤ splitBlockIndex) {middle : Core}
    (ran : core.splitSegment primitives ptr splitBlockIndex = some middle) :
    SplitOutcome primitives core ptr (.memory cache) splitBlockIndex middle
      (.memory (cache.splitLower splitBlockIndex core.chainsStorage.length)) := by
  rw [splitSegment_memory found ran]
  have lookup := withSplit_lookup sound.toTreeSound found splitBlockIndex
  refine {
    tree := withSplit_tree sound.toTreeSound found above
    leaves := rfl
    storage := rfl
    found := by rw [lookup, if_pos rfl]
    root := ?_ }
  obtain ⟨root, rootFound⟩ := sound.root
  have notHere : 0 ≠ ptr := by
    intro same
    rw [← same, rootFound] at found
    cases found
  have old : 0 ≠ core.chainsStorage.length :=
    Nat.ne_of_lt (index_lt rootFound)
  refine ⟨root, ?_, sound.rooted root rootFound⟩
  rw [lookup, if_neg notHere, if_neg old, rootFound]
  by_cases isChild : 0 ∈ cache.children
  · simp [isChild, setParent]
  · simp [isChild]

theorem splitOutcome_database (sound : core.Sound primitives) {cache : DatabaseBlockchainCache}
    (found : core.chainsStorage[ptr]? = some (.database cache)) (childless : cache.children = [])
    (positive : 0 < splitBlockIndex) (inside : splitBlockIndex < cache.blocks.length)
    {middle : Core} (ran : core.splitSegment primitives ptr splitBlockIndex = some middle) :
    ∃ lower, SplitOutcome primitives core ptr (.database cache) splitBlockIndex middle
      (.database lower) ∧ lower.entries = cache.entries.take splitBlockIndex ∧
      lower.children = [core.chainsStorage.length] := by
  obtain ⟨atRoot, -⟩ := sound.tree.root_of_no_parent (tree_found found) rfl
  subst atRoot
  have rooted := sound.rooted cache found
  obtain ⟨upper, lower, isUpper, isLower, rfl⟩ := splitSegment_database found ran
  obtain ⟨blocks, parent, start, children⟩ := replayUpper_eq_some
    (sound.tree.linked (tree_found found)) rooted.genesis positive inside isUpper
  obtain ⟨lowerBlocks, lowerChildren, -⟩ := deleteUpper_eq_some isLower
  have lowerEntries := entries_of_take lowerBlocks
  have here := index_lt found
  have lowerFound : (core.chainsStorage.set 0 (database lower)
      ++ [memory upper])[0]? = some (.database lower) := by
    rw [getElem?_append_left (by simpa using here), getElem?_set_self here]
  refine ⟨lower, ?_, lowerEntries, by rw [lowerChildren, childless]; rfl⟩
  exact {
    tree := by
      refine (databaseSplit_tree lowerEntries lowerChildren blocks parent start children).trans ?_
      rw [cut_childless childless]
      simp [Segment.toNode, Segment.entries, Segment.getStartBlockIndex, childless]
    leaves := (if_pos childless).symm
    storage := rfl
    found := lowerFound
    root := ⟨lower, lowerFound, rooted.lower positive (Nat.le_of_lt inside) isLower⟩ }

section Split
variable {accepted : AcceptedBlock} {below : BlockEntry} {middle : Core}

theorem ParentEntry.splitPosition (parent : ParentEntry primitives segment accepted below)
    (inside : segment.getTopBlockIndex ≠ accepted.previousBlockIndex) :
    0 < accepted.previousBlockIndex + 1 - segment.getStartBlockIndex ∧
      accepted.previousBlockIndex + 1 - segment.getStartBlockIndex < segment.entries.length := by
  have present := index_lt parent.entry
  have above := parent.above
  unfold Segment.getTopBlockIndex Segment.getBlockCount at inside
  omega

section
variable (sound : core.Sound primitives) (found : core.chainsStorage[ptr]? = some segment)
  (parent : ParentEntry primitives segment accepted below)
  (inside : segment.getTopBlockIndex ≠ accepted.previousBlockIndex)
include sound found parent inside

theorem splitOutcome (clean : segment.SplitsCleanly)
    (ran : core.splitSegment primitives ptr (accepted.previousBlockIndex + 1) = some middle) :
    ∃ lower, SplitOutcome primitives core ptr segment (accepted.previousBlockIndex + 1) middle
      lower := by
  have position := parent.splitPosition inside
  cases segment with
  | database cache =>
    obtain ⟨lower, outcome, -⟩ := splitOutcome_database sound found clean (Nat.succ_pos _)
      (by simpa [Segment.entries, Segment.getStartBlockIndex] using position.2) ran
    exact ⟨_, outcome⟩
  | memory cache =>
    exact ⟨_, splitOutcome_memory sound found (Nat.le_succ_of_le parent.above) ran⟩

theorem SplitOutcome.lower {lower : Segment}
    (outcome : SplitOutcome primitives core ptr segment (accepted.previousBlockIndex + 1) middle
      lower) :
    lower.children = [core.chainsStorage.length] ∧
      lower.getTopBlockIndex = accepted.previousBlockIndex ∧
      ParentEntry primitives lower accepted below := by
  have position := parent.splitPosition inside
  have present := tree_found outcome.found
  rw [outcome.tree, cut_lookup (tree_found found)
    (sound.tree.not_own_child (tree_found found)), if_pos rfl] at present
  have node := (Option.some.inj present).symm
  have children : lower.children = [core.tree.length] := congrArg SegmentTree.Node.children node
  have start : lower.getStartBlockIndex = segment.getStartBlockIndex :=
    congrArg SegmentTree.Node.startIndex node
  have entries : lower.entries = segment.entries.take
      (accepted.previousBlockIndex + 1 - segment.getStartBlockIndex) :=
    congrArg SegmentTree.Node.items node
  rw [tree_length] at children
  have above := parent.above
  refine ⟨children, ?_, ?_, ?_, parent.index, parent.recorded⟩
  · unfold Segment.getTopBlockIndex Segment.getBlockCount
    rw [start, entries, length_take]
    omega
  · rw [start]
    exact above
  · rw [start, entries, getElem?_take, if_pos (by omega)]
    exact parent.entry

theorem Sound.split {lower : Segment}
    (outcome : SplitOutcome primitives core ptr segment (accepted.previousBlockIndex + 1) middle
      lower) :
    middle.updateMainChainSet.Sound primitives := by
  have position := parent.splitPosition inside
  obtain ⟨cache, rootFound, rooted⟩ := outcome.root
  obtain ⟨mainPtr, isMain, -⟩ := sound.mainChain
  have nonempty : middle.chainsLeaves ≠ [] := by
    rw [outcome.leaves]
    unfold leavesAfterSplit
    have : core.chainsLeaves ≠ [] := by
      intro empty
      simp [empty] at isMain
    split
    · simpa using this
    · exact this
  obtain ⟨head, isHead⟩ : ∃ head, middle.chainsLeaves.head? = some head :=
    ⟨_, head?_eq_some_head nonempty⟩
  refine ⟨TreeSound.of_updated ?_ ⟨cache, rootFound⟩ ?_ isHead, ?_⟩
  · rw [outcome.tree]
    exact sound.tree.cut (tree_found found) position.1 position.2
  · rw [outcome.tree, outcome.leaves]
    unfold leavesAfterSplit
    split
    · rename_i childless
      rw [← tree_length]
      exact sound.leaves.cut_leaf sound.tree (tree_found found) childless
    · rename_i branched
      exact sound.leaves.cut_branched sound.tree (tree_found found) branched
  · intro cache' rootFound'
    have same : database cache' = database cache :=
      Option.some.inj (rootFound'.symm.trans rootFound)
    cases same
    exact rooted

end
end Split

theorem forkSegment_updateMainChainSet (core : Core) (ptr : SegmentPtr) (accepted : AcceptedBlock) :
    core.updateMainChainSet.forkSegment primitives ptr accepted
      = core.forkSegment primitives ptr accepted := by
  unfold forkSegment pushBlock
  simp only [bind_eq_bind, bind_assoc, bind_some]
  rfl

/-! ### A switch -/

theorem swap_perm (member : ptr ∈ leaves) :
    (ptr :: leaves.set (leaves.idxOf ptr) main).Perm (main :: leaves) := by
  induction leaves with
  | nil => cases member
  | cons head tail ih =>
    by_cases same : head = ptr
    · subst same
      rw [idxOf_cons_self, set_cons_zero]
      exact .swap main head tail
    · have inTail : ptr ∈ tail := (mem_cons.mp member).resolve_left (Ne.symm same)
      rw [idxOf_cons_ne tail same, set_cons_succ]
      calc
        (ptr :: head :: tail.set (tail.idxOf ptr) main).Perm
            (head :: ptr :: tail.set (tail.idxOf ptr) main) := .swap head ptr _
        _ |>.Perm (head :: main :: tail) := (ih inTail).cons head
        _ |>.Perm (main :: head :: tail) := .swap main head tail

theorem switched_leaves
    (isMain : leaves.head? = some main) (notMain : main ≠ ptr) (member : ptr ∈ leaves) :
    ((leaves.set 0 ptr).set (leaves.idxOf ptr) main).Perm leaves ∧
      ((leaves.set 0 ptr).set (leaves.idxOf ptr) main).head? = some ptr := by
  cases leaves with
  | nil => cases isMain
  | cons head tail =>
    cases isMain
    have inTail : ptr ∈ tail := (mem_cons.mp member).resolve_left (Ne.symm notMain)
    rw [idxOf_cons_ne tail notMain, set_cons_zero, set_cons_succ]
    exact ⟨swap_perm inTail, rfl⟩

theorem switchMainChainStorage_eq_ok
    (ran : core.switchMainChainStorage splitBlockIndex ptr = .ok result) :
    ∃ storage, result = { core with mainChainStorage := storage } := by
  obtain ⟨-, ran⟩ := Checked.rejectIf_bind_eq_ok.mp ran
  obtain ⟨segment, -, ran⟩ := Checked.bind_eq_ok.mp ran
  obtain ⟨blocks, -, ran⟩ := Checked.bind_eq_ok.mp ran
  cases ran
  exact ⟨_, rfl⟩

theorem Sound.switch (sound : core.Sound primitives)
    (found : core.chainsStorage[ptr]? = some segment) (childless : segment.children = [])
    (parent : ParentEntry primitives segment accepted below)
    (onTop : segment.getTopBlockIndex = accepted.previousBlockIndex)
    (pushed : segment.pushBlock primitives parents accepted.pushed = some grown)
    {mainPtr : SegmentPtr} (isMain : core.chainsLeaves.head? = some mainPtr)
    (notMain : mainPtr ≠ ptr) (storage : List RawBlock) :
    Sound primitives (updateMainChainSet
      { chainsStorage := core.chainsStorage.set ptr grown
        chainsLeaves := (core.chainsLeaves.set 0 ptr).set (core.chainsLeaves.idxOf ptr) mainPtr
        mainChainSet := core.mainChainSet
        mainChainStorage := storage }) := by
  have member : ptr ∈ core.chainsLeaves :=
    (sound.leaves.mem_iff ptr).mpr ⟨_, tree_found found, childless⟩
  obtain ⟨perm, isHead⟩ := switched_leaves isMain notMain member
  refine sound.push found childless parent onTop pushed perm ⟨ptr, isHead, ?_⟩
  intro other
  obtain ⟨above, items, line, -⟩ := sound.toTreeSound.stacked found
  rw [getParent_eq, ← line.mem_iff, ← line.path_eq sound.tree,
    ← path_extend (tree_found found), ← pushed_tree ptr (parent.isLast onTop) pushed]
  simp only [isHead, elim_some, ancestry_eq]
  rfl

theorem Placement.sound {code : ErrorCode} (sound : core.Sound primitives)
    (found : core.chainsStorage[ptr]? = some segment)
    (parent : ParentEntry primitives segment accepted below)
    (clean : segment.getTopBlockIndex ≠ accepted.previousBlockIndex → segment.SplitsCleanly)
    (placement : Placement primitives core ptr segment accepted code result) :
    result.Sound primitives := by
  cases placement with
  | main onTop childless isMain pushed =>
    exact sound.push found childless parent onTop pushed (List.Perm.refl _) sound.mainChain
  | alternative onTop childless isMain notMain mainFound pushed notHeavier =>
    exact sound.push found childless parent onTop pushed (List.Perm.refl _) sound.mainChain
  | switched onTop childless isMain notMain mainFound pushed heavier isMiddle switched =>
    obtain ⟨storage, rfl⟩ := switchMainChainStorage_eq_ok switched
    rw [isMiddle]
    exact sound.switch found childless parent onTop pushed isMain notMain storage
  | forked onTop branched forked =>
    exact (sound.fork found branched parent onTop forked).1
  | split inside split forked =>
    obtain ⟨lower, outcome⟩ := splitOutcome sound found parent inside (clean inside) split
    obtain ⟨children, onTop, parent'⟩ := outcome.lower sound found parent inside
    rw [← forkSegment_updateMainChainSet] at forked
    exact ((sound.split found parent inside outcome).fork outcome.found
      (by rw [children]; exact cons_ne_nil _ _) parent' onTop forked).1

end Core
end Mevacoin
