/-
Tables that a segment keeps about its blocks. Placing a block keeps a specification
in every segment as soon as a push and the splits keep it in the segment they
change.
-/

import Mevacoin.Core.Chains

namespace Mevacoin
open List Nat DatabaseBlockchainCache Segment BlockchainCache

variable {middle : Core} {lower : Segment} {upper : BlockchainCache} {accepted : AcceptedBlock}

/-- What a segment's tables hold, given the blocks below the segment. -/
abbrev TableSpec := List BlockEntry → Segment → Prop

/-- A segment followed by its ancestors, with all their blocks from the root upwards; the
tables of each are as specified. -/
inductive TabledStack (spec : TableSpec) : List Segment → List BlockEntry → Prop where
  | database {cache : DatabaseBlockchainCache} (holds : spec [] (.database cache)) :
      TabledStack spec [.database cache] cache.entries
  | memory {parents : List Segment} {below : List BlockEntry} {cache : BlockchainCache}
      (stack : TabledStack spec parents below) (start : cache.startIndex = below.length)
      (holds : spec below (.memory cache)) :
      TabledStack spec (.memory cache :: parents) (below ++ cache.blocks)

theorem TabledStack.stacked {spec : TableSpec} {segments : List Segment}
    {chain : List BlockEntry} (stack : TabledStack spec segments chain) :
    Stacked segments chain := by
  induction stack with
  | database _ => exact .database _
  | memory _ start _ ih => exact .memory ih start

theorem TabledStack.cons_addChild {spec : TableSpec} {segment : Segment} {parents : List Segment}
    {chain : List BlockEntry} {child : SegmentPtr}
    (stack : TabledStack spec (segment :: parents) chain)
    (closed : ∀ {below : List BlockEntry}, spec below segment →
      spec below (segment.addChild child)) :
    TabledStack spec (segment.addChild child :: parents) chain := by
  cases stack with
  | database holds => exact .database (closed holds)
  | memory stack start holds => exact .memory stack start (closed holds)

section Halves
variable {below : List BlockEntry} {cache : BlockchainCache} {splitBlockIndex : Nat}
  (start : cache.startIndex = below.length) (above : below.length ≤ splitBlockIndex)

include start above

theorem BlockchainCache.splitLower_chain (upper : SegmentPtr) :
    below ++ (cache.splitLower splitBlockIndex upper).blocks
      = (below ++ cache.blocks).take splitBlockIndex := by
  change below ++ cache.blocks.take (splitBlockIndex - cache.startIndex) = _
  rw [take_append, take_of_length_le above, start]

theorem BlockchainCache.splitUpper_chain (self : SegmentPtr) :
    (below ++ cache.blocks).take splitBlockIndex ++ (cache.splitUpper splitBlockIndex self).blocks
      = below ++ cache.blocks := by
  have upper : (cache.splitUpper splitBlockIndex self).blocks
      = (below ++ cache.blocks).drop splitBlockIndex := by
    change cache.blocks.drop (splitBlockIndex - cache.startIndex) = _
    rw [drop_append, drop_eq_nil_of_le above, nil_append, start]
  rw [upper, take_append_drop]

end Halves

/-- The changes of a segment other than a push: its links are set, it starts out empty, or
it is divided into two halves. -/
structure TableSpec.Closed (spec : TableSpec) : Prop where
  addChild : ∀ {below : List BlockEntry} {segment : Segment} (child : SegmentPtr),
    spec below segment → spec below (segment.addChild child)
  setParent : ∀ {below : List BlockEntry} {segment : Segment} (parent : SegmentPtr),
    spec below segment → spec below (segment.setParent parent)
  create : ∀ (below : List BlockEntry) (parent : SegmentPtr),
    spec below (.memory (BlockchainCache.create parent below.length))
  lower : ∀ {below : List BlockEntry} {cache : BlockchainCache} (splitBlockIndex : Nat)
    (upper : SegmentPtr), cache.startIndex = below.length → below.length ≤ splitBlockIndex →
    spec below (.memory cache) → spec below (.memory (cache.splitLower splitBlockIndex upper))
  upper : ∀ {below : List BlockEntry} {cache : BlockchainCache} (splitBlockIndex : Nat)
    (self : SegmentPtr), cache.startIndex = below.length → below.length ≤ splitBlockIndex →
    splitBlockIndex ≤ below.length + cache.blocks.length →
    spec below (.memory cache) →
    spec ((below ++ cache.blocks).take splitBlockIndex)
      (.memory (cache.splitUpper splitBlockIndex self))

namespace Core
variable {primitives : Primitives} {core result : Core} {ptr : SegmentPtr} {segment : Segment}
  {link : BlockEntry → BlockEntry → Prop} {spec : TableSpec}

def Tabled (spec : TableSpec) (core : Core) : Prop :=
  ∀ ptr segment, core.chainsStorage[ptr]? = some segment →
    spec ((core.chain ptr).take segment.getStartBlockIndex) segment

open SegmentTree (Line)

private theorem tabledStack_of_line (sound : core.TreeSound link) (tabled : core.Tabled spec)
    {above : List SegmentPtr} {items : List BlockEntry} (line : Line core.tree ptr above items) :
    TabledStack spec (above.filterMap fun ptr => core.chainsStorage[ptr]?) items := by
  have isChain := chain_eq sound line
  induction line with
  | root found top =>
    obtain ⟨rfl, -⟩ := sound.tree.root_of_no_parent found top
    obtain ⟨cache, rootFound⟩ := sound.root
    rw [tree_found rootFound] at found
    cases found
    simp only [filterMap_cons, filterMap_nil, rootFound]
    exact .database (tabled _ _ rootFound)
  | child found parent line start ih =>
    obtain ⟨segment, segmentFound, rfl⟩ := segment_found found
    obtain ⟨cache, rfl, -⟩ := TreeSound.memory_of_parent segmentFound parent
    have holds := tabled _ _ segmentFound
    rw [isChain] at holds
    change spec (List.take (memory cache).toNode.startIndex _) _ at holds
    rw [← start, take_left] at holds
    simp only [filterMap_cons, segmentFound]
    exact .memory (ih (chain_eq sound line)) start.symm holds

theorem Tabled.stack (tabled : core.Tabled spec) (sound : core.TreeSound link)
    (found : core.chainsStorage[ptr]? = some segment) :
    TabledStack spec (core.lineage ptr) (core.chain ptr) := by
  obtain ⟨above, line⟩ := exists_line sound found
  have isPath : core.ancestry ptr = above := by
    rw [ancestry_eq, line.path_eq sound.tree]
  unfold lineage
  rw [isPath]
  exact tabledStack_of_line sound tabled line

theorem Tabled.push (tabled : core.Tabled spec) (sound : core.TreeSound link)
    (resultSound : result.TreeSound link) (found : core.chainsStorage[ptr]? = some segment)
    (childless : segment.children = []) {entry : BlockEntry} {grown : Segment}
    (tree : result.tree = SegmentTree.extend core.tree ptr segment.toNode entry)
    (segments : result.chainsStorage = core.chainsStorage.set ptr grown)
    (start : grown.getStartBlockIndex = segment.getStartBlockIndex)
    (holds : spec ((core.chain ptr).take segment.getStartBlockIndex) grown) :
    result.Tabled spec := by
  intro other otherSegment otherFound
  rw [segments] at otherFound
  by_cases same : other = ptr
  · subst same
    rw [set_found found] at otherFound
    cases otherFound
    have length := chain_length sound found
    rw [start, (chains_of_push sound resultSound found childless tree).1,
      take_append_of_le_length (by omega)]
    exact holds
  · rw [getElem?_set_ne (Ne.symm same)] at otherFound
    rw [chain_of_push sound resultSound found childless tree otherFound same]
    exact tabled other otherSegment otherFound

theorem Tabled.fork (tabled : core.Tabled spec) (closed : spec.Closed) (sound : core.TreeSound link)
    {grown : BlockchainCache} (resultSound : (core.withFork ptr segment grown).TreeSound link)
    (found : core.chainsStorage[ptr]? = some segment)
    (tree : (core.withFork ptr segment grown).tree
      = SegmentTree.fork core.tree ptr segment.toNode grown.blocks)
    (start : grown.startIndex = (core.chain ptr).length)
    (holds : spec (core.chain ptr) (.memory grown)) :
    (core.withFork ptr segment grown).Tabled spec := by
  intro other otherSegment otherFound
  have segments : (core.withFork ptr segment grown).chainsStorage
      = core.chainsStorage.set ptr (segment.addChild core.chainsStorage.length)
        ++ [.memory grown] := rfl
  by_cases old : other < core.chainsStorage.length
  · by_cases same : other = ptr
    · subst same
      rw [withFork_self found] at otherFound
      cases otherFound
      rw [addChild_getStartBlockIndex, chain_of_fork sound resultSound found tree found]
      exact closed.addChild _ (tabled other segment found)
    · rw [withFork_other (Ne.symm same) old] at otherFound
      rw [chain_of_fork sound resultSound found tree otherFound]
      exact tabled other otherSegment otherFound
  · have bound := index_lt otherFound
    rw [segments, length_append, length_set, length_singleton] at bound
    have atEnd : other = core.chainsStorage.length :=
      Nat.le_antisymm (Nat.le_of_lt_succ bound) (Nat.le_of_not_lt old)
    subst atEnd
    rw [segments, getElem?_append_right (by simp)] at otherFound
    simp only [length_set, Nat.sub_self, getElem?_cons_zero, Option.some.injEq]
      at otherFound
    subst otherFound
    rw [chain_of_fork_new sound resultSound found tree]
    change spec (List.take grown.startIndex _) _
    rw [start, take_left]
    exact holds

/-! ### A split -/

theorem setParent_start (segment : Segment) (parent : SegmentPtr) :
    (segment.setParent parent).getStartBlockIndex = segment.getStartBlockIndex := by
  cases segment <;> rfl

/-- The segments after a split: two halves, and the others with at most a new parent. -/
structure SplitSegments (core middle : Core) (ptr : SegmentPtr) (lower : Segment)
    (upper : BlockchainCache) : Prop where
  lower : middle.chainsStorage[ptr]? = some lower
  upper : middle.chainsStorage[core.chainsStorage.length]? = some (.memory upper)
  others : ∀ other segment, other ≠ ptr → other ≠ core.chainsStorage.length →
    middle.chainsStorage[other]? = some segment →
    ∃ before, core.chainsStorage[other]? = some before ∧
      (segment = before ∨ ∃ parent, segment = before.setParent parent)

theorem SplitSegments.updateMainChainSet (segments : SplitSegments core middle ptr lower upper) :
    SplitSegments core middle.updateMainChainSet ptr lower upper where
  lower := segments.lower
  upper := segments.upper
  others := segments.others

theorem Tabled.split {splitBlockIndex : Nat} (tabled : core.Tabled spec) (closed : spec.Closed)
    (chains : SplitChains core middle ptr splitBlockIndex)
    (segments : SplitSegments core middle ptr lower upper)
    (lowerStart : lower.getStartBlockIndex ≤ splitBlockIndex)
    (upperStart : upper.startIndex = splitBlockIndex)
    (lowerHolds : spec ((core.chain ptr).take lower.getStartBlockIndex) lower)
    (upperHolds : spec ((core.chain ptr).take splitBlockIndex) (.memory upper)) :
    middle.Tabled spec := by
  intro other otherSegment otherFound
  by_cases atLower : other = ptr
  · subst atLower
    rw [segments.lower] at otherFound
    cases otherFound
    rw [chains.lower, take_take, min_eq_left lowerStart]
    exact lowerHolds
  · by_cases atUpper : other = core.chainsStorage.length
    · subst atUpper
      rw [segments.upper] at otherFound
      cases otherFound
      rw [chains.upper]
      change spec (List.take upper.startIndex _) _
      rw [upperStart]
      exact upperHolds
    · obtain ⟨before, beforeFound, same⟩ := segments.others other otherSegment atLower atUpper
        otherFound
      rw [chains.others other before beforeFound atLower]
      have holds := tabled other before beforeFound
      rcases same with rfl | ⟨parent, rfl⟩
      · exact holds
      · rw [setParent_start]
        exact closed.setParent parent holds

theorem splitSegments_memory (sound : core.TreeSound link) {cache : BlockchainCache}
    (found : core.chainsStorage[ptr]? = some (.memory cache)) (splitBlockIndex : Nat) :
    SplitSegments core (core.withSplit ptr cache splitBlockIndex) ptr
      (.memory (cache.splitLower splitBlockIndex core.chainsStorage.length))
      (cache.splitUpper splitBlockIndex ptr) where
  lower := by rw [withSplit_lookup sound found, if_pos rfl]
  upper := by
    have inside := index_lt found
    rw [withSplit_lookup sound found, if_neg (ne_of_gt inside), if_pos rfl]
  others := by
    intro other segment notLower notUpper otherFound
    rw [withSplit_lookup sound found, if_neg notLower, if_neg notUpper] at otherFound
    obtain ⟨before, beforeFound, same⟩ := Option.map_eq_some_iff.mp otherFound
    refine ⟨before, beforeFound, ?_⟩
    split at same
    · exact .inr ⟨_, same.symm⟩
    · exact .inl same.symm

theorem splitSegments_database {cache lower : DatabaseBlockchainCache}
    {leaves : List SegmentPtr} (found : core.chainsStorage[ptr]? = some (.database cache)) :
    SplitSegments core
      { core with
        chainsStorage := core.chainsStorage.set ptr (.database lower) ++ [.memory upper]
        chainsLeaves := leaves }
      ptr (.database lower) upper where
  lower := by
    have inside := index_lt found
    rw [getElem?_append_left (by simpa using inside), getElem?_set_self inside]
  upper := by simp
  others := by
    intro other segment notLower notUpper otherFound
    refine ⟨segment, ?_, .inl rfl⟩
    have bound := index_lt otherFound
    have old : other < core.chainsStorage.length := by
      rw [length_append, length_set, length_singleton] at bound
      exact lt_of_le_of_ne (le_of_lt_succ bound) notUpper
    rwa [getElem?_append_left (by simpa using old), getElem?_set_ne (Ne.symm notLower)]
      at otherFound

/-! ### Placements -/

theorem lineage_cons (found : core.chainsStorage[ptr]? = some segment) :
    core.lineage ptr = segment :: (core.lineage ptr).tail := by
  have head := lineage_head found
  cases lineage : core.lineage ptr with
  | nil => simp [lineage] at head
  | cons first rest =>
    rw [lineage] at head
    cases head
    rfl

theorem chain_eq_append (sound : core.TreeSound link)
    (found : core.chainsStorage[ptr]? = some segment) :
    core.chain ptr = (core.chain ptr).take segment.getStartBlockIndex ++ segment.entries := by
  obtain ⟨above, line⟩ := exists_line sound found
  apply ext_getElem?
  intro index
  have length := chain_length sound found
  have start : ((core.chain ptr).take segment.getStartBlockIndex).length
      = segment.getStartBlockIndex := by
    rw [length_take]
    omega
  rw [getElem?_append, start]
  split
  · rename_i lower
    rw [getElem?_take_of_lt lower]
  · rw [← chain_getElem? line sound found]
    congr 1
    omega

/-- A push onto any segment that ends the given chain keeps its tables. -/
def PushKeeps (spec : TableSpec) (primitives : Primitives) (chain : List BlockEntry)
    (pushed : PushedBlock) : Prop :=
  ∀ segment parents grown, TabledStack spec (segment :: parents) chain →
    segment.pushBlock primitives parents pushed = some grown →
    spec (chain.take segment.getStartBlockIndex) grown

section
variable (tabled : core.Tabled spec) (closed : spec.Closed) (sound : core.Sound primitives)
  (found : core.chainsStorage[ptr]? = some segment)
include tabled closed sound found

theorem Tabled.forkSegment {below : BlockEntry}
    (branched : segment.children ≠ []) (parent : ParentEntry primitives segment accepted below)
    (onTop : segment.getTopBlockIndex = accepted.previousBlockIndex)
    (push : PushKeeps spec primitives (core.chain ptr) accepted.pushed)
    (ran : core.forkSegment primitives ptr accepted = some result) : result.Tabled spec := by
  have start := parent.next onTop
  have length := chain_length sound.toTreeSound found
  obtain ⟨resultSound, tree, -⟩ := sound.fork found branched parent onTop ran
  obtain ⟨grown, rfl, isPushed, blocks, -, grownStart, -⟩ :=
    forkSegment_eq_some sound.toTreeSound found (parent.isLast onTop) start parent.index ran
  rw [← blocks] at tree
  have stack := tabled.stack sound.toTreeSound found
  rw [lineage_cons found] at stack
  have empty : create ptr (accepted.previousBlockIndex + 1)
      = create ptr (core.chain ptr).length := by rw [start, length]
  have created : TabledStack spec
      (.memory (create ptr (accepted.previousBlockIndex + 1))
        :: segment.addChild core.chainsStorage.length :: (core.lineage ptr).tail)
      (core.chain ptr ++ []) := by
    rw [empty]
    exact .memory (stack.cons_addChild (closed.addChild _)) rfl (closed.create _ _)
  rw [append_nil] at created
  have holds := push _ _ (.memory grown) created (by simp [Segment.pushBlock, isPushed])
  change spec (List.take (accepted.previousBlockIndex + 1) _) _ at holds
  rw [start, ← length, take_length] at holds
  exact tabled.fork closed sound.toTreeSound resultSound.toTreeSound found tree
    (by rw [grownStart, start, length]) holds

def RootSplitKeeps (spec : TableSpec) (primitives : Primitives) (segment : Segment)
    (splitBlockIndex : Nat) : Prop :=
  ∀ cache lower upper self fresh, segment = .database cache →
    splitBlockIndex < cache.blocks.length →
    cache.replayUpper primitives splitBlockIndex self = some upper →
    cache.deleteUpper splitBlockIndex fresh = some lower →
    spec [] (.database lower) ∧ spec (cache.entries.take splitBlockIndex) (.memory upper)

theorem Tabled.splitSegment {below : BlockEntry}
    (parent : ParentEntry primitives segment accepted below)
    (inside : segment.getTopBlockIndex ≠ accepted.previousBlockIndex)
    (outcome : SplitOutcome primitives core ptr segment (accepted.previousBlockIndex + 1) middle
      lower) (rootSplit : RootSplitKeeps spec primitives segment (accepted.previousBlockIndex + 1))
    (ran : core.splitSegment primitives ptr (accepted.previousBlockIndex + 1) = some middle) :
    middle.updateMainChainSet.Tabled spec := by
  have middleSound := sound.split found parent inside outcome
  have chains := splitChains sound middleSound found parent inside outcome
  have position := parent.splitPosition inside
  have above := parent.above
  have length := chain_length sound.toTreeSound found
  have whole := chain_eq_append sound.toTreeSound found
  have holds := tabled ptr segment found
  generalize (core.chain ptr).take segment.getStartBlockIndex = under at whole holds
  have underLength : under.length = segment.getStartBlockIndex := by
    rw [whole, length_append] at length
    omega
  cases segment with
  | memory cache =>
    cases splitSegment_memory found ran
    have start : cache.startIndex = under.length := underLength.symm
    have cutInside : accepted.previousBlockIndex + 1 ≤ under.length + cache.blocks.length := by
      have : accepted.previousBlockIndex + 1 - cache.startIndex < cache.blocks.length :=
        position.2
      omega
    refine Tabled.split tabled closed chains
      (splitSegments_memory sound.toTreeSound found _).updateMainChainSet
      (le_succ_of_le above) rfl ?_ ?_
    · change spec (List.take cache.startIndex _) _
      rw [whole, start, take_left]
      exact closed.lower _ _ start (by omega) holds
    · rw [whole]
      exact closed.upper _ _ start (by omega) cutInside holds
  | database cache =>
    obtain ⟨upper, lower, isUpper, isLower, rfl⟩ := splitSegment_database found ran
    have inDatabase : accepted.previousBlockIndex + 1 < cache.blocks.length := by
      rw [← entries_length]
      exact position.2
    obtain ⟨lowerHolds, upperHolds⟩ :=
      rootSplit cache lower upper _ _ rfl inDatabase isUpper isLower
    have empty : under = [] := length_eq_zero_iff.mp underLength
    have whole' : core.chain ptr = cache.entries := by rw [whole, empty]; rfl
    obtain ⟨-, -, upperStart, -⟩ := replayUpper_eq_some
      (sound.tree.linked (tree_found found)) (sound.rooted_of_found found).genesis
      (succ_pos _) inDatabase isUpper
    refine Tabled.split tabled closed chains
      (splitSegments_database found).updateMainChainSet (zero_le _) upperStart ?_ ?_
    · exact lowerHolds
    · rw [whole']
      exact upperHolds

end

theorem Placement.tabled {environment : Environment} {now : UInt64} {rawBlock : RawBlock}
    {data : AcceptanceData} {below : BlockEntry} {code : ErrorCode} (tabled : core.Tabled spec)
    (closed : spec.Closed) (sound : core.Sound environment.primitives)
    (extension : Extension environment now core rawBlock ptr segment accepted data below)
    (clean : segment.getTopBlockIndex ≠ accepted.previousBlockIndex → segment.SplitsCleanly)
    (push : PushKeeps spec environment.primitives (core.ancestors ptr accepted) accepted.pushed)
    (rootSplit : RootSplitKeeps spec environment.primitives segment
      (accepted.previousBlockIndex + 1))
    (placement : Placement environment.primitives core ptr segment accepted code result) :
    result.Tabled spec := by
  have found := extension.found
  have parent := extension.parent
  have treeSound := sound.toTreeSound
  have resultSound := placement.sound sound found parent clean
  -- the three placements on top of a leaf differ in the leaf list and the storage only
  have grow : ∀ {grown : Segment} {result : Core},
      segment.getTopBlockIndex = accepted.previousBlockIndex → segment.children = [] →
      segment.pushBlock environment.primitives (core.lineage ptr).tail accepted.pushed
        = some grown →
      result.Sound environment.primitives →
      result.chainsStorage = core.chainsStorage.set ptr grown → result.Tabled spec := by
    intro grown result onTop childless pushed resultSound segments
    have isLast := parent.isLast onTop
    have stack := tabled.stack treeSound found
    rw [lineage_cons found] at stack
    rw [ancestors_of_onTop treeSound found onTop] at push
    have isTree : result.tree = _ :=
      (congrArg (List.map toNode) segments).trans (pushed_tree ptr isLast pushed)
    exact tabled.push treeSound resultSound.toTreeSound found childless isTree segments
      (Segment.pushBlock_eq_some isLast pushed).2.2.1 (push _ _ _ stack pushed)
  cases placement with
  | main onTop childless _ pushed => exact grow onTop childless pushed resultSound rfl
  | alternative onTop childless _ _ _ pushed _ =>
    exact grow onTop childless pushed resultSound rfl
  | switched onTop childless _ _ _ pushed _ isMiddle switched =>
    obtain ⟨storage, rfl⟩ := switchMainChainStorage_eq_ok switched
    subst isMiddle
    exact grow onTop childless pushed resultSound rfl
  | forked onTop branched forked =>
    rw [ancestors_of_onTop treeSound found onTop] at push
    exact tabled.forkSegment closed sound found branched parent onTop push forked
  | split inside split forked =>
    obtain ⟨lower, outcome⟩ := splitOutcome sound found parent inside (clean inside) split
    obtain ⟨children, onTop, parent'⟩ := outcome.lower sound found parent inside
    have middleSound := sound.split found parent inside outcome
    have middleTabled := tabled.splitSegment closed sound found parent inside outcome rootSplit
      split
    have chains := splitChains sound middleSound found parent inside outcome
    rw [← forkSegment_updateMainChainSet] at forked
    refine middleTabled.forkSegment closed middleSound outcome.found
      (by rw [children]; exact cons_ne_nil _ _) parent' onTop ?_ forked
    rw [chains.lower]
    exact push

end Core
end Mevacoin
