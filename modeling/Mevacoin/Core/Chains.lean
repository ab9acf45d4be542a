/-
The core seen as a list of chains, one for each leaf, with the main chain first.
Placing a block extends a chain, exchanges the main chain for an extended one, or
adds a chain that branches off.
-/

import Mevacoin.Core.Step

namespace Mevacoin
open List SegmentTree Segment
open SegmentTree (Leaves Line)

variable {leaves : List SegmentPtr} {entry : BlockEntry}

def chainWork (chain : List BlockEntry) : UInt64 :=
  (chain.getLast?.map fun entry => entry.info.cumulativeDifficulty).getD 0

namespace Core
variable {primitives : Primitives} {core result : Core} {ptr : SegmentPtr} {segment : Segment}
  {link : BlockEntry → BlockEntry → Prop}

def chain (core : Core) (ptr : SegmentPtr) : List BlockEntry :=
  (core.lineage ptr).reverse.flatMap entries

def chains (core : Core) : List (List BlockEntry) := core.chainsLeaves.map core.chain

theorem chains_eq (core : Core) (same : core.chainsLeaves = leaves) :
    core.chains = leaves.map core.chain := by
  rw [← same]
  rfl

theorem stacked_eq {segments : List Segment} {items : List BlockEntry}
    (stacked : Stacked segments items) : segments.reverse.flatMap entries = items := by
  induction stacked with
  | database cache => simp [entries]
  | memory _ _ ih =>
    rw [reverse_cons, flatMap_append, ih]
    simp [entries]

section
variable (sound : core.TreeSound link)
include sound

theorem chain_eq {above : List SegmentPtr}
    {items : List BlockEntry} (line : Line core.tree ptr above items) :
    core.chain ptr = items := by
  obtain ⟨segment, found, -⟩ := segment_found line.found.choose_spec
  obtain ⟨above', items', line', -, stacked, -⟩ := sound.stacked found
  rw [(line.unique line').2]
  exact stacked_eq stacked

theorem exists_line (found : core.chainsStorage[ptr]? = some segment) :
    ∃ above, Line core.tree ptr above (core.chain ptr) := by
  obtain ⟨above, items, line, -⟩ := sound.stacked found
  refine ⟨above, ?_⟩
  rw [chain_eq sound line]
  exact line

theorem leaf_found (leaf : ptr ∈ core.chainsLeaves) :
    ∃ segment, core.chainsStorage[ptr]? = some segment ∧ segment.children = [] := by
  obtain ⟨node, found, childless⟩ := (sound.leaves.mem_iff ptr).mp leaf
  obtain ⟨segment, segmentFound, isNode⟩ := segment_found found
  refine ⟨segment, segmentFound, ?_⟩
  rw [← isNode] at childless
  exact childless

theorem chain_length (found : core.chainsStorage[ptr]? = some segment) :
    (core.chain ptr).length = segment.getStartBlockIndex + segment.entries.length := by
  obtain ⟨above, line⟩ := exists_line sound found
  exact line.length_eq sound.tree (tree_found found)

theorem chain_prefix_of_located {blockHash : Hash}
    (located : core.findSegmentContainingBlock blockHash = some ptr) :
    ∃ leaf ∈ core.chainsLeaves, core.chain ptr <+: core.chain leaf ∧
      (ptr ≠ leaf → (core.chain ptr).length < (core.chain leaf).length) := by
  obtain ⟨leaf, isLeaf, inChain⟩ := exists_of_findSome?_eq_some located
  obtain ⟨segment, found, -⟩ := leaf_found sound isLeaf
  obtain ⟨above, line⟩ := exists_line sound found
  have member : ptr ∈ above := by
    have onPath := mem_of_find?_eq_some inChain
    rwa [ancestry_eq, line.path_eq sound.tree] at onPath
  obtain ⟨above', items, line', isPrefix, shorter⟩ := line.exists_shorter sound.tree member
  refine ⟨leaf, isLeaf, ?_⟩
  rw [chain_eq sound line']
  exact ⟨isPrefix, shorter⟩

theorem chain_prefix_of_found (found : core.chainsStorage[ptr]? = some segment) :
    ∃ leaf ∈ core.chainsLeaves, core.chain ptr <+: core.chain leaf := by
  obtain ⟨leaf, isLeaf, above, items, line, member⟩ :=
    sound.tree.exists_leaf sound.leaves (tree_found found)
  obtain ⟨above', items', line', isPrefix, -⟩ := line.exists_shorter sound.tree member
  refine ⟨leaf, isLeaf, ?_⟩
  rw [chain_eq sound line', chain_eq sound line]
  exact isPrefix

end

/-! ### Steps of the chains -/

/-- How the chains change when a block is placed on top of its ancestors. -/
inductive ChainStep (core result : Core) (ancestors : List BlockEntry) (entry : BlockEntry) :
    ErrorCode → Prop where
  | main {others : List (List BlockEntry)}
      (before : core.chains = ancestors :: others)
      (after : result.chains = (ancestors ++ [entry]) :: others)
      (storage : result.mainChainStorage = core.mainChainStorage ++ [entry.rawBlock]) :
      ChainStep core result ancestors entry (.addBlock .addedToMain)
  | alternative {main : List BlockEntry} {left right : List (List BlockEntry)}
      (before : core.chains = main :: (left ++ ancestors :: right))
      (after : result.chains = main :: (left ++ (ancestors ++ [entry]) :: right))
      (notHeavier : chainWork (ancestors ++ [entry]) ≤ chainWork main)
      (storage : result.mainChainStorage = core.mainChainStorage) :
      ChainStep core result ancestors entry (.addBlock .addedToAlternative)
  | switched {main : List BlockEntry} {left right : List (List BlockEntry)}
      (before : core.chains = main :: (left ++ ancestors :: right))
      (after : result.chains = (ancestors ++ [entry]) :: (left ++ main :: right))
      (heavier : chainWork main < chainWork (ancestors ++ [entry])) :
      ChainStep core result ancestors entry (.addBlock .addedToAlternativeAndSwitched)
  | branched {chain : List BlockEntry}
      (member : chain ∈ core.chains) (isPrefix : ancestors <+: chain)
      (shorter : ancestors.length < chain.length)
      (after : result.chains = core.chains ++ [ancestors ++ [entry]])
      (storage : result.mainChainStorage = core.mainChainStorage) :
      ChainStep core result ancestors entry (.addBlock .addedToAlternative)

/-- A chain after a step is an old one or the new block on top of a part of an old one. -/
theorem ChainStep.mem_chains {ancestors : List BlockEntry}
    {code : ErrorCode} (step : ChainStep core result ancestors entry code)
    {chain : List BlockEntry} (member : chain ∈ result.chains) :
    chain ∈ core.chains ∨
      chain = ancestors ++ [entry] ∧ ∃ longer ∈ core.chains, ancestors <+: longer := by
  cases step with
  | main before after _ =>
    rw [after] at member
    rw [before]
    rcases mem_cons.mp member with isNew | old
    · exact .inr ⟨isNew, ancestors, mem_cons_self, prefix_refl _⟩
    · exact .inl (mem_cons_of_mem _ old)
  | alternative before after _ _ =>
    rw [after] at member
    rw [before]
    simp only [mem_cons, mem_append] at member ⊢
    rcases member with isMain | inLeft | isNew | inRight
    · exact .inl (.inl isMain)
    · exact .inl (.inr (.inl inLeft))
    · exact .inr ⟨isNew, ancestors, .inr (.inr (.inl rfl)), prefix_refl _⟩
    · exact .inl (.inr (.inr (.inr inRight)))
  | switched before after _ =>
    rw [after] at member
    rw [before]
    simp only [mem_cons, mem_append] at member ⊢
    rcases member with isNew | inLeft | isMain | inRight
    · exact .inr ⟨isNew, ancestors, .inr (.inr (.inl rfl)), prefix_refl _⟩
    · exact .inl (.inr (.inl inLeft))
    · exact .inl (.inl isMain)
    · exact .inl (.inr (.inr (.inr inRight)))
  | branched inChains isPrefix _ after _ =>
    rw [after] at member
    rcases mem_append.mp member with old | new
    · exact .inl old
    · exact .inr ⟨mem_singleton.mp new, _, inChains, isPrefix⟩

/-! ### Placements as chain steps -/

section
variable (sound : core.TreeSound link)
include sound

theorem chainWork_eq (found : core.chainsStorage[ptr]? = some segment) :
    chainWork (core.chain ptr) = segment.getCurrentCumulativeDifficulty := by
  obtain ⟨above, line⟩ := exists_line sound found
  have last : (core.chain ptr).getLast? = segment.entries.getLast? :=
    line.getLast?_eq sound.tree (tree_found found)
  unfold chainWork getCurrentCumulativeDifficulty
  rw [last]
  cases segment.entries.getLast? <;> rfl

variable (resultSound : result.TreeSound link) (found : core.chainsStorage[ptr]? = some segment)
include resultSound found

section
variable (childless : segment.children = []) (tree : result.tree = extend core.tree ptr segment.toNode entry)
include childless tree

theorem chain_of_push
    {other : SegmentPtr} {otherSegment : Segment}
    (otherFound : core.chainsStorage[other]? = some otherSegment) (different : other ≠ ptr) :
    result.chain other = core.chain other := by
  obtain ⟨above, line⟩ := exists_line sound otherFound
  have kept : Line result.tree other above (core.chain other) := by
    rw [tree]
    exact line.extend_other sound.tree (tree_found found) childless different
  exact chain_eq resultSound kept

theorem chains_of_push :
    result.chain ptr = core.chain ptr ++ [entry] ∧
      ∀ leaf ∈ core.chainsLeaves, leaf ≠ ptr → result.chain leaf = core.chain leaf := by
  constructor
  · obtain ⟨above, line⟩ := exists_line sound found
    have grown : Line result.tree ptr above (core.chain ptr ++ [entry]) := by
      rw [tree]
      exact line.extend_self sound.tree (tree_found found) childless
    exact chain_eq resultSound grown
  · intro leaf isLeaf different
    obtain ⟨leafSegment, leafFound, -⟩ := leaf_found sound isLeaf
    exact chain_of_push sound resultSound found childless tree leafFound different

end

theorem chain_of_fork {fresh : List BlockEntry}
    (tree : result.tree = fork core.tree ptr segment.toNode fresh) {other : SegmentPtr}
    {otherSegment : Segment} (otherFound : core.chainsStorage[other]? = some otherSegment) :
    result.chain other = core.chain other := by
  obtain ⟨above, line⟩ := exists_line sound otherFound
  have kept : Line result.tree other above (core.chain other) := by
    rw [tree]
    exact line.fork (tree_found found)
  exact chain_eq resultSound kept

theorem chain_of_fork_new {fresh : List BlockEntry}
    (tree : result.tree = fork core.tree ptr segment.toNode fresh) :
    result.chain core.chainsStorage.length = core.chain ptr ++ fresh := by
  obtain ⟨above, line⟩ := exists_line sound found
  have added : Line result.tree core.chainsStorage.length (core.tree.length :: above)
      (core.chain ptr ++ fresh) := by
    rw [tree, ← tree_length]
    exact line.fork_new sound.tree (tree_found found)
  exact chain_eq resultSound added

theorem chains_of_fork
    (tree : result.tree = fork core.tree ptr segment.toNode [entry])
    (leaves : result.chainsLeaves = core.chainsLeaves ++ [core.chainsStorage.length]) :
    result.chains = core.chains ++ [core.chain ptr ++ [entry]] := by
  unfold chains
  rw [leaves, map_append, map_singleton, chain_of_fork_new sound resultSound found tree]
  congr 1
  apply map_congr_left
  intro leaf isLeaf
  obtain ⟨leafSegment, leafFound, -⟩ := leaf_found sound isLeaf
  exact chain_of_fork sound resultSound found tree leafFound

end

section Split
variable {accepted : AcceptedBlock} {below : BlockEntry} {middle : Core} {lower : Segment}

/-- A split leaves every chain as it was, except that the lower half ends with the parent
of the new block. -/
structure SplitChains (core middle : Core) (ptr : SegmentPtr) (splitBlockIndex : Nat) :
    Prop where
  lower : middle.chain ptr = (core.chain ptr).take splitBlockIndex
  upper : middle.chain core.chainsStorage.length = core.chain ptr
  others : ∀ other segment, core.chainsStorage[other]? = some segment → other ≠ ptr →
    middle.chain other = core.chain other

theorem splitChains (sound : core.Sound primitives)
    (middleSound : middle.updateMainChainSet.Sound primitives)
    (found : core.chainsStorage[ptr]? = some segment)
    (parent : ParentEntry primitives segment accepted below)
    (inside : segment.getTopBlockIndex ≠ accepted.previousBlockIndex)
    (outcome : SplitOutcome primitives core ptr segment (accepted.previousBlockIndex + 1) middle
      lower) :
    SplitChains core middle.updateMainChainSet ptr (accepted.previousBlockIndex + 1) := by
  have position := parent.splitPosition inside
  have tree : middle.updateMainChainSet.tree = _ := outcome.tree
  have middleTreeSound := middleSound.toTreeSound
  obtain ⟨_, line⟩ := exists_line sound.toTreeSound found
  refine ⟨?_, ?_, ?_⟩
  · have lowerLine := line.cut_lower sound.tree (tree_found found)
      (k := accepted.previousBlockIndex + 1 - segment.getStartBlockIndex)
    rw [← tree] at lowerLine
    rw [chain_eq middleTreeSound lowerLine]
    congr 1
    change segment.getStartBlockIndex + _ = _
    omega
  · have upperLine := line.cut_upper sound.tree (tree_found found) (Nat.le_of_lt position.2)
    rw [← tree, tree_length] at upperLine
    exact chain_eq middleTreeSound upperLine
  · intro other otherSegment otherFound different
    obtain ⟨_, otherLine⟩ := exists_line sound.toTreeSound otherFound
    obtain ⟨_, keptLine⟩ := otherLine.cut_other sound.tree (tree_found found)
      (Nat.le_of_lt position.2) different
    rw [← tree] at keptLine
    exact chain_eq middleTreeSound keptLine

theorem chains_of_split (sound : core.Sound primitives)
    (found : core.chainsStorage[ptr]? = some segment)
    (outcome : SplitOutcome primitives core ptr segment (accepted.previousBlockIndex + 1) middle
      lower)
    (split : SplitChains core middle.updateMainChainSet ptr (accepted.previousBlockIndex + 1)) :
    middle.updateMainChainSet.chains = core.chains := by
  have treeSound := sound.toTreeSound
  have kept : ∀ leaf ∈ core.chainsLeaves, leaf ≠ ptr →
      middle.updateMainChainSet.chain leaf = core.chain leaf := by
    intro leaf isLeaf different
    obtain ⟨leafSegment, leafFound, -⟩ := leaf_found treeSound isLeaf
    exact split.others leaf leafSegment leafFound different
  change middle.chainsLeaves.map _ = _
  rw [outcome.leaves]
  unfold leavesAfterSplit
  split
  · exact map_set_idxOf sound.leaves.nodup (fun _ => split.upper) kept
  · rename_i branched
    apply map_congr_left
    intro leaf isLeaf
    refine kept leaf isLeaf ?_
    intro same
    subst same
    obtain ⟨leafSegment, leafFound, childless⟩ := leaf_found treeSound isLeaf
    rw [found] at leafFound
    cases leafFound
    exact branched childless

end Split

theorem leaves_around {main : SegmentPtr} (nodup : leaves.Nodup)
    (isMain : leaves.head? = some main) (notMain : main ≠ ptr) (member : ptr ∈ leaves) :
    ∃ left right, leaves = main :: (left ++ ptr :: right) ∧ ptr ∉ left ∧ ptr ∉ right ∧
      (leaves.set 0 ptr).set (leaves.idxOf ptr) main = ptr :: (left ++ main :: right) := by
  cases leaves with
  | nil => cases isMain
  | cons head tail =>
    cases isMain
    have inTail : ptr ∈ tail := (mem_cons.mp member).resolve_left (Ne.symm notMain)
    obtain ⟨left, right, rfl⟩ := append_of_mem inTail
    have tailNodup := (nodup_cons.mp nodup).2
    have apart := nodup_middle.mp tailNodup
    have absent := (nodup_cons.mp apart).1
    rw [mem_append, not_or] at absent
    refine ⟨left, right, rfl, absent.1, absent.2, ?_⟩
    rw [idxOf_cons_ne _ notMain, set_cons_zero, set_cons_succ,
      idxOf_append_of_notMem absent.1, idxOf_cons_self, Nat.add_zero,
      set_append_right _ _ (Nat.le_refl _), Nat.sub_self, set_cons_zero]

theorem map_chain_eq (absent : ptr ∉ leaves)
    (kept : ∀ leaf ∈ leaves, leaf ≠ ptr → result.chain leaf = core.chain leaf) :
    leaves.map result.chain = leaves.map core.chain := by
  apply map_congr_left
  intro leaf isLeaf
  exact kept leaf isLeaf fun same => absent (same ▸ isLeaf)

/-- Growing a leaf other than the main one: the leaves before and after an exchange of the
two, and what is left of their chains. -/
theorem chains_of_grown {main : SegmentPtr} {entry : BlockEntry} (sound : core.TreeSound link)
    (resultSound : result.TreeSound link) (found : core.chainsStorage[ptr]? = some segment)
    (childless : segment.children = [])
    (tree : result.tree = extend core.tree ptr segment.toNode entry)
    (isMain : core.chainsLeaves.head? = some main) (notMain : main ≠ ptr) :
    ∃ left right, core.chainsLeaves = main :: (left ++ ptr :: right) ∧
      (core.chainsLeaves.set 0 ptr).set (core.chainsLeaves.idxOf ptr) main
        = ptr :: (left ++ main :: right) ∧
      result.chain ptr = core.chain ptr ++ [entry] ∧ result.chain main = core.chain main ∧
      left.map result.chain = left.map core.chain ∧
      right.map result.chain = right.map core.chain := by
  obtain ⟨grown, kept⟩ := chains_of_push sound resultSound found childless tree
  have member : ptr ∈ core.chainsLeaves :=
    (sound.leaves.mem_iff ptr).mpr ⟨_, tree_found found, childless⟩
  obtain ⟨left, right, leaves, notLeft, notRight, exchanged⟩ :=
    leaves_around sound.leaves.nodup isMain notMain member
  rw [leaves, forall_mem_cons, forall_mem_append, forall_mem_cons] at kept
  exact ⟨left, right, leaves, exchanged, grown, kept.1 notMain, map_chain_eq notLeft kept.2.1,
    map_chain_eq notRight kept.2.2.2⟩

theorem map_around {β : Type} (f : SegmentPtr → β) (first second : SegmentPtr)
    (left right : List SegmentPtr) :
    (first :: (left ++ second :: right)).map f
      = f first :: (left.map f ++ f second :: right.map f) := by
  simp

def ancestors (core : Core) (ptr : SegmentPtr) (accepted : AcceptedBlock) : List BlockEntry :=
  (core.chain ptr).take (accepted.previousBlockIndex + 1)

theorem ancestors_of_onTop (sound : core.TreeSound link)
    (found : core.chainsStorage[ptr]? = some segment) {accepted : AcceptedBlock}
    (onTop : segment.getTopBlockIndex = accepted.previousBlockIndex) :
    core.ancestors ptr accepted = core.chain ptr := by
  have length := chain_length sound found
  unfold getTopBlockIndex getBlockCount at onTop
  exact take_of_length_le (by omega)

/-- A block that starts a branch has a competitor: some chain goes on above its
ancestors. -/
theorem exists_competitor (sound : core.TreeSound link) {accepted : AcceptedBlock}
    {below : BlockEntry} (found : core.chainsStorage[ptr]? = some segment)
    (parent : ParentEntry primitives segment accepted below) {blockHash : Hash}
    (located : core.findSegmentContainingBlock blockHash = some ptr)
    (branching : segment.getTopBlockIndex = accepted.previousBlockIndex → segment.children ≠ []) :
    ∃ chain ∈ core.chains, core.ancestors ptr accepted <+: chain ∧
      (core.ancestors ptr accepted).length < chain.length := by
  obtain ⟨leaf, isLeaf, chainPrefix, shorter⟩ := chain_prefix_of_located sound located
  refine ⟨core.chain leaf, mem_map_of_mem isLeaf,
    (List.take_prefix _ _).trans chainPrefix, ?_⟩
  by_cases onTop : segment.getTopBlockIndex = accepted.previousBlockIndex
  · rw [ancestors_of_onTop sound found onTop]
    apply shorter
    intro same
    obtain ⟨leafSegment, leafFound, childless⟩ := leaf_found sound isLeaf
    rw [← same, found] at leafFound
    cases leafFound
    exact branching onTop childless
  · have length := chain_length sound found
    have position := parent.splitPosition onTop
    have lower := chainPrefix.length_le
    rw [ancestors, length_take]
    omega

theorem Placement.chainStep {environment : Environment} {now : UInt64} {rawBlock : RawBlock}
    {accepted : AcceptedBlock} {data : AcceptanceData} {below : BlockEntry} {code : ErrorCode}
    (sound : core.Sound environment.primitives)
    (extension : Extension environment now core rawBlock ptr segment accepted data below)
    (clean : segment.getTopBlockIndex ≠ accepted.previousBlockIndex → segment.SplitsCleanly)
    (placement : Placement environment.primitives core ptr segment accepted code result) :
    ChainStep core result (core.ancestors ptr accepted)
      (accepted.pushed.entry environment.primitives
        (BlockchainCache.Totals.ofInfo below.info)) code := by
  have found := extension.found
  have parent := extension.parent
  have resultSound := placement.sound sound found parent clean
  have treeSound := sound.toTreeSound
  have resultTreeSound := resultSound.toTreeSound
  have competitor := exists_competitor treeSound found parent extension.located
  cases placement with
  | main onTop childless isMain pushed =>
    rw [ancestors_of_onTop treeSound found onTop]
    obtain ⟨grown, others⟩ := chains_of_push treeSound resultTreeSound found childless
      (pushed_tree ptr (parent.isLast onTop) pushed)
    obtain ⟨tail, leaves⟩ := head?_eq_some_iff.mp isMain
    have absent : ptr ∉ tail := (nodup_cons.mp (leaves ▸ sound.leaves.nodup)).1
    have kept := map_chain_eq absent fun leaf inTail =>
      others leaf (leaves ▸ mem_cons_of_mem _ inTail)
    refine .main (chains_eq _ leaves) (Eq.trans (chains_eq _ leaves) ?_) rfl
    rw [map_cons, grown, kept]
  | alternative onTop childless isMain notMain mainFound pushed notHeavier =>
    rw [ancestors_of_onTop treeSound found onTop]
    obtain ⟨left, right, leaves, -, grown, keptMain, keptLeft, keptRight⟩ :=
      chains_of_grown treeSound resultTreeSound found childless
        (pushed_tree ptr (parent.isLast onTop) pushed) isMain notMain
    refine .alternative (Eq.trans (chains_eq _ leaves) (map_around _ _ _ _ _))
      (Eq.trans (chains_eq _ leaves) ?_) ?_ rfl
    · rw [map_around, keptMain, keptLeft, keptRight, grown]
    · rw [← grown, chainWork_eq resultTreeSound (set_found found _),
        chainWork_eq treeSound mainFound]
      exact notHeavier
  | switched onTop childless isMain notMain mainFound pushed heavier isMiddle switched =>
    rw [ancestors_of_onTop treeSound found onTop]
    obtain ⟨storage, rfl⟩ := switchMainChainStorage_eq_ok switched
    subst isMiddle
    obtain ⟨left, right, leaves, exchanged, grown, keptMain, keptLeft, keptRight⟩ :=
      chains_of_grown treeSound resultTreeSound found childless
        (pushed_tree ptr (parent.isLast onTop) pushed) isMain notMain
    refine .switched (Eq.trans (chains_eq _ leaves) (map_around _ _ _ _ _))
      (Eq.trans (chains_eq _ exchanged) ?_) ?_
    · rw [map_around, keptMain, keptLeft, keptRight, grown]
    · rw [← grown, chainWork_eq resultTreeSound (set_found found _),
        chainWork_eq treeSound mainFound]
      exact heavier
  | forked onTop branched forked =>
    obtain ⟨chain, member, isPrefix, shorter⟩ := competitor fun _ => branched
    obtain ⟨-, tree, leaves, storage⟩ := sound.fork found branched parent onTop forked
    have added := chains_of_fork treeSound resultTreeSound found tree leaves
    rw [← ancestors_of_onTop treeSound found onTop] at added
    exact .branched member isPrefix shorter added storage
  | split inside split forked =>
    obtain ⟨lower, outcome⟩ := splitOutcome sound found parent inside (clean inside) split
    obtain ⟨children, onTop, parent'⟩ := outcome.lower sound found parent inside
    have middleSound := sound.split found parent inside outcome
    have splitted := splitChains sound middleSound found parent inside outcome
    have sameChains := chains_of_split sound found outcome splitted
    rw [← forkSegment_updateMainChainSet] at forked
    obtain ⟨-, tree, leaves, storage⟩ := middleSound.fork outcome.found
      (by rw [children]; exact cons_ne_nil _ _) parent' onTop forked
    have added := chains_of_fork middleSound.toTreeSound resultTreeSound outcome.found tree
      leaves
    rw [sameChains, splitted.lower] at added
    obtain ⟨chain, member, isPrefix, shorter⟩ := competitor fun onTop => absurd onTop inside
    exact .branched member isPrefix shorter added (storage.trans outcome.storage)

end Core
end Mevacoin
