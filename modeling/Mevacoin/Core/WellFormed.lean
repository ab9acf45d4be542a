/-
The segments of the core as a segment tree, and what it means for the core to be
well formed. Well-formedness is stated for any link between neighbouring blocks:
the hash link of the headers, or the stronger agreement of the stored records.
-/

import Mevacoin.Cache.Records
import Mevacoin.Core.AddBlock
import Mevacoin.Lib.SegmentTreeGrowth

namespace Mevacoin
open List
open SegmentTree (Sound Leaves Line parentOf path)

def Segment.toNode (segment : Segment) : SegmentTree.Node BlockEntry :=
  { parent := segment.getParent
    startIndex := segment.getStartBlockIndex
    items := segment.entries
    children := segment.children }

/-- The database segment starts with the genesis block, and its cache of recent blocks
holds the newest ones. -/
structure DatabaseBlockchainCache.Rooted (primitives : Primitives)
    (cache : DatabaseBlockchainCache) : Prop where
  genesis : ∀ first ∈ cache.entries.head?, first.blockIndex primitives = 0
  units : cache.unitsCache <:+ cache.infos

namespace Core

def tree (core : Core) : SegmentTree.Tree BlockEntry := core.chainsStorage.map Segment.toNode

variable {core : Core} {ptr : SegmentPtr} {segment : Segment}

@[simp]
theorem tree_length (core : Core) : core.tree.length = core.chainsStorage.length :=
  length_map _

theorem tree_lookup (core : Core) (ptr : SegmentPtr) :
    core.tree[ptr]? = (core.chainsStorage[ptr]?).map Segment.toNode :=
  getElem?_map

theorem tree_found (found : core.chainsStorage[ptr]? = some segment) :
    core.tree[ptr]? = some segment.toNode := by
  rw [tree_lookup, found]
  rfl

theorem segment_found {node : SegmentTree.Node BlockEntry} (found : core.tree[ptr]? = some node) :
    ∃ segment, core.chainsStorage[ptr]? = some segment ∧ segment.toNode = node := by
  rw [tree_lookup] at found
  exact Option.map_eq_some_iff.mp found

theorem getParent_eq (core : Core) : core.getParent = parentOf core.tree := by
  funext ptr
  unfold getParent parentOf
  rw [tree_lookup]
  cases core.chainsStorage[ptr]? <;> rfl

theorem ancestry_eq (core : Core) (ptr : SegmentPtr) : core.ancestry ptr = path core.tree ptr := by
  unfold ancestry path SegmentTree.startOf
  rw [getParent_eq, tree_lookup]
  cases core.chainsStorage[ptr]? <;> rfl

/-- The segments form a tree under a database root, the leaf list names the segments
without children, and the main chain set holds the ancestors of the main leaf. -/
structure TreeSound (link : BlockEntry → BlockEntry → Prop) (core : Core) : Prop where
  tree : Sound link core.tree
  root : ∃ cache, core.chainsStorage[0]? = some (.database cache)
  leaves : Leaves core.tree core.chainsLeaves
  mainChain : ∃ main, core.chainsLeaves.head? = some main ∧ ∀ ptr,
    ptr ∈ core.mainChainSet ↔
      Relation.ReflTransGen (fun child parent => core.getParent child = some parent) main ptr

/-- Neighbouring blocks are linked by the hashes in their headers. -/
def WellFormed (primitives : Primitives) (core : Core) : Prop :=
  core.TreeSound (HashLinked primitives)

/-- A well-formed core whose stored records agree with the raw blocks. -/
structure Sound (primitives : Primitives) (core : Core) : Prop
    extends core.TreeSound (Recorded primitives) where
  rooted : ∀ cache, core.chainsStorage[0]? = some (.database cache) → cache.Rooted primitives

namespace TreeSound
variable {link : BlockEntry → BlockEntry → Prop}

theorem mono {weaker : BlockEntry → BlockEntry → Prop} (sound : core.TreeSound link)
    (implies : ∀ below above, link below above → weaker below above) :
    core.TreeSound weaker where
  tree := sound.tree.mono implies
  root := sound.root
  leaves := sound.leaves
  mainChain := sound.mainChain

theorem memory_of_parent (found : core.chainsStorage[ptr]? = some segment) {parent : SegmentPtr}
    (hasParent : segment.toNode.parent = some parent) :
    ∃ cache, segment = .memory cache ∧ cache.parent = some parent := by
  cases segment with
  | database cache => cases hasParent
  | memory cache => exact ⟨cache, rfl, hasParent⟩

end TreeSound

theorem Sound.wellFormed {primitives : Primitives} (sound : core.Sound primitives) :
    core.WellFormed primitives :=
  sound.toTreeSound.mono fun _ _ => Recorded.hashLinked

theorem Sound.rooted_of_found {primitives : Primitives} (sound : core.Sound primitives)
    {cache : DatabaseBlockchainCache} (found : core.chainsStorage[ptr]? = some (.database cache)) :
    cache.Rooted primitives := by
  obtain ⟨rfl, -⟩ := sound.tree.root_of_no_parent (tree_found found) rfl
  exact sound.rooted cache found

end Core

/-! ### The segments below a block -/

inductive Stacked : List Segment → List BlockEntry → Prop where
  | database (cache : DatabaseBlockchainCache) : Stacked [.database cache] cache.entries
  | memory {parents : List Segment} {below : List BlockEntry} {cache : BlockchainCache}
      (stacked : Stacked parents below) (start : cache.startIndex = below.length) :
      Stacked (.memory cache :: parents) (below ++ cache.blocks)

namespace Core
variable {core : Core} {ptr : SegmentPtr} {segment : Segment}
  {link : BlockEntry → BlockEntry → Prop}

private theorem stacked_of_line (sound : core.TreeSound link) {above : List SegmentPtr}
    {items : List BlockEntry} (line : Line core.tree ptr above items) :
    Stacked (above.filterMap fun ptr => core.chainsStorage[ptr]?) items := by
  induction line with
  | root found top =>
    obtain ⟨rfl, -⟩ := sound.tree.root_of_no_parent found top
    obtain ⟨cache, rootFound⟩ := sound.root
    rw [tree_found rootFound] at found
    cases found
    simp only [filterMap_cons, filterMap_nil, rootFound]
    exact .database cache
  | child found parent _ start ih =>
    obtain ⟨segment, segmentFound, rfl⟩ := segment_found found
    obtain ⟨cache, rfl, -⟩ := TreeSound.memory_of_parent segmentFound parent
    simp only [filterMap_cons, segmentFound]
    exact .memory ih start.symm

theorem TreeSound.stacked (sound : core.TreeSound link)
    (found : core.chainsStorage[ptr]? = some segment) :
    ∃ above items, Line core.tree ptr above items ∧ core.ancestry ptr = above ∧
      Stacked (core.lineage ptr) items ∧
      items.length = segment.getStartBlockIndex + segment.entries.length := by
  obtain ⟨above, items, line, length⟩ := sound.tree.exists_line (tree_found found)
  have isPath : core.ancestry ptr = above := by
    rw [ancestry_eq, line.path_eq sound.tree]
  refine ⟨above, items, line, isPath, ?_, length⟩
  unfold lineage
  rw [isPath]
  exact stacked_of_line sound line

theorem lineage_head (found : core.chainsStorage[ptr]? = some segment) :
    (core.lineage ptr).head? = some segment := by
  unfold lineage ancestry SegmentTree.walk
  simp [found]

theorem found_of_findIndexInChain {blockHash : Hash} {leaf : SegmentPtr}
    (found : core.findIndexInChain blockHash leaf = some ptr) :
    ∃ segment, core.chainsStorage[ptr]? = some segment ∧ segment.hasBlock blockHash = true := by
  have holds := find?_some found
  cases present : core.chainsStorage[ptr]? with
  | none => simp [present] at holds
  | some segment => exact ⟨segment, rfl, by simpa [present] using holds⟩

theorem found_of_findSegmentContainingBlock {blockHash : Hash}
    (found : core.findSegmentContainingBlock blockHash = some ptr) :
    ∃ segment, core.chainsStorage[ptr]? = some segment ∧ segment.hasBlock blockHash = true := by
  obtain ⟨leaf, -, inChain⟩ := exists_of_findSome?_eq_some found
  exact found_of_findIndexInChain inChain

end Core

theorem Segment.getBlockIndex_isSome {segment : Segment} {blockHash : Hash}
    (hasBlock : segment.hasBlock blockHash = true) :
    ∃ index, segment.getBlockIndex blockHash = some index := by
  obtain ⟨entry, member, same⟩ := any_eq_true.mp hasBlock
  unfold getBlockIndex
  cases position : segment.entries.findIdx? fun entry => entry.info.blockHash = blockHash with
  | none =>
    have absent := findIdx?_eq_none_iff.mp position entry member
    rw [same] at absent
    cases absent
  | some position => exact ⟨_, rfl⟩

theorem Segment.getBlockIndex_eq_some {segment : Segment} {blockHash : Hash} {index : Nat}
    (found : segment.getBlockIndex blockHash = some index) :
    ∃ position entry, index = segment.getStartBlockIndex + position ∧
      segment.entries[position]? = some entry ∧ entry.info.blockHash = blockHash := by
  obtain ⟨position, isPosition, rfl⟩ := Option.map_eq_some_iff.mp found
  obtain ⟨inside, holds, -⟩ := findIdx?_eq_some_iff_getElem.mp isPosition
  exact ⟨position, _, Nat.add_comm _ _, getElem?_eq_getElem inside, by simpa using holds⟩

end Mevacoin
