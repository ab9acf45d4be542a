/-
Saving the core. The alternative chains are deleted leaf by leaf, and the rest of the main
chain is merged into the root. The root keeps its list of children and the main chain set
its members, so that only a core whose root is the main leaf is left with a single segment
that can be used.

A result of `none` is an exception or a loop that has not ended.
-/

import Mevacoin.Core.Merge

namespace Mevacoin
open List

def Segment.deleteChild (child : SegmentPtr) : Segment → Segment
  | database cache => database { cache with children := cache.children.filter (· ≠ child) }
  | memory cache => memory { cache with children := cache.children.erase child }

namespace Core

/-- The slot of the deleted segment stays in the list, since its address is not used
again. -/
def deleteLeaf (core : Core) (leafIndex : Nat) : Option Core := do
  let leaf ← core.chainsLeaves[leafIndex]?
  match core.getParent leaf with
  | some parent =>
    let segment ← core.chainsStorage[parent]?
    let parentSegment := segment.deleteChild leaf
    let chainsLeaves := if leafIndex ≠ 0 then
        (if parentSegment.getChildCount = 0 then core.chainsLeaves ++ [parent]
          else core.chainsLeaves).eraseIdx leafIndex
      else core.chainsLeaves.set 0 parent
    some { core with
      chainsStorage := core.chainsStorage.set parent parentSegment
      chainsLeaves := chainsLeaves }
  | none =>
    -- the null pointer is followed, unless it is the main leaf
    if leafIndex ≠ 0 then none else some { core with chainsLeaves := core.chainsLeaves.eraseIdx 0 }

def deleteAlternativeChains : Nat → Core → Option Core
  | 0, _ => none
  | fuel + 1, core =>
    if 1 < core.chainsLeaves.length then (core.deleteLeaf 1).bind (deleteAlternativeChains fuel)
    else some core

/-- Saving the segment that is left does nothing. -/
def save (primitives : Primitives) (fuel : Nat) (core : Core) : Option Core := do
  let core ← deleteAlternativeChains fuel core
  core.mergeMainChainSegments primitives

/-- One segment with the given blocks and without children, as after loading. -/
def SingleSegment (chain : List BlockEntry) (core : Core) : Prop :=
  ∃ root, core.chainsStorage = [.database root] ∧ root.entries = chain ∧ root.children = [] ∧
    core.chainsLeaves = [0] ∧ ∀ ptr, ptr ∈ core.mainChainSet ↔ ptr = 0

/-! ### Deleting the alternative chains -/

/-- What the deletion of leaves has kept: no segment of the main chain has become a leaf, and
each is still listed by its parent. -/
structure Trimmed (start : Core) (main : SegmentPtr) (core : Core) : Prop where
  length : core.chainsStorage.length = start.chainsStorage.length
  parent : ∀ ptr, core.getParent ptr = start.getParent ptr
  head : core.chainsLeaves.head? = some main
  others : ∀ ptr ∈ core.chainsLeaves.tail, ptr ∉ start.mainChainSet
  listed : ∀ child ∈ start.mainChainSet, ∀ parent segment, start.getParent child = some parent →
    core.chainsStorage[parent]? = some segment → child ∈ segment.children

variable {primitives : Primitives} {start core next : Core} {main : SegmentPtr}

private theorem mem_mainChainSet (wellFormed : core.WellFormed primitives)
    (isMain : core.chainsLeaves.head? = some main) (ptr : SegmentPtr) : ptr ∈ core.mainChainSet ↔
      Relation.ReflTransGen (fun child parent => core.getParent child = some parent) main ptr := by
  obtain ⟨other, isOther, onMain⟩ := wellFormed.mainChain
  cases isMain.symm.trans isOther
  exact onMain ptr

private theorem not_parent_of_leaf (wellFormed : core.WellFormed primitives) {leaf : SegmentPtr}
    (isLeaf : leaf ∈ core.chainsLeaves) (child : SegmentPtr) : core.getParent child ≠ some leaf := by
  obtain ⟨segment, found, childless⟩ := leaf_found wellFormed isLeaf
  intro hasParent
  rw [getParent_eq, ← wellFormed.tree.mem_children (tree_found found) child] at hasParent
  exact ne_nil_of_mem hasParent childless

private theorem mem_deleteChild {segment : Segment} {child leaf : SegmentPtr} (other : child ≠ leaf)
    (member : child ∈ segment.children) : child ∈ (segment.deleteChild leaf).children := by
  cases segment with
  | database cache => exact mem_filter.mpr ⟨member, decide_eq_true other⟩
  | memory cache => exact (mem_erase_of_ne other).mpr member

section
variable (wellFormed : start.WellFormed primitives) (isMain : start.chainsLeaves.head? = some main)
  (trimmed : Trimmed start main core)
include wellFormed isMain trimmed

private theorem Trimmed.deleteLeaf
    (ran : core.deleteLeaf 1 = some next) : Trimmed start main next := by
  obtain ⟨leaf, isLeaf, ran⟩ := Option.bind_eq_some_iff.mp ran
  obtain ⟨others, leaves⟩ := head?_eq_some_iff.mp trimmed.head
  have otherLeaf : leaf ∉ start.mainChainSet := by
    apply trimmed.others
    rw [leaves] at isLeaf ⊢
    exact mem_of_getElem? isLeaf
  split at ran
  · rename_i parent isParent
    obtain ⟨segment, isSegment, finished⟩ := Option.bind_eq_some_iff.mp ran
    cases finished
    have kept : ∀ child ∈ start.mainChainSet, start.getParent child = some parent →
        child ∈ (segment.deleteChild leaf).children := by
      intro child member hasParent
      have other : child ≠ leaf := fun same => otherLeaf (same ▸ member)
      exact mem_deleteChild other (trimmed.listed child member parent segment hasParent isSegment)
    have newLeaf : (segment.deleteChild leaf).getChildCount = 0 → parent ∉ start.mainChainSet := by
      intro childless member
      have onMain := mem_mainChainSet wellFormed isMain
      obtain same | ⟨child, below, hasParent⟩ := ((onMain parent).mp member).cases_tail
      · rw [trimmed.parent, same] at isParent
        exact not_parent_of_leaf wellFormed (mem_of_mem_head? isMain) leaf isParent
      · exact ne_nil_of_mem (kept child ((onMain child).mpr below) hasParent)
          (length_eq_zero_iff.mp childless)
    have inside := index_lt isSegment
    have found : ∀ ptr, (core.chainsStorage.set parent (segment.deleteChild leaf))[ptr]?
        = if parent = ptr then some (segment.deleteChild leaf) else core.chainsStorage[ptr]? := by
      intro ptr
      rw [getElem?_set, if_pos inside]
    have newLeaves : (if 1 ≠ 0 then (if (segment.deleteChild leaf).getChildCount = 0 then
          core.chainsLeaves ++ [parent] else core.chainsLeaves).eraseIdx 1
        else core.chainsLeaves.set 0 parent)
        = main :: (if (segment.deleteChild leaf).getChildCount = 0 then others ++ [parent]
          else others).eraseIdx 0 := by
      rw [if_pos Nat.one_ne_zero, leaves]
      split <;> rfl
    refine ⟨?_, fun ptr => ?_, ?_, fun ptr member => ?_, ?_⟩
    · rw [length_set, trimmed.length]
    · rw [← trimmed.parent]
      unfold getParent
      simp only [found]
      split
      · rename_i same
        rw [← same, isSegment]
        cases segment <;> rfl
      · rfl
    · rw [newLeaves]
      rfl
    · rw [newLeaves] at member
      split at member
      · rename_i childless
        rcases mem_append.mp (mem_of_mem_eraseIdx member) with old | new
        · exact trimmed.others ptr (by rwa [leaves])
        · rw [mem_singleton.mp new]
          exact newLeaf childless
      · exact trimmed.others ptr (by rw [leaves]; exact mem_of_mem_eraseIdx member)
    · intro child member other segment' hasParent isFound
      simp only [found] at isFound
      split at isFound
      · rename_i same
        cases isFound
        exact kept child member (same ▸ hasParent)
      · exact trimmed.listed child member other segment' hasParent isFound
  · cases ran

theorem Trimmed.deleteAlternativeChains {fuel : Nat} {result : Core}
    (ran : core.deleteAlternativeChains fuel = some result) : Trimmed start main result := by
  induction fuel generalizing core with
  | zero => cases ran
  | succ fuel ih =>
    unfold Core.deleteAlternativeChains at ran
    split at ran
    · obtain ⟨next, deleted, ran⟩ := Option.bind_eq_some_iff.mp ran
      exact ih (trimmed.deleteLeaf wellFormed isMain deleted) ran
    · cases ran
      exact trimmed

end

private theorem trimmed_start (wellFormed : core.WellFormed primitives)
    (isMain : core.chainsLeaves.head? = some main) : Trimmed core main core := by
  obtain ⟨others, leaves⟩ := head?_eq_some_iff.mp isMain
  refine ⟨rfl, fun _ => rfl, isMain, fun ptr member onMain => ?_, ?_⟩
  · rw [mem_mainChainSet wellFormed isMain] at onMain
    obtain same | ⟨child, -, hasParent⟩ := onMain.cases_tail
    · have distinct := wellFormed.leaves.nodup
      rw [leaves] at distinct member
      exact (nodup_cons.mp distinct).1 (same ▸ member)
    · exact not_parent_of_leaf wellFormed (mem_of_mem_tail member) child hasParent
  · intro child member parent segment hasParent found
    rw [getParent_eq] at hasParent
    exact (wellFormed.tree.mem_children (tree_found found) child).mpr hasParent

/-! ### The state after saving -/

private theorem mergeSegments_children {root result : DatabaseBlockchainCache}
    {parents : List Segment} {segment : Segment}
    (ran : mergeSegments primitives parents root segment = some result) :
    result.children = root.children := by
  unfold mergeSegments at ran
  generalize List.range' _ _ = indexes at ran
  induction indexes generalizing root with
  | nil =>
    cases ran
    rfl
  | cons index indexes ih =>
    obtain ⟨grown, step, ran⟩ := Option.bind_eq_some_iff.mp ran
    obtain ⟨pushed, -, pushRan⟩ := Option.bind_eq_some_iff.mp step
    obtain ⟨_, _, _, children, _⟩ := DatabaseBlockchainCache.pushBlock_eq_some pushRan
    rw [ih ran, children]

private theorem mergeAll_children {root result : DatabaseBlockchainCache}
    {parents segments : List Segment}
    (ran : mergeAll primitives parents root segments = some result) :
    result.children = root.children := by
  induction segments generalizing parents root with
  | nil =>
    cases ran
    rfl
  | cons segment rest ih =>
    obtain ⟨merged, isMerged, ran⟩ := Option.bind_eq_some_iff.mp ran
    rw [ih ran, mergeSegments_children isMerged]

/-- The root of a merged core has the children that it had before. -/
private theorem Trimmed.children_ne_nil (wellFormed : start.WellFormed primitives)
    (isMain : start.chainsLeaves.head? = some main) (trimmed : Trimmed start main core)
    (notRoot : main ≠ 0) {result : Core}
    (ran : core.mergeMainChainSegments primitives = some result) {saved : DatabaseBlockchainCache}
    (isSaved : result.chainsStorage = [.database saved]) : saved.children ≠ [] := by
  obtain ⟨mainSegment, found, -⟩ := leaf_found wellFormed (mem_of_mem_head? isMain)
  obtain ⟨above, line⟩ := exists_line wellFormed found
  obtain ⟨front, rfl, -⟩ := line.ends_at_root wellFormed.tree
  have toRoot := (line.mem_iff 0).mp (mem_append_right _ mem_cons_self)
  rw [← getParent_eq] at toRoot
  obtain same | ⟨child, below, hasParent⟩ := toRoot.cases_tail
  · exact absurd same.symm notRoot
  obtain ⟨_, -, ran⟩ := Option.bind_eq_some_iff.mp ran
  split at ran
  · rename_i root segments isLineage
    obtain ⟨_, merged, finished⟩ := Option.bind_eq_some_iff.mp ran
    cases finished
    cases isSaved
    have inLineage := mem_reverse.mp (isLineage ▸ mem_cons_self)
    obtain ⟨ptr, -, isRoot⟩ := mem_filterMap.mp inLineage
    have atRoot : ptr = 0 := by
      have inside := index_lt isRoot
      rw [trimmed.length] at inside
      have top := trimmed.parent ptr
      unfold getParent at top
      rw [isRoot, getElem?_eq_getElem inside] at top
      exact (wellFormed.tree.root_of_no_parent (tree_found (getElem?_eq_getElem inside)) top.symm).1
    rw [mergeAll_children merged]
    have member := (mem_mainChainSet wellFormed isMain child).mpr below
    exact ne_nil_of_mem
      (trimmed.listed child member 0 (.database root) hasParent (atRoot ▸ isRoot))
  · cases ran

theorem save_single_iff (wellFormed : core.WellFormed primitives)
    (isMain : core.chainsLeaves.head? = some main) (fuel : Nat) :
    (∃ result, core.save primitives (fuel + 1) = some result ∧
      SingleSegment (core.chain main) result) ↔ main = 0 := by
  constructor
  · rintro ⟨result, ran, saved, isSaved, -, none, -⟩
    by_contra notRoot
    obtain ⟨trimmedCore, deleted, merged⟩ := Option.bind_eq_some_iff.mp ran
    have trimmed :=
      (trimmed_start wellFormed isMain).deleteAlternativeChains wellFormed isMain deleted
    exact trimmed.children_ne_nil wellFormed isMain notRoot merged isSaved none
  · rintro rfl
    obtain ⟨root, rootFound⟩ := wellFormed.root
    obtain ⟨segment, found, childless⟩ := leaf_found wellFormed (mem_of_mem_head? isMain)
    cases rootFound.symm.trans found
    have alone : ∀ ptr ∈ core.chainsLeaves, ptr = 0 := by
      intro ptr isLeaf
      by_contra notRoot
      obtain ⟨leafSegment, leafFound, -⟩ := leaf_found wellFormed isLeaf
      obtain ⟨above, line⟩ := exists_line wellFormed leafFound
      exact line.root_branched wellFormed.tree notRoot (tree_found rootFound) childless
    have leaves : ¬1 < core.chainsLeaves.length := by
      have distinct := wellFormed.leaves.nodup
      rw [eq_replicate_of_mem alone, nodup_replicate] at distinct
      omega
    have noParent : core.getParent 0 = none := by
      unfold getParent
      rw [rootFound]
      rfl
    have lineage : core.lineage 0 = [.database root] := by
      unfold Core.lineage ancestry SegmentTree.walk
      simp [rootFound, noParent]
    refine ⟨{ core with chainsStorage := [.database root], chainsLeaves := [0] }, ?_,
      root, rfl, ?_, childless, rfl, ?_⟩
    · unfold save deleteAlternativeChains mergeMainChainSegments
      rw [if_neg leaves]
      simp [isMain, lineage, mergeAll]
    · simp [chain, lineage, Segment.entries]
    · intro ptr
      rw [mem_mainChainSet wellFormed isMain, Relation.ReflTransGen.cases_head_iff]
      simp [noParent, eq_comm]

theorem save_single_of_genesis :
    ∃ result, (initRootSegment forkGenesis).save forkEnvironment.primitives 1 = some result ∧
      SingleSegment ((initRootSegment forkGenesis).chain 0) result :=
  (save_single_iff (initRootSegment_sound forkGenesis).wellFormed rfl 0).mpr rfl

/-- The root has the former main leaf as its child, and that leaf is in the main chain set. -/
theorem saved_root_keeps_child :
    (afterAll forkEnvironment (initRootSegment forkGenesis) [1, 2, 3]).WellFormed
        forkEnvironment.primitives ∧
      ((afterAll forkEnvironment (initRootSegment forkGenesis) [1, 2, 3]).save
        forkEnvironment.primitives 3).map (fun saved =>
          (saved.chainsStorage.map Segment.children, saved.chainsLeaves, saved.mainChainSet))
        = some ([[1]], [0], [1, 0]) :=
  ⟨((initRootSegment_sound forkGenesis).reaches (fun _ _ clean => clean)
    (reaches_afterAll (by decide +kernel))).wellFormed, by decide +kernel⟩

end Core
end Mevacoin
