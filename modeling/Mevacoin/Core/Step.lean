/-
One call of `addBlock`, and runs of such calls. A call that returns either leaves
the core as it was or places an accepted block; the segment tree survives every
placement except the split of a database segment that already has children.
-/

import Mevacoin.Core.Genesis
import Mevacoin.Core.Preservation

namespace Mevacoin
open List

namespace Core
variable {primitives : Primitives} {ptr : SegmentPtr} {segment : Segment}
  {cache : DatabaseBlockchainCache} {middle : Core}

variable {environment : Environment} {now : UInt64} {core result : Core} {rawBlock : RawBlock}
  {code : ErrorCode}

/-! ### The block of an accepted call -/

/-- The block is new, its parent is a block of the segment, and it passed every check. -/
structure Extension (environment : Environment) (now : UInt64) (core : Core)
    (rawBlock : RawBlock) (ptr : SegmentPtr) (segment : Segment) (accepted : AcceptedBlock)
    (data : AcceptanceData) (below : BlockEntry) : Prop where
  parsed : environment.primitives.blockFromBinaryArray rawBlock.block = some accepted.pushed.block
  fresh : core.findSegmentContainingBlock
    (environment.primitives.getBlockHash accepted.pushed.block) = none
  located : core.findSegmentContainingBlock accepted.pushed.block.previousBlockHash = some ptr
  found : core.chainsStorage[ptr]? = some segment
  acceptance : Acceptance environment now (core.lineage ptr) accepted.pushed.block rawBlock
    accepted data
  parent : ParentEntry environment.primitives segment accepted below

theorem Placement.accepted {accepted : AcceptedBlock}
    (placement : Placement primitives core ptr segment accepted code result) :
    code.accepted = true := by
  cases placement <;> rfl

theorem TreeSound.leaves_nonempty {link : BlockEntry → BlockEntry → Prop}
    (sound : core.TreeSound link) : core.chainsLeaves ≠ [] := by
  obtain ⟨main, isMain, -⟩ := sound.mainChain
  intro empty
  rw [empty] at isMain
  cases isMain

theorem addBlock_outcome (environment : Environment) (now : UInt64) (core : Core)
    (rawBlock : RawBlock) :
    (∃ code, core.addBlock environment now rawBlock = .ok (code, core) ∧
        code.accepted = false) ∨
      core.addBlock environment now rawBlock = .error .exception ∨
      ∃ ptr accepted data,
        environment.primitives.blockFromBinaryArray rawBlock.block = some accepted.pushed.block ∧
        core.findSegmentContainingBlock
          (environment.primitives.getBlockHash accepted.pushed.block) = none ∧
        core.findSegmentContainingBlock accepted.pushed.block.previousBlockHash = some ptr ∧
        Acceptance environment now (core.lineage ptr) accepted.pushed.block rawBlock accepted
          data ∧
        core.addBlock environment now rawBlock
          = core.placeBlock environment.primitives ptr accepted := by
  unfold addBlock
  cases parsed : environment.primitives.blockFromBinaryArray rawBlock.block with
  | none => exact .inl ⟨_, rfl, rfl⟩
  | some block =>
    simp only
    unfold addCachedBlock
    split
    · exact .inl ⟨_, rfl, rfl⟩
    · rename_i fresh
      cases located : core.findSegmentContainingBlock block.previousBlockHash with
      | none => exact .inl ⟨_, rfl, rfl⟩
      | some ptr =>
        simp only
        split
        · rename_i refused
          exact .inl ⟨_, rfl, acceptBlock_rejected refused⟩
        · exact .inr (.inl rfl)
        · rename_i accepted isAccepted
          obtain ⟨data, acceptance⟩ := acceptBlock_eq_ok isAccepted
          have same := acceptance.sameBlock
          subst same
          exact .inr (.inr ⟨ptr, accepted, data, rfl, by simpa using fresh, located,
            acceptance, rfl⟩)

theorem acceptance_of_addBlock {block : BlockTemplate}
    (ran : core.addBlock environment now rawBlock = .ok (code, result))
    (isAccepted : code.accepted = true)
    (parsed : environment.primitives.blockFromBinaryArray rawBlock.block = some block) :
    ∃ ptr accepted data, Acceptance environment now (core.lineage ptr) block rawBlock accepted
      data := by
  rcases addBlock_outcome environment now core rawBlock with unchanged | failed | placed
  · obtain ⟨code', same, notAccepted⟩ := unchanged
    rw [ran] at same
    cases same
    rw [isAccepted] at notAccepted
    cases notAccepted
  · rw [ran] at failed
    cases failed
  · obtain ⟨ptr, accepted, data, parsed', -, -, acceptance, -⟩ := placed
    rw [parsed] at parsed'
    cases parsed'
    exact ⟨ptr, accepted, data, acceptance⟩

theorem addBlock_cases (sound : core.Sound environment.primitives) (now : UInt64)
    (rawBlock : RawBlock) :
    (∃ code, core.addBlock environment now rawBlock = .ok (code, core) ∧
        code.accepted = false) ∨
      core.addBlock environment now rawBlock = .error .exception ∨
      ∃ ptr segment accepted data below,
        Extension environment now core rawBlock ptr segment accepted data below ∧
        core.addBlock environment now rawBlock
          = core.placeBlock environment.primitives ptr accepted := by
  rcases addBlock_outcome environment now core rawBlock with unchanged | failed | placed
  · exact .inl unchanged
  · exact .inr (.inl failed)
  · obtain ⟨ptr, accepted, data, parsed, fresh, located, acceptance, same⟩ := placed
    obtain ⟨segment, found, -⟩ := found_of_findSegmentContainingBlock located
    obtain ⟨below, parent⟩ := parentEntry_of_acceptance sound found parsed acceptance
    exact .inr (.inr ⟨ptr, segment, accepted, data, below,
      ⟨parsed, fresh, located, found, acceptance, parent⟩, same⟩)

theorem addBlock_eq_ok (sound : core.Sound environment.primitives)
    (ran : core.addBlock environment now rawBlock = .ok (code, result)) :
    (code.accepted = false ∧ result = core) ∨
      ∃ ptr segment accepted data below,
        Extension environment now core rawBlock ptr segment accepted data below ∧
        Placement environment.primitives core ptr segment accepted code result := by
  rcases addBlock_cases sound now rawBlock with unchanged | failed | placed
  · obtain ⟨code', same, notAccepted⟩ := unchanged
    rw [ran] at same
    cases same
    exact .inl ⟨notAccepted, rfl⟩
  · rw [ran] at failed
    cases failed
  · obtain ⟨ptr, segment, accepted, data, below, extension, same⟩ := placed
    have placed : Placed environment.primitives core ptr segment accepted _ :=
      placeBlock_placed extension.found sound.leaves_nonempty
    rw [← same, ran] at placed
    exact .inr ⟨ptr, segment, accepted, data, below, extension, placed⟩

/-! ### The split that leaves children behind -/

/-- The parent of the block is on top of its segment, or that segment can be split. -/
def ParentSplitsCleanly (primitives : Primitives) (core : Core) (rawBlock : RawBlock) : Prop :=
  ∀ block ptr segment index, primitives.blockFromBinaryArray rawBlock.block = some block →
    core.findSegmentContainingBlock block.previousBlockHash = some ptr →
    core.chainsStorage[ptr]? = some segment →
    segment.getBlockIndex block.previousBlockHash = some index →
    segment.getTopBlockIndex ≠ index → segment.SplitsCleanly

section
variable {accepted : AcceptedBlock} {data : AcceptanceData} {below : BlockEntry}

/-- What holds wherever the parent of the block is found holds where it was found. -/
theorem Extension.at_parent_iff {property : SegmentPtr → Segment → Nat → Prop}
    (extension : Extension environment now core rawBlock ptr segment accepted data below) :
    (∀ block ptr segment index,
      environment.primitives.blockFromBinaryArray rawBlock.block = some block →
      core.findSegmentContainingBlock block.previousBlockHash = some ptr →
      core.chainsStorage[ptr]? = some segment →
      segment.getBlockIndex block.previousBlockHash = some index →
      property ptr segment index) ↔ property ptr segment accepted.previousBlockIndex := by
  have position := position_of_acceptance extension.found extension.acceptance
  constructor
  · intro all
    exact all _ _ _ _ extension.parsed extension.located extension.found position
  · intro here block ptr' segment' index parsed located found isIndex
    rw [extension.parsed] at parsed
    cases parsed
    rw [extension.located] at located
    cases located
    rw [extension.found] at found
    cases found
    rw [position] at isIndex
    cases isIndex
    exact here

theorem Extension.splitsCleanly_iff
    (extension : Extension environment now core rawBlock ptr segment accepted data below) :
    core.ParentSplitsCleanly environment.primitives rawBlock ↔
      (segment.getTopBlockIndex ≠ accepted.previousBlockIndex → segment.SplitsCleanly) :=
  extension.at_parent_iff

end

theorem withFork_self (found : core.chainsStorage[ptr]? = some segment) (grown : BlockchainCache) :
    (core.withFork ptr segment grown).chainsStorage[ptr]?
      = some (segment.addChild core.chainsStorage.length) := by
  have inside := index_lt found
  simp only [withFork, updateMainChainSet]
  rw [getElem?_append_left (by simpa using inside), getElem?_set_self inside]

theorem withFork_other {other : SegmentPtr} (different : ptr ≠ other)
    (old : other < core.chainsStorage.length) (segment : Segment) (grown : BlockchainCache) :
    (core.withFork ptr segment grown).chainsStorage[other]? = core.chainsStorage[other]? := by
  simp only [withFork, updateMainChainSet]
  rw [getElem?_append_left (by simpa using old), getElem?_set_ne different]

structure RootSplit (core middle : Core) (ptr : SegmentPtr) (cache lower : DatabaseBlockchainCache)
    (splitBlockIndex : Nat) : Prop where
  found : middle.chainsStorage[ptr]? = some (.database lower)
  entries : lower.entries = cache.entries.take splitBlockIndex
  length : middle.chainsStorage.length = core.chainsStorage.length + 1
  others : ∀ other, ptr ≠ other → other < core.chainsStorage.length →
    middle.chainsStorage[other]? = core.chainsStorage[other]?
  leaves : middle.chainsLeaves
    = core.chainsLeaves.set (core.chainsLeaves.idxOf ptr) core.chainsStorage.length
  storage : middle.mainChainStorage = core.mainChainStorage

theorem splitSegment_root {splitBlockIndex : Nat}
    (found : core.chainsStorage[ptr]? = some (.database cache))
    (split : core.splitSegment primitives ptr splitBlockIndex = some middle) :
    ∃ lower, RootSplit core middle ptr cache lower splitBlockIndex := by
  have bound := index_lt found
  obtain ⟨upper, lower, -, isLower, rfl⟩ := splitSegment_database found split
  refine ⟨lower, ?_⟩
  exact {
    found := by
      rw [getElem?_append_left (by simpa using bound), getElem?_set_self bound]
    entries := DatabaseBlockchainCache.entries_of_take
      (DatabaseBlockchainCache.deleteUpper_eq_some isLower).1
    length := by simp
    others := by
      intro other different old
      rw [getElem?_append_left (by simpa using old), getElem?_set_ne different]
    leaves := rfl
    storage := rfl }

/-- The root has children, and the block is forked off inside it. -/
structure BranchedSplit (primitives : Primitives) (core middle result : Core) (ptr : SegmentPtr)
    (cache : DatabaseBlockchainCache) (accepted : AcceptedBlock) (below : BlockEntry) : Prop where
  found : core.chainsStorage[ptr]? = some (.database cache)
  parent : ParentEntry primitives (.database cache) accepted below
  inside : (Segment.database cache).getTopBlockIndex ≠ accepted.previousBlockIndex
  branched : cache.children ≠ []
  split : core.splitSegment primitives ptr (accepted.previousBlockIndex + 1) = some middle
  forked : middle.forkSegment primitives ptr accepted = some result

variable {accepted : AcceptedBlock} {below : BlockEntry}

theorem Placement.branchedSplit (found : core.chainsStorage[ptr]? = some segment)
    (parent : ParentEntry primitives segment accepted below)
    (placement : Placement primitives core ptr segment accepted code result)
    (unclean : ¬(segment.getTopBlockIndex ≠ accepted.previousBlockIndex → segment.SplitsCleanly)) :
    code = .addBlock .addedToAlternative ∧ ∃ cache middle, segment = .database cache ∧
      BranchedSplit primitives core middle result ptr cache accepted below := by
  obtain ⟨inside, notClean⟩ := Classical.not_imp.mp unclean
  cases placement with
  | main onTop => exact absurd onTop inside
  | alternative onTop => exact absurd onTop inside
  | switched onTop => exact absurd onTop inside
  | forked onTop => exact absurd onTop inside
  | split _ split forked =>
    cases segment with
    | memory cache => exact absurd trivial notClean
    | database cache => exact ⟨rfl, cache, _, rfl, found, parent, inside, notClean, split, forked⟩

namespace BranchedSplit
variable (root : BranchedSplit primitives core middle result ptr cache accepted below)
include root

theorem lookup :
    (∃ lower, result.chainsStorage[ptr]? = some (.database lower) ∧
      lower.entries = cache.entries.take (accepted.previousBlockIndex + 1)) ∧
    ∀ other, ptr ≠ other → other < core.chainsStorage.length →
      result.chainsStorage[other]? = core.chainsStorage[other]? := by
  obtain ⟨lower, isSplit⟩ := splitSegment_root root.found root.split
  obtain ⟨grown, rfl, -⟩ := forkSegment_withFork isSplit.found root.forked
  refine ⟨⟨_, withFork_self isSplit.found grown, isSplit.entries⟩, ?_⟩
  intro other different old
  have inMiddle : other < middle.chainsStorage.length := by
    rw [isSplit.length]
    exact Nat.lt_succ_of_lt old
  rw [withFork_other different inMiddle, isSplit.others other different old]

theorem position : accepted.previousBlockIndex + 1 < cache.entries.length := by
  have position := (root.parent.splitPosition root.inside).2
  simp only [Segment.entries, Segment.getStartBlockIndex] at position
  omega

theorem not_wellFormed (sound : core.Sound primitives) : ¬result.WellFormed primitives := by
  intro wellFormed
  have isNode := tree_found root.found
  obtain ⟨child, member⟩ := exists_mem_of_ne_nil _ root.branched
  have old : child < core.chainsStorage.length := by
    rw [← tree_length]
    exact sound.tree.child_lt isNode member
  have different : ptr ≠ child := fun same => sound.tree.not_own_child isNode (same ▸ member)
  have present := getElem?_eq_getElem old
  have hasParent : (core.chainsStorage[child]).toNode.parent = some ptr := by
    rw [← SegmentTree.parentOf_eq (tree_found present)]
    exact (sound.tree.mem_children isNode child).mp member
  obtain ⟨_, again, start, -⟩ := sound.tree.parent_found (tree_found present) hasParent
  rw [isNode] at again
  cases again
  obtain ⟨⟨lower, lowerFound, entries⟩, others⟩ := root.lookup
  have kept := (others child different old).trans present
  obtain ⟨_, again, start', -⟩ := wellFormed.tree.parent_found (tree_found kept) hasParent
  rw [tree_found lowerFound] at again
  cases again
  have position := root.position
  have lengths : lower.entries.length = cache.entries.length := by
    have same := start.symm.trans start'
    simpa [Segment.toNode, Segment.getStartBlockIndex, Segment.entries] using same.symm
  rw [entries, length_take] at lengths
  omega

end BranchedSplit

/-! ### Steps and runs -/

theorem Sound.addBlock (sound : core.Sound environment.primitives)
    (clean : core.ParentSplitsCleanly environment.primitives rawBlock)
    (ran : core.addBlock environment now rawBlock = .ok (code, result)) :
    result.Sound environment.primitives := by
  rcases addBlock_eq_ok sound ran with unchanged | placed
  · rw [unchanged.2]
    exact sound
  · obtain ⟨ptr, segment, accepted, data, below, extension, placement⟩ := placed
    exact placement.sound sound extension.found extension.parent
      (extension.splitsCleanly_iff.mp clean)

theorem Sound.splitsCleanly_of_wellFormed (sound : core.Sound environment.primitives)
    (ran : core.addBlock environment now rawBlock = .ok (code, result))
    (isAccepted : code.accepted = true) (wellFormed : result.WellFormed environment.primitives) :
    core.ParentSplitsCleanly environment.primitives rawBlock := by
  rcases addBlock_eq_ok sound ran with unchanged | placed
  · rw [unchanged.1] at isAccepted
    cases isAccepted
  · obtain ⟨ptr, segment, accepted, data, below, extension, placement⟩ := placed
    rw [extension.splitsCleanly_iff]
    by_contra unclean
    obtain ⟨-, cache, middle, rfl, root⟩ :=
      placement.branchedSplit extension.found extension.parent unclean
    exact root.not_wellFormed sound wellFormed

/-- A call that returned, on a block that is permitted in the state before it. -/
def Step (environment : Environment) (permitted : Core → RawBlock → Prop)
    (core result : Core) : Prop :=
  ∃ now rawBlock code, permitted core rawBlock ∧
    core.addBlock environment now rawBlock = .ok (code, result)

def Reaches (environment : Environment) (permitted : Core → RawBlock → Prop) :
    Core → Core → Prop :=
  Relation.ReflTransGen (Step environment permitted)

theorem Sound.reaches {permitted : Core → RawBlock → Prop} {start : Core}
    (sound : start.Sound environment.primitives)
    (clean : ∀ core rawBlock, permitted core rawBlock →
      core.ParentSplitsCleanly environment.primitives rawBlock)
    (run : Reaches environment permitted start core) : core.Sound environment.primitives := by
  induction run with
  | refl => exact sound
  | tail _ step ih =>
    obtain ⟨now, rawBlock, code, isPermitted, ran⟩ := step
    exact ih.addBlock (clean _ _ isPermitted) ran

/-- The core after a call; a call that does not return counts as no step. -/
def after (environment : Environment) (now : UInt64) (core : Core) (rawBlock : RawBlock) : Core :=
  match core.addBlock environment now rawBlock with
  | .ok (_, result) => result
  | .error _ => core

def codeOf (environment : Environment) (now : UInt64) (core : Core) (rawBlock : RawBlock) :
    Option ErrorCode :=
  (core.addBlock environment now rawBlock).toOption.map Prod.fst

theorem addBlock_eq_after (returned : core.codeOf environment now rawBlock = some code) :
    core.addBlock environment now rawBlock = .ok (code, core.after environment now rawBlock) := by
  unfold codeOf at returned
  unfold after
  cases ran : core.addBlock environment now rawBlock with
  | error fault =>
    rw [ran] at returned
    cases returned
  | ok pair =>
    rw [ran] at returned
    cases returned
    rfl

def afterAll (environment : Environment) : Core → List UInt8 → Core
  | core, [] => core
  | core, code :: codes =>
    afterAll environment (core.after environment 0 (codedBlock code)) codes

/-- Each of the blocks is permitted in its turn, and each call returns. -/
def AllPermitted (environment : Environment) (permitted : Core → RawBlock → Prop) :
    Core → List UInt8 → Prop
  | _, [] => True
  | core, code :: codes =>
    permitted core (codedBlock code) ∧ (core.codeOf environment 0 (codedBlock code)).isSome = true ∧
      AllPermitted environment permitted (core.after environment 0 (codedBlock code)) codes

instance decidableAllPermitted (environment : Environment) (permitted : Core → RawBlock → Prop)
    [∀ core rawBlock, Decidable (permitted core rawBlock)] :
    ∀ (core : Core) (codes : List UInt8), Decidable (AllPermitted environment permitted core codes)
  | _, [] => inferInstanceAs (Decidable True)
  | core, code :: codes =>
    have := decidableAllPermitted environment permitted
      (core.after environment 0 (codedBlock code)) codes
    inferInstanceAs (Decidable (_ ∧ _ ∧ _))

theorem reaches_afterAll {permitted : Core → RawBlock → Prop} {codes : List UInt8}
    (allPermitted : AllPermitted environment permitted core codes) :
    Reaches environment permitted core (afterAll environment core codes) := by
  induction codes generalizing core with
  | nil => exact .refl
  | cons code codes ih =>
    obtain ⟨isPermitted, returned, rest⟩ := allPermitted
    obtain ⟨result, isCode⟩ := Option.isSome_iff_exists.mp returned
    exact .head ⟨0, codedBlock code, result, isPermitted, addBlock_eq_after isCode⟩ (ih rest)

instance (segment : Segment) : Decidable segment.SplitsCleanly := by
  cases segment <;> unfold Segment.SplitsCleanly <;> infer_instance

def decidableAtParent (primitives : Primitives) (core : Core) (rawBlock : RawBlock)
    (property : SegmentPtr → Segment → Nat → Prop)
    [∀ ptr segment index, Decidable (property ptr segment index)] :
    Decidable (∀ block ptr segment index,
      primitives.blockFromBinaryArray rawBlock.block = some block →
      core.findSegmentContainingBlock block.previousBlockHash = some ptr →
      core.chainsStorage[ptr]? = some segment →
      segment.getBlockIndex block.previousBlockHash = some index → property ptr segment index) :=
  decidable_of_iff (∀ block ∈ primitives.blockFromBinaryArray rawBlock.block,
      ∀ ptr ∈ core.findSegmentContainingBlock block.previousBlockHash,
      ∀ segment ∈ core.chainsStorage[ptr]?,
      ∀ index ∈ segment.getBlockIndex block.previousBlockHash, property ptr segment index)
    ⟨fun all block ptr segment index parsed located found isIndex =>
        all block parsed ptr located segment found index isIndex,
      fun all block parsed ptr located segment found index isIndex =>
        all block ptr segment index parsed located found isIndex⟩

instance (primitives : Primitives) (core : Core) (rawBlock : RawBlock) :
    Decidable (core.ParentSplitsCleanly primitives rawBlock) :=
  decidableAtParent primitives core rawBlock fun _ segment index =>
    segment.getTopBlockIndex ≠ index → segment.SplitsCleanly

/-- Runs whose blocks do not fork inside a branched root keep the segment tree well
formed, and an accepted block that does fork there destroys it. -/
theorem reaches_wellFormed {start : Core} (sound : start.Sound environment.primitives)
    (run : Reaches environment (ParentSplitsCleanly environment.primitives) start core) :
    core.WellFormed environment.primitives ∧
      ∀ now rawBlock code result,
        core.addBlock environment now rawBlock = .ok (code, result) → code.accepted = true →
        (result.WellFormed environment.primitives ↔
          core.ParentSplitsCleanly environment.primitives rawBlock) := by
  have here := sound.reaches (fun _ _ clean => clean) run
  refine ⟨here.wellFormed, ?_⟩
  intro now rawBlock code result ran isAccepted
  exact ⟨here.splitsCleanly_of_wellFormed ran isAccepted,
    fun clean => (here.addBlock clean ran).wellFormed⟩

/-- Two blocks above the genesis block, a competitor of the second and one of the first. -/
def forkEnvironment : Environment :=
  { primitives := tablePrimitives
      [coinbaseBlock 0 255 0 1, coinbaseBlock 1 0 1 37252902, coinbaseBlock 2 1 2 37252902,
        coinbaseBlock 3 1 2 37252902, coinbaseBlock 4 0 1 37252902] []
    checkpoints := { points := [] } }

def forkGenesis : GenesisBlock forkEnvironment.primitives :=
  { block := coinbaseBlock 0 255 0 1
    binaryArray := [0]
    parsed := rfl
    coinbase := rfl }

theorem reaches_wellFormed_first_fork :
    (afterAll forkEnvironment (initRootSegment forkGenesis) [1, 2, 3]).WellFormed
        forkEnvironment.primitives ∧
      ∀ now rawBlock code result,
        (afterAll forkEnvironment (initRootSegment forkGenesis) [1, 2, 3]).addBlock
          forkEnvironment now rawBlock = .ok (code, result) → code.accepted = true →
        (result.WellFormed forkEnvironment.primitives ↔
          (afterAll forkEnvironment (initRootSegment forkGenesis) [1, 2, 3]).ParentSplitsCleanly
            forkEnvironment.primitives rawBlock) :=
  reaches_wellFormed (initRootSegment_sound forkGenesis)
    (reaches_afterAll (by decide +kernel))

/-- The second fork lies below the first one: the segments above the first fork point
keep the root as their parent although the root now ends one block earlier. -/
theorem second_fork_inside_root_not_wellFormed :
    Reaches forkEnvironment (fun _ _ => True) (initRootSegment forkGenesis)
        (afterAll forkEnvironment (initRootSegment forkGenesis) [1, 2, 3]) ∧
      (afterAll forkEnvironment (initRootSegment forkGenesis) [1, 2, 3]).addBlock
          forkEnvironment 0 (codedBlock 4)
        = .ok (.addBlock .addedToAlternative,
          afterAll forkEnvironment (initRootSegment forkGenesis) [1, 2, 3, 4]) ∧
      ¬(afterAll forkEnvironment (initRootSegment forkGenesis) [1, 2, 3, 4]).WellFormed
        forkEnvironment.primitives := by
  refine ⟨reaches_afterAll (by decide +kernel), addBlock_eq_after (by decide +kernel), ?_⟩
  intro wellFormed
  have outline : (afterAll forkEnvironment (initRootSegment forkGenesis) [1, 2, 3, 4]).tree.map
      (fun node => (node.parent, node.startIndex, node.items.length))
      = [(none, 0, 1), (some 0, 2, 1), (some 0, 2, 1), (some 0, 1, 1), (some 0, 1, 1)] := by
    decide +kernel
  have first := congrArg (fun nodes => nodes[0]?) outline
  have second := congrArg (fun nodes => nodes[1]?) outline
  simp only [getElem?_map] at first second
  obtain ⟨root, rootFound, isRoot⟩ := Option.map_eq_some_iff.mp first
  obtain ⟨child, childFound, isChild⟩ := Option.map_eq_some_iff.mp second
  simp only [Prod.mk.injEq] at isRoot isChild
  obtain ⟨_, again, start, -⟩ := wellFormed.tree.parent_found childFound isChild.1
  rw [rootFound] at again
  cases again
  omega

end Core
end Mevacoin
