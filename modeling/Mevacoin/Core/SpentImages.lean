/-
The tables of spent key images. A memory segment records an image once, with the
first of its blocks that spends it; the database records the last block. A lookup is
right as long as no later block of the segment spends an image again.
-/

import Mevacoin.Core.Tables

namespace Mevacoin
open List Nat

variable {entry : BlockEntry} {images : List KeyImage}

def BlockEntry.keyImages (primitives : Primitives) (entry : BlockEntry) : List KeyImage :=
  (entry.transactions primitives).flatMap Transaction.keyImages

def SpentAt (primitives : Primitives) (chain : List BlockEntry) (image : KeyImage)
    (index : Nat) : Prop :=
  ∃ entry, chain[index]? = some entry ∧ image ∈ entry.keyImages primitives

section SpentAt
variable {primitives : Primitives} {chain : List BlockEntry} {image : KeyImage} {index : Nat}

theorem SpentAt.lt_length (spent : SpentAt primitives chain image index) :
    index < chain.length := by
  obtain ⟨entry, found, -⟩ := spent
  exact index_lt found

theorem spentAt_take {count : Nat} :
    SpentAt primitives (chain.take count) image index ↔
      index < count ∧ SpentAt primitives chain image index := by
  unfold SpentAt
  by_cases inside : index < count
  · simp only [getElem?_take_of_lt inside, inside, true_and]
  · simp [inside]

theorem spentAt_append_left {upper : List BlockEntry} (inside : index < chain.length) :
    SpentAt primitives (chain ++ upper) image index ↔ SpentAt primitives chain image index := by
  unfold SpentAt
  rw [getElem?_append_left inside]

theorem spentAt_concat :
    SpentAt primitives (chain ++ [entry]) image index ↔
      SpentAt primitives chain image index ∨
        index = chain.length ∧ image ∈ entry.keyImages primitives := by
  rcases lt_trichotomy index chain.length with below | same | above
  · rw [spentAt_append_left below]
    simp [Nat.ne_of_lt below]
  · subst same
    simp [SpentAt]
  · have outside : ¬SpentAt primitives chain image index :=
      fun spent => lt_asymm above spent.lt_length
    simp only [outside, ne_of_gt above, false_and, or_false, iff_false]
    intro spent
    have bound := spent.lt_length
    rw [length_append, length_singleton] at bound
    omega

end SpentAt

/-! ### The tables -/

/-- Every recorded image is spent by the recorded block of the segment, and every image
that the segment spends is recorded here or spent below. -/
structure BlockchainCache.SpentRecorded (primitives : Primitives) (below : List BlockEntry)
    (cache : BlockchainCache) : Prop where
  spent : ∀ record ∈ cache.spentKeyImages, below.length ≤ record.blockIndex ∧
    SpentAt primitives (below ++ cache.blocks) record.keyImage record.blockIndex
  first : ∀ record ∈ cache.spentKeyImages, ∀ index,
    SpentAt primitives (below ++ cache.blocks) record.keyImage index →
    record.blockIndex ≤ index ∨
      ∃ lower, lower < below.length ∧ SpentAt primitives below record.keyImage lower
  complete : ∀ image index, SpentAt primitives (below ++ cache.blocks) image index →
    (∃ record ∈ cache.spentKeyImages, record.keyImage = image) ∨
      ∃ lower, lower < below.length ∧ SpentAt primitives below image lower

/-- Every image is recorded with the last block that spends it. -/
structure DatabaseBlockchainCache.SpentRecorded (primitives : Primitives)
    (cache : DatabaseBlockchainCache) : Prop where
  stored : ∀ block ∈ cache.blocks, ∀ image, image ∈ block.spentKeyImages ↔
    image ∈ block.entry.keyImages primitives
  spent : ∀ image index, cache.blockIndexBySpentKeyImage image = some index →
    SpentAt primitives cache.entries image index
  last : ∀ image index, cache.blockIndexBySpentKeyImage image = some index →
    ∀ other, SpentAt primitives cache.entries image other → other ≤ index
  complete : ∀ image index, SpentAt primitives cache.entries image index →
    cache.blockIndexBySpentKeyImage image ≠ none

def spentTables (primitives : Primitives) : TableSpec
  | below, .memory cache => cache.SpentRecorded primitives below
  | _, .database cache => cache.SpentRecorded primitives

namespace BlockchainCache.SpentRecorded
variable {primitives : Primitives} {below : List BlockEntry} {cache : BlockchainCache}

theorem create (below : List BlockEntry) (parent : SegmentPtr) :
    (BlockchainCache.create parent below.length).SpentRecorded primitives below where
  spent := fun _ member => nomatch member
  first := fun _ member => nomatch member
  complete := by
    intro image index spent
    change SpentAt primitives (below ++ []) image index at spent
    rw [append_nil] at spent
    exact .inr ⟨index, spent.lt_length, spent⟩

theorem lower (recorded : cache.SpentRecorded primitives below) (splitBlockIndex : Nat)
    (upper : SegmentPtr) (start : cache.startIndex = below.length)
    (above : below.length ≤ splitBlockIndex) :
    (cache.splitLower splitBlockIndex upper).SpentRecorded primitives below := by
  have blocks := splitLower_chain start above upper
  constructor
  · intro record member
    obtain ⟨kept, lower⟩ := mem_filter.mp member
    obtain ⟨here, spent⟩ := recorded.spent record kept
    rw [blocks, spentAt_take]
    exact ⟨here, of_decide_eq_true lower, spent⟩
  · intro record member index spent
    rw [blocks, spentAt_take] at spent
    exact recorded.first record (mem_filter.mp member).1 index spent.2
  · intro image index spent
    rw [blocks, spentAt_take] at spent
    rcases recorded.complete image index spent.2 with ⟨record, member, same⟩ | lower
    · subst same
      rcases recorded.first record member index spent.2 with earlier | lower
      · exact .inl ⟨record, mem_filter.mpr ⟨member, decide_eq_true (by omega)⟩, rfl⟩
      · exact .inr lower
    · exact .inr lower

theorem upper (recorded : cache.SpentRecorded primitives below) (splitBlockIndex : Nat)
    (self : SegmentPtr) (start : cache.startIndex = below.length)
    (above : below.length ≤ splitBlockIndex)
    (inside : splitBlockIndex ≤ below.length + cache.blocks.length) :
    (cache.splitUpper splitBlockIndex self).SpentRecorded primitives
      ((below ++ cache.blocks).take splitBlockIndex) := by
  have length : ((below ++ cache.blocks).take splitBlockIndex).length = splitBlockIndex := by
    rw [length_take, length_append]
    omega
  have blocks := splitUpper_chain start above self
  have under : ∀ {image : KeyImage}, (∃ lower, lower < below.length ∧
      SpentAt primitives below image lower) → ∃ lower, lower < splitBlockIndex ∧
      SpentAt primitives ((below ++ cache.blocks).take splitBlockIndex) image lower := by
    rintro image ⟨lower, isLower, spent⟩
    refine ⟨lower, by omega, spentAt_take.mpr ⟨by omega, ?_⟩⟩
    rwa [spentAt_append_left isLower]
  constructor
  · intro record member
    obtain ⟨kept, upper⟩ := mem_filter.mp member
    rw [blocks, length]
    exact ⟨of_decide_eq_true upper, (recorded.spent record kept).2⟩
  · intro record member index spent
    rw [blocks] at spent
    rw [length]
    exact (recorded.first record (mem_filter.mp member).1 index spent).imp_right under
  · intro image index spent
    rw [blocks] at spent
    rw [length]
    rcases recorded.complete image index spent with ⟨record, member, same⟩ | lower
    · subst same
      by_cases upper : splitBlockIndex ≤ record.blockIndex
      · exact .inl ⟨record, mem_filter.mpr ⟨member, decide_eq_true upper⟩, rfl⟩
      · refine .inr ⟨record.blockIndex, by omega, spentAt_take.mpr ⟨by omega, ?_⟩⟩
        exact (recorded.spent record member).2
    · exact .inr (under lower)

end BlockchainCache.SpentRecorded

theorem spentTables_closed (primitives : Primitives) : (spentTables primitives).Closed where
  addChild := by
    intro below segment child holds
    cases segment with
    | database cache => exact ⟨holds.stored, holds.spent, holds.last, holds.complete⟩
    | memory cache => exact ⟨holds.spent, holds.first, holds.complete⟩
  setParent := by
    intro below segment parent holds
    cases segment with
    | database cache => exact holds
    | memory cache => exact ⟨holds.spent, holds.first, holds.complete⟩
  create := fun below parent => BlockchainCache.SpentRecorded.create below parent
  lower := fun splitBlockIndex upper start above holds =>
    holds.lower splitBlockIndex upper start above
  upper := fun splitBlockIndex self start above inside holds =>
    holds.upper splitBlockIndex self start above inside

/-! ### A push -/

theorem BlockchainCache.mem_addSpentKeyImages {blockIndex : Nat}
    {table : List SpentKeyImage} {record : SpentKeyImage} :
    record ∈ images.foldl (addSpentKeyImage blockIndex) table ↔
      record ∈ table ∨ record.blockIndex = blockIndex ∧ record.keyImage ∈ images ∧
        ∀ old ∈ table, old.keyImage ≠ record.keyImage := by
  induction images generalizing table with
  | nil => simp
  | cons image images ih =>
    rw [foldl_cons, ih]
    unfold addSpentKeyImage
    split
    · rename_i present
      obtain ⟨old, member, same⟩ := any_eq_true.mp present
      have same : old.keyImage = image := of_decide_eq_true same
      refine or_congr_right (and_congr_right fun _ => ?_)
      constructor
      · intro ⟨inImages, missing⟩
        exact ⟨mem_cons_of_mem _ inImages, missing⟩
      · intro ⟨inImages, missing⟩
        refine ⟨(mem_cons.mp inImages).resolve_left ?_, missing⟩
        intro isImage
        exact missing old member (same.trans isImage.symm)
    · rename_i absent
      have missing : ∀ old ∈ table, old.keyImage ≠ image := by
        intro old member same
        exact absent (any_eq_true.mpr ⟨old, member, decide_eq_true same⟩)
      rw [mem_append, mem_singleton, or_assoc]
      refine or_congr_right ?_
      constructor
      · rintro (isNew | ⟨index, inImages, notThere⟩)
        · subst isNew
          exact ⟨rfl, mem_cons_self, missing⟩
        · exact ⟨index, mem_cons_of_mem _ inImages,
            fun old member => notThere old (mem_append_left _ member)⟩
      · rintro ⟨index, inImages, notThere⟩
        by_cases isImage : record.keyImage = image
        · left
          cases index
          cases isImage
          rfl
        · refine .inr ⟨index, (mem_cons.mp inImages).resolve_left isImage, ?_⟩
          intro old member
          rcases mem_append.mp member with inTable | isNew
          · exact notThere old inTable
          · rw [mem_singleton.mp isNew]
            exact Ne.symm isImage

variable {primitives : Primitives} {cache : BlockchainCache}

theorem BlockchainCache.SpentRecorded.push {below : List BlockEntry} {grown : BlockchainCache}
    (recorded : cache.SpentRecorded primitives below)
    (blocks : grown.blocks = cache.blocks ++ [entry])
    (table : grown.spentKeyImages
      = images.foldl (addSpentKeyImage (below ++ cache.blocks).length) cache.spentKeyImages)
    (spends : ∀ image, image ∈ entry.keyImages primitives ↔ image ∈ images) :
    grown.SpentRecorded primitives below := by
  have chain : below ++ grown.blocks = (below ++ cache.blocks) ++ [entry] := by
    rw [blocks, append_assoc]
  have atTop : below.length ≤ (below ++ cache.blocks).length := by
    rw [length_append]
    exact le_add_right _ _
  constructor
  · intro record member
    rw [table, mem_addSpentKeyImages] at member
    rw [chain, spentAt_concat]
    rcases member with old | ⟨index, isImage, -⟩
    · exact ⟨(recorded.spent record old).1, .inl (recorded.spent record old).2⟩
    · rw [index]
      exact ⟨atTop, .inr ⟨rfl, (spends _).mpr isImage⟩⟩
  · intro record member index spent
    rw [table, mem_addSpentKeyImages] at member
    rw [chain, spentAt_concat] at spent
    rcases member with old | ⟨newIndex, -, missing⟩
    · rcases spent with before | ⟨atEnd, -⟩
      · exact recorded.first record old index before
      · exact .inl (by
          rw [atEnd]
          exact le_of_lt (recorded.spent record old).2.lt_length)
    · rcases spent with before | ⟨atEnd, -⟩
      · rcases recorded.complete record.keyImage index before with ⟨old, member, same⟩ | lower
        · exact absurd same (missing old member)
        · exact .inr lower
      · exact .inl (by rw [newIndex, atEnd])
  · intro image index spent
    rw [chain, spentAt_concat] at spent
    rw [table]
    rcases spent with before | ⟨-, isImage⟩
    · rcases recorded.complete image index before with ⟨record, member, same⟩ | lower
      · exact .inl ⟨record, mem_addSpentKeyImages.mpr (.inl member), same⟩
      · exact .inr lower
    · rw [spends] at isImage
      by_cases present : ∃ record ∈ cache.spentKeyImages, record.keyImage = image
      · obtain ⟨record, member, same⟩ := present
        exact .inl ⟨record, mem_addSpentKeyImages.mpr (.inl member), same⟩
      · refine .inl ⟨⟨(below ++ cache.blocks).length, image⟩,
          mem_addSpentKeyImages.mpr (.inr ⟨rfl, isImage, ?_⟩), rfl⟩
        intro old member same
        exact present ⟨old, member, same⟩

theorem DatabaseBlockchainCache.SpentRecorded.push {cache grown : DatabaseBlockchainCache}
    (recorded : cache.SpentRecorded primitives)
    (blocks : ∃ block, grown.blocks = cache.blocks ++ [block] ∧ block.entry = entry ∧
      block.spentKeyImages = images)
    (table : grown.blockIndexBySpentKeyImage = fun image =>
      if image ∈ images then some cache.blocks.length else cache.blockIndexBySpentKeyImage image)
    (spends : ∀ image, image ∈ entry.keyImages primitives ↔ image ∈ images) :
    grown.SpentRecorded primitives := by
  obtain ⟨block, blocks, isEntry, isImages⟩ := blocks
  have length : cache.blocks.length = cache.entries.length := cache.entries_length.symm
  have entries : grown.entries = cache.entries ++ [entry] := by
    rw [entries_eq, entries_eq, blocks, map_append, map_singleton, isEntry]
  constructor
  · intro other member image
    rw [blocks] at member
    rcases mem_append.mp member with old | isNew
    · exact recorded.stored other old image
    · rw [mem_singleton.mp isNew, isEntry, isImages, spends]
  · intro image index found
    rw [table] at found
    rw [entries, spentAt_concat, spends]
    simp only at found
    split at found
    · rename_i isImage
      cases found
      exact .inr ⟨length, isImage⟩
    · exact .inl (recorded.spent image index found)
  · intro image index found other spent
    rw [table] at found
    rw [entries, spentAt_concat, spends] at spent
    simp only at found
    split at found
    · cases found
      rcases spent with before | ⟨atEnd, -⟩
      · rw [length]
        exact le_of_lt before.lt_length
      · rw [atEnd, length]
    · rename_i notImage
      rcases spent with before | ⟨-, isImage⟩
      · exact recorded.last image index found other before
      · exact absurd isImage notImage
  · intro image index spent
    rw [entries, spentAt_concat, spends] at spent
    rw [table]
    simp only
    split
    · exact Option.some_ne_none _
    · rename_i notImage
      rcases spent with before | ⟨-, isImage⟩
      · exact recorded.complete image index before
      · exact absurd isImage notImage

theorem spentTables_push {chain : List BlockEntry}
    {pushed : PushedBlock} (index : pushed.block.getBlockIndex = chain.length)
    (spends : ∀ totals image, image ∈ (pushed.entry primitives totals).keyImages primitives ↔
      image ∈ pushed.validatorState.spentKeyImages) :
    Core.PushKeeps (spentTables primitives) primitives chain pushed := by
  intro segment parents grown stack ran
  cases stack with
  | database holds =>
    obtain ⟨result, pushRan, rfl⟩ := Option.map_eq_some_iff.mp ran
    obtain ⟨last, -, -, -, -, table, blocks⟩ := DatabaseBlockchainCache.pushBlock_eq_some pushRan
    exact DatabaseBlockchainCache.SpentRecorded.push holds blocks table (spends _)
  | @memory parents below cache stack start holds =>
    obtain ⟨result, pushRan, rfl⟩ := Option.map_eq_some_iff.mp ran
    obtain ⟨totals, -, blocks, -, -, -, table⟩ := BlockchainCache.pushBlock_eq_some pushRan
    change spentTables primitives (List.take cache.startIndex _) _
    rw [start, take_left]
    rw [index] at table
    exact BlockchainCache.SpentRecorded.push holds blocks table (spends _)

/-! ### A split of the root -/

/-- No block from the index upwards spends an image that a block below it spends. -/
def SpentApart (primitives : Primitives) (chain : List BlockEntry) (index : Nat) : Prop :=
  ∀ image lower upper, lower < index → index ≤ upper → SpentAt primitives chain image lower →
    ¬SpentAt primitives chain image upper

variable {image : KeyImage}

namespace DatabaseBlockchainCache.SpentRecorded
variable {primitives : Primitives} {cache : DatabaseBlockchainCache} {splitBlockIndex : Nat}

section
variable (recorded : cache.SpentRecorded primitives)
include recorded

theorem mem_deleted :
    image ∈ (cache.blocks.drop splitBlockIndex).flatMap DatabaseBlock.spentKeyImages ↔
      ∃ index, splitBlockIndex ≤ index ∧ SpentAt primitives cache.entries image index := by
  rw [mem_flatMap]
  constructor
  · rintro ⟨block, member, spends⟩
    rw [recorded.stored block (mem_of_mem_drop member)] at spends
    obtain ⟨position, found⟩ := mem_iff_getElem?.mp member
    rw [getElem?_drop] at found
    exact ⟨splitBlockIndex + position, le_add_right _ _, block.entry,
      by rw [entries_eq, getElem?_map, found, Option.map_some], spends⟩
  · rintro ⟨index, above, entry, found, spends⟩
    rw [entries_eq, getElem?_map] at found
    obtain ⟨block, isBlock, rfl⟩ := Option.map_eq_some_iff.mp found
    rw [← recorded.stored block (mem_of_getElem? isBlock)] at spends
    refine ⟨block, mem_iff_getElem?.mpr ⟨index - splitBlockIndex, ?_⟩, spends⟩
    rw [getElem?_drop, Nat.add_sub_cancel' above, isBlock]

theorem lower {lower : DatabaseBlockchainCache} {upper : SegmentPtr}
    (apart : SpentApart primitives cache.entries splitBlockIndex)
    (ran : cache.deleteUpper splitBlockIndex upper = some lower) :
    lower.SpentRecorded primitives := by
  obtain ⟨blocks, -, -, table⟩ := deleteUpper_eq_some ran
  have entries := entries_of_take blocks
  constructor
  · intro block member
    rw [blocks] at member
    exact recorded.stored block (mem_of_mem_take member)
  · intro image index found
    rw [table] at found
    rw [entries, spentAt_take]
    simp only at found
    split at found
    · cases found
    · rename_i kept
      have spent := recorded.spent image index found
      refine ⟨?_, spent⟩
      by_contra above
      exact kept (recorded.mem_deleted.mpr ⟨index, Nat.le_of_not_lt above, spent⟩)
  · intro image index found other spent
    rw [table] at found
    rw [entries, spentAt_take] at spent
    simp only at found
    split at found
    · cases found
    · exact recorded.last image index found other spent.2
  · intro image index spent
    rw [entries, spentAt_take] at spent
    rw [table]
    simp only
    split
    · rename_i deleted
      obtain ⟨other, above, again⟩ := recorded.mem_deleted.mp deleted
      exact absurd again (apart image index other spent.1 above spent.2)
    · exact recorded.complete image index spent.2

theorem stored_images {index : Nat}
    {block : DatabaseBlock} (isBlock : cache.blocks[index]? = some block)
    (isEntry : cache.entries[index]? = some entry) (image : KeyImage) :
    image ∈ entry.keyImages primitives ↔ image ∈ block.spentKeyImages := by
  rw [entries_eq, getElem?_map, isBlock] at isEntry
  cases isEntry
  exact (recorded.stored block (mem_of_getElem? isBlock) image).symm

theorem upper {upper : BlockchainCache} {self : SegmentPtr}
    (chain : cache.entries.IsChain (Recorded primitives))
    (genesis : ∀ first ∈ cache.entries.head?, first.blockIndex primitives = 0)
    (positive : 0 < splitBlockIndex) (inside : splitBlockIndex < cache.blocks.length)
    (ran : cache.replayUpper primitives splitBlockIndex self = some upper) :
    upper.SpentRecorded primitives (cache.entries.take splitBlockIndex) := by
  have length : (cache.entries.take splitBlockIndex).length = splitBlockIndex := by
    rw [length_take, entries_length]
    omega
  refine (replayUpper_replayed chain genesis
    (fun built => built.SpentRecorded primitives (cache.entries.take splitBlockIndex))
    positive inside ran ?_ ?_).2
  · have created : (BlockchainCache.create self (cache.entries.take splitBlockIndex).length).SpentRecorded
        primitives (cache.entries.take splitBlockIndex) := .create _ self
    rwa [length] at created
  · intro blockIndex pushed entry built grown above replayed step holds
    obtain ⟨stored, -, -, isStored, -, -, -, -, images, -⟩ :=
      getExtendedPushedBlockInfo_eq_some (by omega) step.stored
    obtain ⟨-, -, -, -, -, -, table⟩ := BlockchainCache.pushBlock_eq_some step.ran
    have atTop : (cache.entries.take splitBlockIndex ++ built.blocks).length = blockIndex := by
      have := index_lt step.found
      rw [← replayed.under above, length_take]
      omega
    rw [step.index, ← atTop, images] at table
    exact holds.push step.blocks table (recorded.stored_images isStored step.found)

end
end DatabaseBlockchainCache.SpentRecorded

/-! ### The lookup -/

theorem BlockchainCache.findSpentKeyImage_eq_some
    {record : SpentKeyImage} (found : cache.findSpentKeyImage image = some record) :
    record ∈ cache.spentKeyImages ∧ record.keyImage = image := by
  have holds := find?_some found
  exact ⟨mem_of_find?_eq_some found, of_decide_eq_true holds⟩

theorem BlockchainCache.findSpentKeyImage_eq_none (missing : cache.findSpentKeyImage image = none) :
    ¬∃ record ∈ cache.spentKeyImages, record.keyImage = image := by
  rintro ⟨record, member, same⟩
  have absent := find?_eq_none.mp missing record member
  exact absent (decide_eq_true same)

theorem checkIfSpent_iff {segments : List Segment}
    {chain : List BlockEntry} (stack : TabledStack (spentTables primitives) segments chain)
    {blockIndex : Nat} (apart : SpentApart primitives chain (blockIndex + 1)) (image : KeyImage) :
    Lineage.checkIfSpent image blockIndex segments = true ↔
      ∃ index ≤ blockIndex, SpentAt primitives chain image index := by
  induction stack with
  | @database cache holds =>
    unfold Lineage.checkIfSpent
    cases found : cache.blockIndexBySpentKeyImage image with
    | none =>
      simp only [Bool.false_eq_true, false_iff]
      rintro ⟨index, -, spent⟩
      exact holds.complete image index spent found
    | some recorded =>
      simp only [decide_eq_true_eq]
      constructor
      · intro inside
        exact ⟨recorded, inside, holds.spent image recorded found⟩
      · rintro ⟨index, inside, spent⟩
        by_contra later
        exact apart image index recorded (by omega) (by omega) spent
          (holds.spent image recorded found)
  | @memory parents below cache stack start holds ih =>
    have under : SpentApart primitives below (blockIndex + 1) := by
      intro image lower upper isLower isUpper spentLower spentUpper
      refine apart image lower upper isLower isUpper ?_ ?_
      · rwa [spentAt_append_left spentLower.lt_length]
      · rwa [spentAt_append_left spentUpper.lt_length]
    have extends_below : (∃ index ≤ blockIndex, SpentAt primitives below image index) →
        ∃ index ≤ blockIndex, SpentAt primitives (below ++ cache.blocks) image index := by
      rintro ⟨index, inside, spent⟩
      exact ⟨index, inside, by rwa [spentAt_append_left spent.lt_length]⟩
    unfold Lineage.checkIfSpent
    split
    · rw [ih under]
      refine ⟨extends_below, ?_⟩
      rintro ⟨index, inside, spent⟩
      refine ⟨index, inside, ?_⟩
      rwa [spentAt_append_left (by omega)] at spent
    · cases found : cache.findSpentKeyImage image with
      | none =>
        rw [ih under]
        refine ⟨extends_below, ?_⟩
        rintro ⟨index, inside, spent⟩
        rcases holds.complete image index spent with recorded | ⟨lower, isLower, again⟩
        · exact absurd recorded (BlockchainCache.findSpentKeyImage_eq_none found)
        · exact ⟨lower, by omega, again⟩
      | some record =>
        obtain ⟨member, rfl⟩ := BlockchainCache.findSpentKeyImage_eq_some found
        have spent := (holds.spent record member).2
        simp only [decide_eq_true_eq]
        constructor
        · intro inside
          exact ⟨record.blockIndex, inside, spent⟩
        · rintro ⟨index, inside, earlier⟩
          by_contra later
          exact apart record.keyImage index record.blockIndex (by omega) (by omega) earlier
            spent

end Mevacoin
