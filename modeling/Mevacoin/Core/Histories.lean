/-
Whole runs of the core. One rule carries what a step of the chains keeps along every run
that splits no branched root: no block of any chain is lost, the main chain stays the
heaviest and never becomes lighter, and every block adds work.
-/

import Mevacoin.Core.Heaviest

namespace Mevacoin
namespace Core
open List

variable {environment : Environment} {core result start : Core} {chain : List BlockEntry}

/-- What holds at the start and is kept by every accepted block holds along the run. -/
theorem Sound.reaches_induction {permitted : Core → RawBlock → Prop} {motive : Core → Prop}
    (sound : start.Sound environment.primitives)
    (clean : ∀ core rawBlock, permitted core rawBlock →
      core.ParentSplitsCleanly environment.primitives rawBlock)
    (base : motive start)
    (step : ∀ {now core rawBlock ptr segment accepted data below code result},
      permitted core rawBlock → core.Sound environment.primitives →
      result.Sound environment.primitives →
      Extension environment now core rawBlock ptr segment accepted data below →
      (core.ancestors ptr accepted).getLast? = some below →
      ChainStep core result (core.ancestors ptr accepted)
        (accepted.pushed.entry environment.primitives (.ofInfo below.info)) code →
      motive core → motive result)
    (run : Reaches environment permitted start core) : motive core := by
  have both : core.Sound environment.primitives ∧ motive core := by
    induction run with
    | refl => exact ⟨sound, base⟩
    | tail _ next ih =>
      obtain ⟨now, rawBlock, code, isPermitted, ran⟩ := next
      obtain ⟨here, holds⟩ := ih
      have isClean := clean _ _ isPermitted
      have after := here.addBlock isClean ran
      refine ⟨after, ?_⟩
      rcases addBlock_eq_ok here ran with unchanged | placed
      · rw [unchanged.2]
        exact holds
      · obtain ⟨ptr, segment, accepted, data, below, extension, placement⟩ := placed
        have isLast := (ancestors_getLast? here.toTreeSound extension.found extension.parent).2
        exact step isPermitted here after extension isLast (placement.chainStep here extension
          (extension.splitsCleanly_iff.mp isClean)) holds
  exact both.2

theorem ChainStep.keeps_chain {ancestors : List BlockEntry} {entry : BlockEntry} {code : ErrorCode}
    (step : ChainStep core result ancestors entry code) (member : chain ∈ core.chains) :
    ∃ longer ∈ result.chains, chain <+: longer := by
  by_cases extended : chain = ancestors
  · refine ⟨ancestors ++ [entry], ?_, extended ▸ prefix_append _ _⟩
    cases step <;> simp_all
  · refine ⟨chain, ?_, prefix_refl _⟩
    cases step <;> grind

theorem chainWork_le_of_begins {longer : List BlockEntry} (weighted : Weighted longer)
    (isPrefix : chain <+: longer) : chainWork chain ≤ chainWork longer := by
  cases isLast : chain.getLast? with
  | none =>
    rw [chainWork, isLast]
    exact UInt64.zero_le
  | some entry =>
    obtain ⟨rest, rfl⟩ := isPrefix
    have found : (chain ++ rest)[chain.length - 1]? = some entry := by
      rw [getLast?_eq_getElem?] at isLast
      rw [getElem?_append_left (index_lt isLast), isLast]
    have reached := weighted.le_chainWork found
    simpa [chainWork, isLast] using reached

/-- No accepted block is ever lost: every chain goes on in some chain of every later state. -/
theorem reaches_keeps_chains (sound : start.Sound environment.primitives)
    (run : Reaches environment (ParentSplitsCleanly environment.primitives) start core) :
    ∀ chain ∈ start.chains, ∃ longer ∈ core.chains, chain <+: longer := by
  refine sound.reaches_induction (motive := fun core => ∀ chain ∈ start.chains,
    ∃ longer ∈ core.chains, chain <+: longer) (fun _ _ clean => clean) ?_ ?_ run
  · exact fun chain member => ⟨chain, member, prefix_refl _⟩
  · intro now core rawBlock ptr segment accepted data below code result _ _ _ _ _ step kept chain
      member
    obtain ⟨middle, inCore, first⟩ := kept chain member
    obtain ⟨longer, inResult, second⟩ := step.keeps_chain inCore
    exact ⟨longer, inResult, first.trans second⟩

def WorkRises (core : Core) : Prop :=
  ∀ chain ∈ core.chains, chain.IsChain fun below above =>
    below.info.cumulativeDifficulty < above.info.cumulativeDifficulty

section
variable (sound : start.Sound environment.primitives)
  (run : Reaches environment (fun core rawBlock =>
    core.ParentSplitsCleanly environment.primitives rawBlock ∧
      core.WorkInRange environment.primitives rawBlock) start core)
include sound run

/-- Along every run without a split of a branched root the main leaf is the heaviest, and
its work never falls. -/
theorem reaches_heaviest (recorded : start.DifficultiesRecorded) (heaviest : start.Heaviest) :
    core.Heaviest ∧ core.DifficultiesRecorded ∧
      ∀ old ∈ start.works.head?, ∀ new ∈ core.works.head?, old ≤ new := by
  refine sound.reaches_induction (motive := fun core => core.Heaviest ∧ core.DifficultiesRecorded ∧
    ∀ old ∈ start.works.head?, ∀ new ∈ core.works.head?, old ≤ new)
    (fun _ _ permitted => permitted.1) ?_ ?_ run
  · refine ⟨heaviest, recorded, ?_⟩
    intro old isOld new isNew
    cases isOld.symm.trans isNew
    exact UInt64.le_refl _
  · intro now core rawBlock ptr segment accepted data below code result permitted here after
      extension isLast step holds
    obtain ⟨isHeaviest, isRecorded, grown⟩ := holds
    have isNext := extension.nextDifficulty_eq here
    have bound := extension.work_lt permitted.2
    have weighted := step.difficultiesRecorded isRecorded isLast isNext rfl bound
    have heaviest := (step.heaviest here.toTreeSound after.toTreeSound isRecorded isHeaviest isLast
      isNext rfl bound).1
    refine ⟨heaviest, weighted, ?_⟩
    intro old isOld new isNew
    have works := works_eq here.toTreeSound
    cases chains : core.chains with
    | nil => exact absurd (map_eq_nil_iff.mp chains) here.toTreeSound.leaves_nonempty
    | cons main others =>
      rw [chains, map_cons] at works
      have below := grown old isOld (chainWork main) (by rw [works]; rfl)
      obtain ⟨longer, member, isPrefix⟩ := step.keeps_chain (chains ▸ mem_cons_self)
      have inWorks : chainWork longer ∈ result.works := by
        rw [works_eq after.toTreeSound]
        exact mem_map_of_mem member
      exact UInt64.le_trans (UInt64.le_trans below (chainWork_le_of_begins
        (weighted longer member) isPrefix)) (heaviest new isNew _ inWorks)

/-- Along every chain the cumulative difficulties rise strictly. -/
theorem reaches_workRises (rising : start.WorkRises) : core.WorkRises := by
  refine sound.reaches_induction (motive := WorkRises) (fun _ _ permitted => permitted.1) rising
    ?_ run
  intro now core rawBlock ptr segment accepted data below code result permitted here after
    extension isLast step holds chain member
  rcases step.mem_chains member with old | ⟨rfl, longer, inCore, isPrefix⟩
  · exact holds chain old
  · obtain ⟨rest, isLonger⟩ := isPrefix
    have lower := holds longer inCore
    rw [← isLonger, isChain_append] at lower
    refine isChain_append.mpr ⟨lower.1, isChain_singleton _, ?_⟩
    intro last isBelow top isTop
    cases isLast.symm.trans isBelow
    cases isTop
    have bound := extension.work_lt permitted.2
    have positive : accepted.pushed.blockDifficulty.toNat ≠ 0 := fun isZero =>
      extension.acceptance.difficulty_ne_zero (UInt64.toNat_inj.mp isZero)
    change below.info.cumulativeDifficulty
      < below.info.cumulativeDifficulty + accepted.pushed.blockDifficulty
    rw [UInt64.lt_iff_toNat_lt, UInt64.toNat_add, Nat.mod_eq_of_lt bound]
    omega

end

/-- After block 7 of the example the blocks 3, 4 and 7 are the main chain. -/
def afterSwitch : Core :=
  afterAll switchEnvironment (initRootSegment switchGenesis) [1, 2, 3, 4, 7]

theorem reaches_keeps_chains_switch : ∃ chain ∈ (initRootSegment switchGenesis).chains,
    ∃ longer ∈ afterSwitch.chains, chain <+: longer := by
  obtain ⟨chain, member⟩ := exists_mem_of_ne_nil (initRootSegment switchGenesis).chains
    (by decide +kernel)
  exact ⟨chain, member, reaches_keeps_chains (initRootSegment_sound switchGenesis)
    (reaches_afterAll (by decide +kernel)) chain member⟩

theorem reaches_heaviest_switch : afterSwitch.Heaviest :=
  (reaches_heaviest (initRootSegment_sound switchGenesis) (reaches_afterAll (by decide +kernel))
    (by decide +kernel) (by decide +kernel)).1

theorem reaches_workRises_switch : afterSwitch.WorkRises :=
  reaches_workRises (initRootSegment_sound switchGenesis) (reaches_afterAll (by decide +kernel))
    (by unfold WorkRises; decide +kernel)

end Core
end Mevacoin
