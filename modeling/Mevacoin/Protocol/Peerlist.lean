/-
The white and the gray list of known peers. Every entry that arrives is first looked up by
its address; a list that grows beyond its limit is sorted by the time at which the peers
were last seen and cut.

Peers seen at the same time keep their order when they are sorted.
-/

import Mathlib.Data.List.Nodup
import Mathlib.Data.List.Perm.Subperm

namespace Mevacoin.Peerlists
open List

structure NetworkAddress where
  ip : UInt32
  port : UInt32
  deriving DecidableEq, Repr

structure PeerlistEntry where
  adr : NetworkAddress
  id : UInt64
  lastSeen : UInt64
  deriving DecidableEq, Repr

structure PeerlistManager where
  allowLocalIp : Bool
  white : List PeerlistEntry
  gray : List PeerlistEntry
  deriving DecidableEq, Repr

def p2pLocalWhitePeerlistLimit : Nat := 1000
def p2pLocalGrayPeerlistLimit : Nat := 5000

def networkToHost (n : UInt32) : UInt32 :=
  (n <<< 24) ||| ((n &&& 0xff00) <<< 8) ||| ((n &&& 0xff0000) >>> 8) ||| (n >>> 24)

def isLoopback (value : UInt32) : Bool := value &&& (0xff000000 : UInt32) = (127 : UInt32) <<< 24

def isPrivate (value : UInt32) : Bool :=
  value &&& (0xff000000 : UInt32) = (10 : UInt32) <<< 24 ∨
    value &&& (0xfff00000 : UInt32) = ((172 : UInt32) <<< 24 ||| (16 : UInt32) <<< 16) ∨
    value &&& (0xffff0000 : UInt32) = ((192 : UInt32) <<< 24 ||| (168 : UInt32) <<< 16)

def isIpAllowed (allowLocalIp : Bool) (ip : UInt32) : Bool :=
  ¬isLoopback (networkToHost ip) ∧ (allowLocalIp ∨ ¬isPrivate (networkToHost ip))

/-- Newer peers come first. -/
def sortBySeen (peers : List PeerlistEntry) : List PeerlistEntry :=
  peers.mergeSort fun first second => second.lastSeen ≤ first.lastSeen

def trim (maxSize : Nat) (peers : List PeerlistEntry) : List PeerlistEntry :=
  if peers.length ≤ maxSize then peers else (sortBySeen peers).take maxSize

def record (maxSize : Nat) (newPeer : PeerlistEntry) (peers : List PeerlistEntry) :
    List PeerlistEntry :=
  match peers.findIdx? fun peer => peer.adr = newPeer.adr with
  | none => trim maxSize (peers ++ [newPeer])
  | some index => peers.set index newPeer

namespace PeerlistManager

def appendWithPeerWhite (manager : PeerlistManager) (newPeer : PeerlistEntry) :
    PeerlistManager :=
  if isIpAllowed manager.allowLocalIp newPeer.adr.ip then
    { manager with
      white := record p2pLocalWhitePeerlistLimit newPeer manager.white
      gray := manager.gray.eraseP fun peer => peer.adr = newPeer.adr }
  else manager

def appendWithPeerGray (manager : PeerlistManager) (newPeer : PeerlistEntry) :
    PeerlistManager :=
  if isIpAllowed manager.allowLocalIp newPeer.adr.ip then
    if manager.white.any fun peer => peer.adr = newPeer.adr then manager
    else
      { manager with gray := record p2pLocalGrayPeerlistLimit newPeer manager.gray }
  else manager

def setPeerJustSeen (manager : PeerlistManager) (now peer : UInt64) (addr : NetworkAddress) :
    PeerlistManager :=
  manager.appendWithPeerWhite { adr := addr, id := peer, lastSeen := now }

def mergePeerlist (manager : PeerlistManager) (outerBs : List PeerlistEntry) :
    PeerlistManager :=
  let merged := outerBs.foldl appendWithPeerGray manager
  { merged with gray := trim p2pLocalGrayPeerlistLimit merged.gray }

def getPeerlistHead (manager : PeerlistManager) (depth : UInt32) :
    List PeerlistEntry × PeerlistManager :=
  let sorted := sortBySeen manager.white
  ((sorted.filter fun peer => peer.lastSeen ≠ 0).take (depth.toNat + 2),
    { manager with white := sorted })

end PeerlistManager

inductive Call where
  | appendWithPeerWhite (newPeer : PeerlistEntry)
  | appendWithPeerGray (newPeer : PeerlistEntry)
  | setPeerJustSeen (now peer : UInt64) (addr : NetworkAddress)
  | mergePeerlist (outerBs : List PeerlistEntry)
  | getPeerlistHead (depth : UInt32)

def call (manager : PeerlistManager) : Call → PeerlistManager
  | .appendWithPeerWhite newPeer => manager.appendWithPeerWhite newPeer
  | .appendWithPeerGray newPeer => manager.appendWithPeerGray newPeer
  | .setPeerJustSeen now peer addr => manager.setPeerJustSeen now peer addr
  | .mergePeerlist outerBs => manager.mergePeerlist outerBs
  | .getPeerlistHead depth => (manager.getPeerlistHead depth).2

def afterCalls (allowLocalIp : Bool) (calls : List Call) : PeerlistManager :=
  calls.foldl call { allowLocalIp := allowLocalIp, white := [], gray := [] }

open PeerlistEntry (adr)
open PeerlistManager (appendWithPeerGray)

/-! ### One list -/

/-- An entry whose address is gone was not seen later than any entry that is there. -/
def DropsOldest (before after : List PeerlistEntry) : Prop :=
  ∀ dropped ∈ before, dropped.adr ∉ after.map adr → ∀ kept ∈ after, dropped.lastSeen ≤ kept.lastSeen

structure CleanList (allowLocalIp : Bool) (maxSize : Nat) (peers : List PeerlistEntry) :
    Prop where
  distinct : (peers.map adr).Nodup
  bounded : peers.length ≤ maxSize
  allowed : ∀ peer ∈ peers, isIpAllowed allowLocalIp peer.adr.ip

variable {allowLocalIp : Bool} {maxSize : Nat} {newPeer : PeerlistEntry}
  {peers fewer : List PeerlistEntry}

theorem perm_sortBySeen : (sortBySeen peers).Perm peers := mergeSort_perm peers _

theorem sorted_sortBySeen :
    (sortBySeen peers).Pairwise fun first second => second.lastSeen ≤ first.lastSeen := by
  refine (pairwise_mergeSort ?_ ?_ peers).imp of_decide_eq_true
  · simpa using fun a b c second first => UInt64.le_trans first second
  · simpa using fun a b => UInt64.le_total _ _

theorem trim_subperm : (trim maxSize peers).Subperm peers := by
  unfold trim
  split
  · exact Subperm.refl _
  · exact (take_sublist _ _).subperm.trans perm_sortBySeen.subperm

theorem trim_dropsOldest : DropsOldest peers (trim maxSize peers) := by
  intro dropped member gone kept isKept
  unfold trim at gone isKept
  split at gone
  · exact absurd (mem_map_of_mem member) gone
  · rw [if_neg (by assumption)] at isKept
    have sorted := @sorted_sortBySeen peers
    have either := perm_sortBySeen.mem_iff.mpr member
    rw [← take_append_drop maxSize (sortBySeen peers)] at sorted either
    rcases mem_append.mp either with inside | outside
    · exact absurd (mem_map_of_mem inside) gone
    · exact (pairwise_append.mp sorted).2.2 kept isKept dropped outside

private theorem nodup_of_subperm (distinct : (peers.map adr).Nodup)
    (inside : fewer.Subperm peers) : (fewer.map adr).Nodup := by
  obtain ⟨_, same, sublist⟩ := inside
  exact (same.map _).nodup_iff.mp (distinct.sublist (sublist.map _))

theorem CleanList.subperm (clean : CleanList allowLocalIp maxSize peers)
    (inside : fewer.Subperm peers) : CleanList allowLocalIp maxSize fewer where
  distinct := nodup_of_subperm clean.distinct inside
  bounded := Nat.le_trans inside.length_le clean.bounded
  allowed peer member := clean.allowed peer (inside.subset member)

/-- A known peer's entry is replaced, and the addresses stay as they are. -/
private theorem record_known (known : newPeer.adr ∈ peers.map adr) :
    newPeer ∈ record maxSize newPeer peers ∧
    (record maxSize newPeer peers).map adr = peers.map adr := by
  unfold record
  split
  · rename_i unknown
    obtain ⟨peer, member, same⟩ := mem_map.mp known
    simpa [same] using findIdx?_eq_none_iff.mp unknown peer member
  · rename_i index found
    obtain ⟨inside, same, -⟩ := findIdx?_eq_some_iff_getElem.mp found
    refine ⟨mem_set inside newPeer, ?_⟩
    rw [map_set, ← of_decide_eq_true same, ← getElem_map adr, set_getElem_self]
    rwa [length_map]

private theorem record_unknown (unknown : newPeer.adr ∉ peers.map adr) :
    record maxSize newPeer peers = trim maxSize (peers ++ [newPeer]) := by
  have missing : peers.findIdx? (fun peer => peer.adr = newPeer.adr) = none := by
    apply findIdx?_eq_none_iff.mpr
    intro peer member
    exact decide_eq_false fun same => unknown (same ▸ mem_map_of_mem member)
  rw [record, missing]

theorem mem_record {peer : PeerlistEntry} (member : peer ∈ record maxSize newPeer peers) :
    peer ∈ peers ++ [newPeer] := by
  unfold record at member
  split at member
  · exact trim_subperm.subset member
  · rcases mem_or_eq_of_mem_set member with old | new
    · exact mem_append_left _ old
    · simp [new]

theorem CleanList.record (clean : CleanList allowLocalIp maxSize peers)
    (newAllowed : isIpAllowed allowLocalIp newPeer.adr.ip) :
    CleanList allowLocalIp maxSize (record maxSize newPeer peers) where
  distinct := by
    by_cases known : newPeer.adr ∈ peers.map adr
    · rw [(record_known known).2]
      exact clean.distinct
    · rw [record_unknown known]
      refine nodup_of_subperm ?_ trim_subperm
      rw [map_append, map_singleton, ← concat_eq_append]
      exact clean.distinct.concat known
  bounded := by
    unfold Peerlists.record trim
    split
    · split
      · assumption
      · exact length_take_le _ _
    · rw [length_set]
      exact clean.bounded
  allowed peer member := by
    rcases mem_append.mp (mem_record member) with old | new
    · exact clean.allowed peer old
    · rwa [mem_singleton.mp new]

theorem record_dropsOldest :
    DropsOldest (peers ++ [newPeer]) (record maxSize newPeer peers) := by
  by_cases known : newPeer.adr ∈ peers.map adr
  · intro dropped member gone
    rw [(record_known known).2] at gone
    rcases mem_append.mp member with old | new
    · exact absurd (mem_map_of_mem old) gone
    · exact absurd (mem_singleton.mp new ▸ known) gone
  · rw [record_unknown known]
    exact trim_dropsOldest

/-! ### Both lists -/

namespace PeerlistManager

structure Clean (manager : PeerlistManager) : Prop where
  white : CleanList manager.allowLocalIp p2pLocalWhitePeerlistLimit manager.white
  gray : CleanList manager.allowLocalIp p2pLocalGrayPeerlistLimit manager.gray
  apart : ∀ peer ∈ manager.white, ∀ other ∈ manager.gray, peer.adr ≠ other.adr

variable {manager : PeerlistManager}

theorem Clean.appendWithPeerWhite (clean : manager.Clean) :
    (manager.appendWithPeerWhite newPeer).Clean := by
  unfold PeerlistManager.appendWithPeerWhite
  split
  · rename_i newAllowed
    have erased := clean.gray.distinct.not_mem_erase (a := newPeer.adr)
    rw [erase_eq_eraseP', eraseP_map] at erased
    change newPeer.adr ∉ map _ (manager.gray.eraseP fun peer => peer.adr = newPeer.adr) at erased
    refine ⟨clean.white.record newAllowed, clean.gray.subperm eraseP_sublist.subperm, ?_⟩
    intro peer member other isGray
    rcases mem_append.mp (mem_record member) with old | new
    · exact clean.apart peer old other (mem_of_mem_eraseP isGray)
    · rw [mem_singleton.mp new]
      intro same
      exact erased (mem_map.mpr ⟨other, isGray, same.symm⟩)
  · exact clean

theorem Clean.appendWithPeerGray (clean : manager.Clean) :
    (manager.appendWithPeerGray newPeer).Clean := by
  unfold PeerlistManager.appendWithPeerGray
  split
  · rename_i newAllowed
    split
    · exact clean
    · rename_i unknown
      refine ⟨clean.white, clean.gray.record newAllowed, ?_⟩
      intro peer isWhite other member
      rcases mem_append.mp (mem_record member) with old | new
      · exact clean.apart peer isWhite other old
      · rw [mem_singleton.mp new]
        intro same
        exact unknown (any_eq_true.mpr ⟨peer, isWhite, decide_eq_true same⟩)
  · exact clean

theorem Clean.foldl (clean : manager.Clean) (outerBs : List PeerlistEntry) :
    (outerBs.foldl PeerlistManager.appendWithPeerGray manager).Clean := by
  exact foldlRecOn outerBs _ clean fun _ earlier _ _ => earlier.appendWithPeerGray

/-- The lists have been trimmed already when a merge comes to its last step. -/
theorem Clean.mergePeerlist_eq (clean : manager.Clean) (outerBs : List PeerlistEntry) :
    manager.mergePeerlist outerBs = outerBs.foldl PeerlistManager.appendWithPeerGray manager := by
  rw [mergePeerlist, trim, if_pos (clean.foldl outerBs).gray.bounded]

end PeerlistManager

theorem PeerlistManager.Clean.call {manager : PeerlistManager} (clean : manager.Clean)
    (request : Call) : (call manager request).Clean := by
  cases request with
  | appendWithPeerWhite newPeer => exact clean.appendWithPeerWhite
  | appendWithPeerGray newPeer => exact clean.appendWithPeerGray
  | setPeerJustSeen now peer addr => exact clean.appendWithPeerWhite
  | mergePeerlist outerBs =>
    show (manager.mergePeerlist outerBs).Clean
    rw [clean.mergePeerlist_eq]
    exact clean.foldl outerBs
  | getPeerlistHead depth =>
    refine ⟨clean.white.subperm perm_sortBySeen.subperm, clean.gray, ?_⟩
    intro peer member
    exact clean.apart peer (perm_sortBySeen.mem_iff.mp member)

theorem clean_afterCalls (allowLocalIp : Bool) (calls : List Call) :
    (afterCalls allowLocalIp calls).Clean := by
  refine foldlRecOn calls _ ?_ fun _ earlier request _ => earlier.call request
  refine ⟨⟨nodup_nil, Nat.zero_le _, ?_⟩, ⟨nodup_nil, Nat.zero_le _, ?_⟩, ?_⟩ <;> simp

/-! ### What is dropped -/

/-- An entry that is recorded drops none but the oldest of its list; the other list loses
at most the address that moves to the white list. A merge is a row of such steps. -/
theorem appends_dropOldest (allowLocalIp : Bool) (calls : List Call) :
    let manager := afterCalls allowLocalIp calls
    manager.Clean ∧
    (∀ outerBs, manager.mergePeerlist outerBs =
      outerBs.foldl appendWithPeerGray manager) ∧
    ∀ newPeer,
      let whiter := manager.appendWithPeerWhite newPeer
      let grayer := manager.appendWithPeerGray newPeer
      (whiter = manager ∨ DropsOldest (manager.white ++ [newPeer]) whiter.white ∧
        ∀ peer ∈ manager.gray, peer.adr ≠ newPeer.adr → peer ∈ whiter.gray) ∧
      (grayer = manager ∨ grayer.white = manager.white ∧
        DropsOldest (manager.gray ++ [newPeer]) grayer.gray) := by
  intro manager
  have clean : manager.Clean := clean_afterCalls allowLocalIp calls
  refine ⟨clean, clean.mergePeerlist_eq, fun newPeer => ⟨?_, ?_⟩⟩
  · unfold PeerlistManager.appendWithPeerWhite
    split
    · right
      refine ⟨record_dropsOldest, fun peer member other => ?_⟩
      exact (mem_eraseP_of_neg (by simpa using other)).mpr member
    · exact .inl rfl
  · unfold PeerlistManager.appendWithPeerGray
    split
    · split
      · exact .inl rfl
      · exact .inr ⟨rfl, record_dropsOldest⟩
    · exact .inl rfl

private def entry (port : Nat) (lastSeen : UInt64) : PeerlistEntry :=
  { adr := { ip := 0x08080808, port := port.toUInt32 }, id := 0, lastSeen := lastSeen }

private theorem entry_unknown {count : Nat} (bounded : count ≤ p2pLocalGrayPeerlistLimit)
    (lastSeen : UInt64) :
    (entry count lastSeen).adr ∉ ((range count).map (entry · 2)).map adr := by
  intro known
  obtain ⟨port, inside, same⟩ : ∃ port < count, port.toUInt32 = count.toUInt32 := by
    simpa [entry] using known
  have equal := congrArg UInt32.toNat same
  unfold p2pLocalGrayPeerlistLimit at bounded
  simp only [Nat.toUInt32_eq, UInt32.toNat_ofNat'] at equal
  omega

private def grayOnly (peers : List PeerlistEntry) : PeerlistManager :=
  { allowLocalIp := false, white := [], gray := peers }

private theorem append_grayOnly (port : Nat) (lastSeen : UInt64) :
    (grayOnly peers).appendWithPeerGray (entry port lastSeen) =
      grayOnly (record p2pLocalGrayPeerlistLimit (entry port lastSeen) peers) := by
  have allowed : isIpAllowed false 0x08080808 = true := by decide
  exact if_pos allowed

private theorem foldl_entries {count : Nat} (bounded : count ≤ p2pLocalGrayPeerlistLimit) :
    ((range count).map (entry · 2)).foldl appendWithPeerGray
      (grayOnly []) = grayOnly ((range count).map (entry · 2)) := by
  induction count with
  | zero => rfl
  | succ count ih =>
    rw [range_succ, map_append, foldl_append, ih (by omega), map_singleton, foldl_cons,
      foldl_nil, append_grayOnly, record_unknown (entry_unknown (by omega) 2), trim,
      if_pos (by simpa using bounded)]

/-- A full list has no room for a peer seen earlier than all of its own; a later entry of
the same call then gives one of those an even older time. -/
theorem mergePeerlist_drops_later : ∃ outerBs,
    let manager := afterCalls false []
    ¬DropsOldest (manager.gray ++ outerBs) (manager.mergePeerlist outerBs).gray := by
  have clean : (grayOnly []).Clean := clean_afterCalls false []
  obtain ⟨known, filled, full, unknown, first, later⟩ : ∃ known,
      known.foldl appendWithPeerGray (grayOnly []) = grayOnly known ∧ known.length = p2pLocalGrayPeerlistLimit ∧
      (entry p2pLocalGrayPeerlistLimit 1).adr ∉ known.map adr ∧
      (entry 0 0).adr ∈ known.map adr ∧ ∀ peer ∈ known, peer.lastSeen = 2 := by
    refine ⟨_, foldl_entries (Nat.le_refl _), by simp, entry_unknown (Nat.le_refl _) 1, ?_,
      by simp [entry]⟩
    exact mem_map.mpr ⟨entry 0 2, mem_map.mpr ⟨0, mem_range.mpr (by decide), rfl⟩, rfl⟩
  have sorted : sortBySeen (known ++ [entry p2pLocalGrayPeerlistLimit 1]) =
      known ++ [entry p2pLocalGrayPeerlistLimit 1] := by
    apply mergeSort_of_pairwise
    refine pairwise_append.mpr ⟨?_, pairwise_singleton _ _, ?_⟩
    · refine pairwise_of_forall_mem_list ?_
      intro peer member other otherMember
      simp [later peer member, later other otherMember]
    · intro peer member other isLate
      simp [later peer member, mem_singleton.mp isLate, entry]
  have dropped : record p2pLocalGrayPeerlistLimit
      (entry p2pLocalGrayPeerlistLimit 1) known = known := by
    rw [record_unknown unknown, trim, if_neg (by simp [full]), sorted, take_left' full]
  have replaced := @record_known p2pLocalGrayPeerlistLimit (entry 0 0) _ first
  refine ⟨known ++ [entry p2pLocalGrayPeerlistLimit 1, entry 0 0], ?_⟩
  change ¬DropsOldest _ ((grayOnly []).mergePeerlist _).gray
  rw [clean.mergePeerlist_eq, foldl_append, filled, foldl_cons, append_grayOnly, dropped,
    foldl_cons, append_grayOnly]
  intro drops
  have older := drops (entry p2pLocalGrayPeerlistLimit 1) (by simp) (replaced.2 ▸ unknown) _
    replaced.1
  exact absurd older (by decide)

end Mevacoin.Peerlists
