/-
The three ways in which a segment tree grows: an item at the end of a leaf, a new
child with one item, and a cut that moves the upper items of a node to a new child.
Each keeps the tree sound and says what becomes of the leaves and of the lines: a
cut changes no line that passes the cut node, a new child adds one line, a new item
extends one.
-/

import Mevacoin.Lib.SegmentTree

namespace SegmentTree
open List Nat

variable {q : Nat} {leaves above : List Nat}

variable {α : Type} {link : α → α → Prop} {tree : Tree α} {p : Nat} {node : Node α}

def extend (tree : Tree α) (p : Nat) (node : Node α) (item : α) : Tree α :=
  tree.set p { node with items := node.items ++ [item] }

def fork (tree : Tree α) (p : Nat) (node : Node α) (fresh : List α) : Tree α :=
  tree.set p { node with children := node.children ++ [tree.length] }
    ++ [{ parent := some p
          startIndex := node.startIndex + node.items.length
          items := fresh
          children := [] }]

/-- A new node between a node and its children, with the items from position `k`. -/
def cut (tree : Tree α) (p : Nat) (node : Node α) (k : Nat) : Tree α :=
  ((tree.set p { node with items := node.items.take k, children := [tree.length] }).mapIdx
    fun q other =>
      if q ∈ node.children then { other with parent := some tree.length } else other)
    ++ [{ parent := some p
          startIndex := node.startIndex + k
          items := node.items.drop k
          children := node.children }]

theorem lt_length_of_found (found : tree[p]? = some node) : p < tree.length :=
  (List.getElem?_eq_some_iff.mp found).1

private theorem lookup_append (lower : Tree α) (new : Node α) (q : Nat) :
    (lower ++ [new])[q]? = if q = lower.length then some new else lower[q]? := by
  by_cases isNew : q = lower.length
  · simp [isNew]
  · rw [if_neg isNew, getElem?_append]
    split
    · rfl
    · rw [getElem?_eq_none (by simp; omega), getElem?_eq_none (by omega)]

variable {other : Node α}

theorem Sound.not_child_of_top (sound : Sound link tree) (found : tree[p]? = some node) (otherFound : tree[q]? = some other) (top : other.parent = none) :
    q ∉ node.children := by
  rw [sound.mem_children found, parentOf_eq otherFound, top]
  exact nofun

/-! ### Extending a node -/

variable {items : List α}

section Extend
variable {item : α}

section
variable (found : tree[p]? = some node)
include found

theorem extend_lookup (q : Nat) :
    (extend tree p node item)[q]?
      = if q = p then some { node with items := node.items ++ [item] } else tree[q]? := by
  unfold extend
  by_cases same : p = q
  · subst same
    simp [lt_length_of_found found]
  · simp [same, Ne.symm same]

theorem parentOf_extend (q : Nat) :
    parentOf (extend tree p node item) q = parentOf tree q := by
  unfold parentOf
  rw [extend_lookup found]
  by_cases same : q = p
  · simp [same, found]
  · simp [same]

theorem startOf_extend (q : Nat) :
    startOf (extend tree p node item) q = startOf tree q := by
  unfold startOf
  rw [extend_lookup found]
  by_cases same : q = p
  · simp [same, found]
  · simp [same]

theorem path_extend (q : Nat) :
    path (extend tree p node item) q = path tree q := by
  unfold path
  rw [startOf_extend found, funext (parentOf_extend found)]

theorem extend_found (otherFound : (extend tree p node item)[q]? = some other) :
    ∃ before, tree[q]? = some before ∧ other.parent = before.parent ∧
      other.startIndex = before.startIndex ∧ other.children = before.children ∧
      (other.items = before.items ∨ q = p ∧ other.items = before.items ++ [item]) := by
  rw [extend_lookup found] at otherFound
  by_cases same : q = p
  · rw [if_pos same] at otherFound
    cases otherFound
    exact ⟨node, by rw [same, found], rfl, rfl, rfl, .inr ⟨same, rfl⟩⟩
  · rw [if_neg same] at otherFound
    exact ⟨other, otherFound, rfl, rfl, rfl, .inl rfl⟩

end

theorem Sound.extend (sound : Sound link tree) (found : tree[p]? = some node)
    (childless : node.children = []) (links : ∀ below ∈ node.items.getLast?, link below item) :
    Sound link (extend tree p node item) where
  root := by
    obtain ⟨root, rootFound, top, start⟩ := sound.root
    rw [extend_lookup found]
    by_cases same : 0 = p
    · subst same
      rw [rootFound] at found
      cases found
      exact ⟨_, if_pos rfl, top, start⟩
    · exact ⟨root, by rw [if_neg same, rootFound], top, start⟩
  nonempty := by
    intro q other otherFound
    obtain ⟨before, beforeFound, -, -, -, same | ⟨-, grown⟩⟩ := extend_found found otherFound
    · rw [same]
      exact sound.nonempty beforeFound
    · simp [grown]
  linked := by
    intro q other otherFound
    obtain ⟨before, beforeFound, -, -, -, same | ⟨atEnd, grown⟩⟩ :=
      extend_found found otherFound
    · rw [same]
      exact sound.linked beforeFound
    · rw [atEnd, found] at beforeFound
      cases beforeFound
      rw [grown]
      refine (sound.linked found).append (isChain_singleton item) ?_
      intro below isLast first isFirst
      cases isFirst
      exact links below isLast
  attached := by
    intro q other otherFound notRoot
    obtain ⟨before, beforeFound, sameParent, sameStart, -, sameItems⟩ :=
      extend_found found otherFound
    obtain ⟨r, below, isParent, belowFound, start, chained⟩ := sound.attached beforeFound notRoot
    have different : r ≠ p := by
      intro same
      subst same
      rw [found] at belowFound
      cases belowFound
      have child := (sound.mem_children found q).mpr ((parentOf_eq beforeFound).trans isParent)
      simp [childless] at child
    refine ⟨r, below, sameParent.trans isParent, ?_, sameStart.trans start, ?_⟩
    · rw [extend_lookup found, if_neg different, belowFound]
    · intro last isLast first isFirst
      apply chained last isLast first
      rcases sameItems with same | ⟨-, grown⟩
      · rwa [same] at isFirst
      · rwa [grown, head?_append_of_ne_nil _ (sound.nonempty beforeFound)] at isFirst
  children_nodup := by
    intro q other otherFound
    obtain ⟨before, beforeFound, -, -, sameChildren, -⟩ := extend_found found otherFound
    rw [sameChildren]
    exact sound.children_nodup beforeFound
  mem_children := by
    intro q other otherFound c
    obtain ⟨before, beforeFound, -, -, sameChildren, -⟩ := extend_found found otherFound
    rw [sameChildren, parentOf_extend found]
    exact sound.mem_children beforeFound c

theorem Leaves.extend (isLeaves : Leaves tree leaves)
    (found : tree[p]? = some node) : Leaves (extend tree p node item) leaves where
  nodup := isLeaves.nodup
  mem_iff := by
    intro q
    rw [isLeaves.mem_iff, extend_lookup found]
    by_cases same : q = p
    · subst same
      simp [found]
    · simp [same]

theorem Line.extend_other (line : Line tree q above items) (sound : Sound link tree)
    (found : tree[p]? = some node) (childless : node.children = []) (different : q ≠ p) :
    Line (extend tree p node item) q above items := by
  induction line with
  | root otherFound top =>
    exact .root (by rw [extend_lookup found, if_neg different, otherFound]) top
  | child otherFound parent _ start ih =>
    refine .child (by rw [extend_lookup found, if_neg different, otherFound]) parent
      (ih ?_) start
    rintro rfl
    have child := (sound.mem_children found _).mpr ((parentOf_eq otherFound).trans parent)
    simp [childless] at child

theorem Line.extend_self (line : Line tree p above items)
    (sound : Sound link tree) (found : tree[p]? = some node) (childless : node.children = []) :
    Line (extend tree p node item) p above (items ++ [item]) := by
  have here : (SegmentTree.extend tree p node item)[p]?
      = some { node with items := node.items ++ [item] } := by
    rw [extend_lookup found, if_pos rfl]
  cases line with
  | root same top =>
    rw [found] at same
    cases same
    exact .root here top
  | child same parent line start =>
    rw [found] at same
    cases same
    rw [append_assoc]
    refine .child here parent (line.extend_other sound found childless ?_) start
    rintro rfl
    exact sound.not_own_child found
      ((sound.mem_children found _).mpr ((parentOf_eq found).trans parent))

end Extend

/-! ### A new child -/

section Fork
variable {fresh : List α}

theorem fork_lookup (found : tree[p]? = some node) (q : Nat) :
    (fork tree p node fresh)[q]?
      = if q = p then some { node with children := node.children ++ [tree.length] }
        else if q = tree.length then
          some { parent := some p
                 startIndex := node.startIndex + node.items.length
                 items := fresh
                 children := [] }
        else tree[q]? := by
  have inside := lt_length_of_found found
  unfold fork
  rw [lookup_append, length_set, getElem?_set]
  by_cases same : q = p
  · simp [same, inside, Nat.ne_of_lt inside]
  · simp [same, Ne.symm same]

theorem fork_found (found : tree[p]? = some node)
    (otherFound : (fork tree p node fresh)[q]? = some other) :
    (∃ before, tree[q]? = some before ∧ other.parent = before.parent ∧
        other.startIndex = before.startIndex ∧ other.items = before.items ∧
        (q ≠ p ∧ other.children = before.children ∨
          q = p ∧ other.children = before.children ++ [tree.length])) ∨
      q = tree.length ∧ other.parent = some p ∧
        other.startIndex = node.startIndex + node.items.length ∧
        other.items = fresh ∧ other.children = [] := by
  rw [fork_lookup found] at otherFound
  by_cases same : q = p
  · rw [if_pos same] at otherFound
    cases otherFound
    exact .inl ⟨node, by rw [same, found], rfl, rfl, rfl, .inr ⟨same, rfl⟩⟩
  · rw [if_neg same] at otherFound
    by_cases isNew : q = tree.length
    · rw [if_pos isNew] at otherFound
      cases otherFound
      exact .inr ⟨isNew, rfl, rfl, rfl, rfl⟩
    · rw [if_neg isNew] at otherFound
      exact .inl ⟨other, otherFound, rfl, rfl, rfl, .inl ⟨same, rfl⟩⟩

theorem fork_keeps (fresh : List α) (found : tree[p]? = some node) {before : Node α}
    (beforeFound : tree[q]? = some before) :
    ∃ other, (fork tree p node fresh)[q]? = some other ∧ other.parent = before.parent ∧
      other.startIndex = before.startIndex ∧ other.items = before.items := by
  rw [fork_lookup found]
  by_cases same : q = p
  · subst same
    rw [found] at beforeFound
    cases beforeFound
    exact ⟨_, if_pos rfl, rfl, rfl, rfl⟩
  · have old := Nat.ne_of_lt (lt_length_of_found beforeFound)
    exact ⟨before, by rw [if_neg same, if_neg old, beforeFound], rfl, rfl, rfl⟩

theorem parentOf_fork (found : tree[p]? = some node) (q : Nat) :
    parentOf (fork tree p node fresh) q = if q = tree.length then some p else parentOf tree q := by
  unfold parentOf
  rw [fork_lookup found]
  by_cases same : q = p
  · subst same
    simp [found, Nat.ne_of_lt (lt_length_of_found found)]
  · by_cases isNew : q = tree.length
    · simp [isNew, ne_of_gt (lt_length_of_found found)]
    · simp [same, isNew]

theorem Sound.fork (sound : Sound link tree) (found : tree[p]? = some node)
    (nonempty : fresh ≠ []) (chain : fresh.IsChain link)
    (links : ∀ below ∈ node.items.getLast?, ∀ above ∈ fresh.head?, link below above) :
    Sound link (fork tree p node fresh) where
  root := by
    obtain ⟨root, rootFound, top, start⟩ := sound.root
    obtain ⟨other, otherFound, sameParent, sameStart, -⟩ := fork_keeps fresh found rootFound
    exact ⟨other, otherFound, sameParent.trans top, sameStart.trans start⟩
  nonempty := by
    intro q other otherFound
    obtain ⟨before, beforeFound, -, -, same, -⟩ | ⟨-, -, -, new, -⟩ := fork_found found otherFound
    · rw [same]
      exact sound.nonempty beforeFound
    · rw [new]
      exact nonempty
  linked := by
    intro q other otherFound
    obtain ⟨before, beforeFound, -, -, same, -⟩ | ⟨-, -, -, new, -⟩ := fork_found found otherFound
    · rw [same]
      exact sound.linked beforeFound
    · rw [new]
      exact chain
  attached := by
    intro q other otherFound notRoot
    obtain ⟨before, beforeFound, sameParent, sameStart, sameItems, -⟩ |
      ⟨-, isParent, start, new, -⟩ := fork_found found otherFound
    · obtain ⟨r, below, isParent, belowFound, start, chained⟩ :=
        sound.attached beforeFound notRoot
      obtain ⟨below', belowFound', -, startBelow, itemsBelow⟩ :=
        fork_keeps fresh found belowFound
      refine ⟨r, below', sameParent.trans isParent, belowFound', ?_, ?_⟩
      · rw [sameStart, start, startBelow, itemsBelow]
      · rw [itemsBelow, sameItems]
        exact chained
    · obtain ⟨below, belowFound, -, startBelow, itemsBelow⟩ :=
        fork_keeps fresh found found
      refine ⟨p, below, isParent, belowFound, ?_, ?_⟩
      · rw [start, startBelow, itemsBelow]
      · rw [itemsBelow, new]
        exact links
  children_nodup := by
    intro q other otherFound
    obtain ⟨before, beforeFound, -, -, -, ⟨-, same⟩ | ⟨-, grown⟩⟩ | ⟨-, -, -, -, new⟩ :=
      fork_found found otherFound
    · rw [same]
      exact sound.children_nodup beforeFound
    · rw [grown]
      refine (sound.children_nodup beforeFound).append (nodup_singleton _) ?_
      intro c child fresh
      rw [mem_singleton] at fresh
      exact Nat.ne_of_lt (sound.child_lt beforeFound child) fresh
    · rw [new]
      exact nodup_nil
  mem_children := by
    intro q other otherFound c
    rw [parentOf_fork found]
    obtain ⟨before, beforeFound, -, -, -, ⟨different, same⟩ | ⟨atFork, grown⟩⟩ |
      ⟨isNew, -, -, -, none⟩ := fork_found found otherFound
    · rw [same, sound.mem_children beforeFound]
      by_cases isNew : c = tree.length
      · simp [isNew, Ne.symm different, parentOf]
      · simp [isNew]
    · rw [grown, mem_append, mem_singleton, sound.mem_children beforeFound]
      by_cases isNew : c = tree.length
      · simp [isNew, atFork]
      · simp [isNew]
    · rw [none, isNew]
      by_cases isNew : c = tree.length
      · simp [isNew, Nat.ne_of_lt (lt_length_of_found found)]
      · simpa [isNew] using sound.fresh_not_parent c

theorem Leaves.fork (isLeaves : Leaves tree leaves)
    (found : tree[p]? = some node) (branched : node.children ≠ []) :
    Leaves (fork tree p node fresh) (leaves ++ [tree.length]) where
  nodup := by
    refine isLeaves.nodup.append (nodup_singleton _) ?_
    intro q leaf fresh
    rw [mem_singleton] at fresh
    obtain ⟨other, otherFound, -⟩ := (isLeaves.mem_iff q).mp leaf
    exact Nat.ne_of_lt (lt_length_of_found otherFound) fresh
  mem_iff := by
    intro q
    rw [mem_append, mem_singleton, isLeaves.mem_iff, fork_lookup found]
    by_cases same : q = p
    · subst same
      simp [found, branched, Nat.ne_of_lt (lt_length_of_found found)]
    · by_cases isNew : q = tree.length
      · simp [isNew, ne_of_gt (lt_length_of_found found)]
      · simp [same, isNew]

theorem Line.fork (line : Line tree q above items)
    (found : tree[p]? = some node) : Line (fork tree p node fresh) q above items := by
  induction line with
  | root otherFound top =>
    obtain ⟨other, present, sameParent, -, sameItems⟩ := fork_keeps fresh found otherFound
    rw [← sameItems]
    exact .root present (sameParent.trans top)
  | child otherFound parent _ start ih =>
    obtain ⟨other, present, sameParent, sameStart, sameItems⟩ :=
      fork_keeps fresh found otherFound
    rw [← sameItems]
    exact .child present (sameParent.trans parent) ih (start.trans sameStart.symm)

theorem Line.fork_new (line : Line tree p above items)
    (sound : Sound link tree) (found : tree[p]? = some node) :
    Line (SegmentTree.fork tree p node fresh) tree.length (tree.length :: above)
      (items ++ fresh) := by
  have different := ne_of_gt (lt_length_of_found found)
  have present : (SegmentTree.fork tree p node fresh)[tree.length]?
      = some { parent := some p
               startIndex := node.startIndex + node.items.length
               items := fresh
               children := [] } := by
    rw [fork_lookup found, if_neg different, if_pos rfl]
  exact .child present rfl (line.fork found) (line.length_eq sound found)

end Fork

/-! ### Cutting a node -/

section Cut
variable {k : Nat}

theorem cut_lookup (found : tree[p]? = some node) (notOwn : p ∉ node.children) (q : Nat) :
    (cut tree p node k)[q]?
      = if q = p then
          some { node with items := node.items.take k, children := [tree.length] }
        else if q = tree.length then
          some { parent := some p
                 startIndex := node.startIndex + k
                 items := node.items.drop k
                 children := node.children }
        else (tree[q]?).map fun other =>
          if q ∈ node.children then { other with parent := some tree.length } else other := by
  have inside := lt_length_of_found found
  unfold cut
  rw [lookup_append, length_mapIdx, length_set, getElem?_mapIdx, getElem?_set]
  by_cases same : q = p
  · simp [same, notOwn, inside, Nat.ne_of_lt inside]
  · simp [same, Ne.symm same]

theorem cut_lower_found (sound : Sound link tree) (found : tree[p]? = some node) :
    (cut tree p node k)[p]?
      = some { node with items := node.items.take k, children := [tree.length] } := by
  rw [cut_lookup found (sound.not_own_child found), if_pos rfl]

theorem cut_upper_found (sound : Sound link tree) (found : tree[p]? = some node) :
    (cut tree p node k)[tree.length]?
      = some { parent := some p
               startIndex := node.startIndex + k
               items := node.items.drop k
               children := node.children } := by
  rw [cut_lookup found (sound.not_own_child found),
    if_neg (ne_of_gt (lt_length_of_found found)), if_pos rfl]

theorem cut_childless (childless : node.children = []) :
    cut tree p node k
      = tree.set p { node with items := node.items.take k, children := [tree.length] }
        ++ [{ parent := some p
              startIndex := node.startIndex + k
              items := node.items.drop k
              children := [] }] := by
  unfold cut
  rw [childless]
  congr 1
  rw [mapIdx_eq_iff]
  simp

theorem cut_keeps (found : tree[p]? = some node) (notOwn : p ∉ node.children)
    {before : Node α} (beforeFound : tree[q]? = some before) (different : q ≠ p) :
    ∃ other, (cut tree p node k)[q]? = some other ∧
      other.parent = (if q ∈ node.children then some tree.length else before.parent) ∧
      other.startIndex = before.startIndex ∧ other.items = before.items ∧
      other.children = before.children := by
  have old := Nat.ne_of_lt (lt_length_of_found beforeFound)
  rw [cut_lookup found notOwn, if_neg different, if_neg old, beforeFound]
  by_cases child : q ∈ node.children
  · simp [child]
  · simp [child]

theorem cut_found (found : tree[p]? = some node) (notOwn : p ∉ node.children) (otherFound : (cut tree p node k)[q]? = some other) :
    (q = p ∧ other = { node with items := node.items.take k, children := [tree.length] }) ∨
      (q = tree.length ∧
        other = { parent := some p
                  startIndex := node.startIndex + k
                  items := node.items.drop k
                  children := node.children }) ∨
      (q ≠ p ∧ ∃ before, tree[q]? = some before ∧
        other.parent = (if q ∈ node.children then some tree.length else before.parent) ∧
        other.startIndex = before.startIndex ∧ other.items = before.items ∧
        other.children = before.children) := by
  by_cases same : q = p
  · rw [cut_lookup found notOwn, if_pos same] at otherFound
    cases otherFound
    exact .inl ⟨same, rfl⟩
  · by_cases fresh : q = tree.length
    · rw [cut_lookup found notOwn, if_neg same, if_pos fresh] at otherFound
      cases otherFound
      exact .inr (.inl ⟨fresh, rfl⟩)
    · cases before : tree[q]? with
      | none =>
        rw [cut_lookup found notOwn, if_neg same, if_neg fresh, before] at otherFound
        cases otherFound
      | some before' =>
        obtain ⟨other', present, facts⟩ := cut_keeps (k := k) found notOwn before same
        rw [present] at otherFound
        cases otherFound
        exact .inr (.inr ⟨same, before', rfl, facts⟩)

theorem parentOf_cut (sound : Sound link tree) (found : tree[p]? = some node) (q : Nat) :
    parentOf (cut tree p node k) q
      = if q = tree.length then some p
        else if q ∈ node.children then some tree.length
        else parentOf tree q := by
  have notOwn := sound.not_own_child found
  unfold parentOf
  rw [cut_lookup found notOwn]
  by_cases same : q = p
  · subst same
    simp [found, notOwn, Nat.ne_of_lt (lt_length_of_found found)]
  · by_cases fresh : q = tree.length
    · simp [fresh, ne_of_gt (lt_length_of_found found)]
    · by_cases child : q ∈ node.children
      · cases before : tree[q]? with
        | none =>
          exact absurd (sound.child_lt found child)
            (not_lt.mpr (getElem?_eq_none_iff.mp before))
        | some other => simp [same, fresh, child]
      · simp [same, fresh, child]

theorem Sound.cut (sound : Sound link tree) (found : tree[p]? = some node) (positive : 0 < k)
    (inside : k < node.items.length) : Sound link (cut tree p node k) where
  root := by
    have notOwn := sound.not_own_child found
    obtain ⟨root, rootFound, top, start⟩ := sound.root
    by_cases same : 0 = p
    · subst same
      rw [rootFound] at found
      cases found
      exact ⟨_, cut_lower_found sound rootFound, top, start⟩
    · obtain ⟨other, present, parent, sameStart, -⟩ :=
        cut_keeps (k := k) found notOwn rootFound same
      rw [if_neg (sound.not_child_of_top found rootFound top), top] at parent
      exact ⟨other, present, parent, sameStart.trans start⟩
  nonempty := by
    intro q other otherFound
    obtain ⟨-, lower⟩ | ⟨-, upper⟩ | ⟨-, before, beforeFound, -, -, same, -⟩ :=
      cut_found found (sound.not_own_child found) otherFound
    · simp [lower, ne_of_gt positive, sound.nonempty found]
    · simp [upper, inside]
    · rw [same]
      exact sound.nonempty beforeFound
  linked := by
    intro q other otherFound
    obtain ⟨-, lower⟩ | ⟨-, upper⟩ | ⟨-, before, beforeFound, -, -, same, -⟩ :=
      cut_found found (sound.not_own_child found) otherFound
    · rw [lower]
      exact (sound.linked found).take k
    · rw [upper]
      exact (sound.linked found).drop k
    · rw [same]
      exact sound.linked beforeFound
  attached := by
    intro q other otherFound notRoot
    have notOwn := sound.not_own_child found
    obtain ⟨same, lower⟩ | ⟨-, upper⟩ |
      ⟨different, before, beforeFound, parent, sameStart, sameItems, -⟩ :=
      cut_found found notOwn otherFound
    · subst same
      obtain ⟨r, below, isParent, belowFound, start, chained⟩ := sound.attached found notRoot
      have apart : r ≠ q := by
        rintro rfl
        exact notOwn ((sound.mem_children found r).mpr ((parentOf_eq found).trans isParent))
      obtain ⟨below', belowFound', -, startBelow, itemsBelow, -⟩ :=
        cut_keeps (k := k) found notOwn belowFound apart
      refine ⟨r, below', by rw [lower, isParent], belowFound', ?_, ?_⟩
      · rw [lower, startBelow, itemsBelow]
        exact start
      · rw [lower, itemsBelow, head?_take, if_neg (ne_of_gt positive)]
        exact chained
    · refine ⟨p, _, by rw [upper], cut_lower_found sound found, ?_, ?_⟩
      · rw [upper, length_take, min_eq_left (le_of_lt inside)]
      · rw [upper]
        have linked := sound.linked found
        rw [← take_append_drop k node.items, isChain_append] at linked
        exact linked.2.2
    · by_cases child : q ∈ node.children
      · rw [if_pos child] at parent
        have was := (sound.mem_children found q).mp child
        rw [parentOf_eq beforeFound] at was
        obtain ⟨below, same, start, chained⟩ := sound.parent_found beforeFound was
        rw [found] at same
        cases same
        refine ⟨tree.length, _, parent, cut_upper_found sound found, ?_, ?_⟩
        · rw [sameStart, start]
          simp only [length_drop]
          omega
        · rw [sameItems, getLast?_drop, if_neg (not_le.mpr inside)]
          exact chained
      · rw [if_neg child] at parent
        obtain ⟨r, below, isParent, belowFound, start, chained⟩ :=
          sound.attached beforeFound notRoot
        have apart : r ≠ p := by
          rintro rfl
          exact child ((sound.mem_children found q).mpr ((parentOf_eq beforeFound).trans isParent))
        obtain ⟨below', belowFound', -, startBelow, itemsBelow, -⟩ :=
          cut_keeps (k := k) found notOwn belowFound apart
        refine ⟨r, below', parent.trans isParent, belowFound', ?_, ?_⟩
        · rw [sameStart, start, startBelow, itemsBelow]
        · rw [sameItems, itemsBelow]
          exact chained
  children_nodup := by
    intro q other otherFound
    obtain ⟨-, lower⟩ | ⟨-, upper⟩ | ⟨-, before, beforeFound, -, -, -, same⟩ :=
      cut_found found (sound.not_own_child found) otherFound
    · rw [lower]
      exact nodup_singleton _
    · have nodup := sound.children_nodup found
      simpa [upper] using nodup
    · rw [same]
      exact sound.children_nodup beforeFound
  mem_children := by
    intro q other otherFound c
    have old := Nat.ne_of_lt (lt_length_of_found found)
    have unborn : tree.length ∉ node.children := fun child =>
      lt_irrefl _ (sound.child_lt found child)
    rw [parentOf_cut sound found]
    obtain ⟨same, lower⟩ | ⟨same, upper⟩ | ⟨different, before, beforeFound, -, -, -, same⟩ :=
      cut_found found (sound.not_own_child found) otherFound
    · rw [lower, same, mem_singleton]
      by_cases fresh : c = tree.length
      · simp [fresh]
      · by_cases child : c ∈ node.children
        · simp [fresh, child, Ne.symm old]
        · simpa [fresh, child] using (sound.mem_children found c).not.mp child
    · rw [upper, same]
      by_cases fresh : c = tree.length
      · simp [fresh, unborn, old]
      · by_cases child : c ∈ node.children
        · simp [fresh, child]
        · simpa [fresh, child] using sound.fresh_not_parent c
    · rw [same, sound.mem_children beforeFound]
      by_cases fresh : c = tree.length
      · simp [fresh, parentOf, Ne.symm different]
      · by_cases child : c ∈ node.children
        · have was := (sound.mem_children found c).mp child
          have notFresh := ne_of_gt (lt_length_of_found beforeFound)
          simp [fresh, child, was, Ne.symm different, notFresh]
        · simp [fresh, child]

theorem map_set_idxOf {β : Type} (nodup : leaves.Nodup) {fresh : Nat}
    {before after : Nat → β} (moved : p ∈ leaves → after fresh = before p)
    (kept : ∀ q ∈ leaves, q ≠ p → after q = before q) :
    (leaves.set (leaves.idxOf p) fresh).map after = leaves.map before := by
  induction leaves with
  | nil => rfl
  | cons head tail ih =>
    obtain ⟨notInTail, tailNodup⟩ := nodup_cons.mp nodup
    by_cases same : head = p
    · subst same
      rw [idxOf_cons_self, set_cons_zero, map_cons, map_cons, moved mem_cons_self]
      congr 1
      apply map_congr_left
      intro q inTail
      exact kept q (mem_cons_of_mem _ inTail) fun same => notInTail (same ▸ inTail)
    · rw [idxOf_cons_ne tail same, set_cons_succ, map_cons, map_cons, kept head mem_cons_self same]
      congr 1
      exact ih tailNodup (fun inTail => moved (mem_cons_of_mem _ inTail))
        fun q inTail => kept q (mem_cons_of_mem _ inTail)

theorem mem_set_idxOf (nodup : leaves.Nodup) (member : p ∈ leaves) (fresh q : Nat) :
    q ∈ leaves.set (leaves.idxOf p) fresh ↔ q = fresh ∨ q ∈ leaves ∧ q ≠ p := by
  induction leaves with
  | nil => cases member
  | cons head tail ih =>
    obtain ⟨notInTail, tailNodup⟩ := nodup_cons.mp nodup
    by_cases same : head = p
    · subst same
      rw [idxOf_cons_self, set_cons_zero, mem_cons, mem_cons]
      constructor
      · rintro (isFresh | inTail)
        · exact .inl isFresh
        · exact .inr ⟨.inr inTail, ne_of_mem_of_not_mem inTail notInTail⟩
      · rintro (isFresh | ⟨isHead | inTail, different⟩)
        · exact .inl isFresh
        · exact absurd isHead different
        · exact .inr inTail
    · have inTail : p ∈ tail := (mem_cons.mp member).resolve_left (Ne.symm same)
      rw [idxOf_cons_ne tail same, set_cons_succ, mem_cons, ih tailNodup inTail, mem_cons]
      constructor
      · rintro (isHead | isFresh | ⟨inRest, different⟩)
        · exact .inr ⟨.inl isHead, isHead ▸ same⟩
        · exact .inl isFresh
        · exact .inr ⟨.inr inRest, different⟩
      · rintro (isFresh | ⟨isHead | inRest, different⟩)
        · exact .inr (.inl isFresh)
        · exact .inl isHead
        · exact .inr (.inr ⟨inRest, different⟩)

theorem Leaves.cut_leaf (isLeaves : Leaves tree leaves)
    (sound : Sound link tree) (found : tree[p]? = some node) (childless : node.children = []) :
    Leaves (cut tree p node k) (leaves.set (leaves.idxOf p) tree.length) where
  nodup := by
    refine isLeaves.nodup.set ?_
    intro leaf
    obtain ⟨other, otherFound, -⟩ := (isLeaves.mem_iff _).mp leaf
    exact lt_irrefl _ (lt_length_of_found otherFound)
  mem_iff := by
    intro q
    rw [mem_set_idxOf isLeaves.nodup ((isLeaves.mem_iff p).mpr ⟨node, found, childless⟩),
      isLeaves.mem_iff, cut_lookup found (sound.not_own_child found)]
    by_cases same : q = p
    · simp [same, Nat.ne_of_lt (lt_length_of_found found)]
    · by_cases fresh : q = tree.length
      · simp [fresh, childless, ne_of_gt (lt_length_of_found found)]
      · simp [same, fresh, childless]

theorem Leaves.cut_branched (isLeaves : Leaves tree leaves)
    (sound : Sound link tree) (found : tree[p]? = some node) (branched : node.children ≠ []) :
    Leaves (cut tree p node k) leaves where
  nodup := isLeaves.nodup
  mem_iff := by
    intro q
    have notOwn := sound.not_own_child found
    rw [isLeaves.mem_iff]
    by_cases same : q = p
    · subst same
      rw [cut_lower_found sound found]
      simp [found, branched]
    · cases before : tree[q]? with
      | none =>
        rw [cut_lookup found notOwn, if_neg same, before]
        by_cases fresh : q = tree.length
        · simp [fresh, branched]
        · simp [fresh]
      | some other =>
        obtain ⟨other', present, -, -, -, sameChildren⟩ :=
          cut_keeps (k := k) found notOwn before same
        rw [present]
        simp [sameChildren]

theorem Line.cut_below
    (line : Line tree q above items) (sound : Sound link tree) (found : tree[p]? = some node)
    (lower : items.length ≤ node.startIndex) : Line (cut tree p node k) q above items := by
  have notOwn := sound.not_own_child found
  have positive := sound.items_length_pos found
  induction line with
  | @root q other otherFound top =>
    have different : q ≠ p := by
      rintro rfl
      rw [found] at otherFound
      cases otherFound
      have := (sound.root_of_no_parent found top).2
      omega
    obtain ⟨other', present, parent, -, sameItems, -⟩ :=
      cut_keeps (k := k) found notOwn otherFound different
    rw [if_neg (sound.not_child_of_top found otherFound top)] at parent
    rw [← sameItems]
    exact .root present (parent.trans top)
  | @child q r other above below otherFound parent line start ih =>
    rw [length_append] at lower
    have different : q ≠ p := by
      rintro rfl
      rw [found] at otherFound
      cases otherFound
      omega
    have notChild : q ∉ node.children := by
      intro child
      have isParent := (sound.mem_children found q).mp child
      rw [parentOf_eq otherFound] at isParent
      obtain ⟨node', same, position, -⟩ := sound.parent_found otherFound isParent
      rw [found] at same
      cases same
      omega
    obtain ⟨other', present, parent', sameStart, sameItems, -⟩ :=
      cut_keeps (k := k) found notOwn otherFound different
    rw [if_neg notChild] at parent'
    rw [← sameItems]
    exact .child present (parent'.trans parent) (ih (by omega)) (start.trans sameStart.symm)

theorem Line.cut_lower (line : Line tree p above items)
    (sound : Sound link tree) (found : tree[p]? = some node) :
    Line (cut tree p node k) p above (items.take (node.startIndex + k)) := by
  have present := cut_lower_found (k := k) sound found
  cases line with
  | root same top =>
    rw [found] at same
    cases same
    rw [(sound.root_of_no_parent found top).2, Nat.zero_add]
    exact .root present top
  | child same parent line start =>
    rw [found] at same
    cases same
    rw [← start, take_append, take_of_length_le (le_add_right _ k), Nat.add_sub_cancel_left]
    exact .child present parent (line.cut_below sound found (le_of_eq start)) start

theorem Line.cut_upper (line : Line tree p above items)
    (sound : Sound link tree) (found : tree[p]? = some node) (inside : k ≤ node.items.length) :
    Line (cut tree p node k) tree.length (tree.length :: above) items := by
  have length := line.length_eq sound found
  have whole : items.take (node.startIndex + k) ++ node.items.drop k = items := by
    cases line with
    | root same top =>
      rw [found] at same
      cases same
      rw [(sound.root_of_no_parent found top).2, Nat.zero_add, take_append_drop]
    | child same _ _ start =>
      rw [found] at same
      cases same
      rw [← start, take_append, take_of_length_le (le_add_right _ k),
        Nat.add_sub_cancel_left, append_assoc, take_append_drop]
  have upper := Line.child (cut_upper_found sound found) rfl (line.cut_lower (k := k) sound found) (by
    rw [length_take]
    simp only
    omega)
  rwa [whole] at upper

theorem Line.cut_other (line : Line tree q above items) (sound : Sound link tree)
    (found : tree[p]? = some node) (inside : k ≤ node.items.length) (different : q ≠ p) :
    ∃ above', Line (cut tree p node k) q above' items := by
  have notOwn := sound.not_own_child found
  induction line with
  | @root q other otherFound top =>
    obtain ⟨other', present, parent, -, sameItems, -⟩ :=
      cut_keeps (k := k) found notOwn otherFound different
    rw [if_neg (sound.not_child_of_top found otherFound top)] at parent
    rw [← sameItems]
    exact ⟨[q], .root present (parent.trans top)⟩
  | @child q r other above below otherFound parent line start ih =>
    obtain ⟨other', present, parent', sameStart, sameItems, -⟩ :=
      cut_keeps (k := k) found notOwn otherFound different
    rw [← sameItems]
    have isChild := sound.mem_children found q
    rw [parentOf_eq otherFound, parent] at isChild
    by_cases atCut : r = p
    · subst atCut
      rw [if_pos (isChild.mpr rfl)] at parent'
      exact ⟨_, .child present parent' (line.cut_upper sound found inside)
        (start.trans sameStart.symm)⟩
    · rw [if_neg fun child => atCut (Option.some.inj (isChild.mp child))] at parent'
      obtain ⟨above', line'⟩ := ih atCut
      exact ⟨_, .child present (parent'.trans parent) line' (start.trans sameStart.symm)⟩

end Cut
end SegmentTree
