/-
Trees of list segments. Every node holds a run of consecutive items, its position
and links in both directions; the items from the root to the end of a node form one
line.
-/

import Mathlib.Data.List.Chain
import Mathlib.Data.List.Infix
import Mathlib.Data.List.Nodup
import Mathlib.Logic.Relation

namespace SegmentTree
open List

variable {α : Type}

/-- The addresses met when following `next`, at most `fuel` of them. -/
def walk (next : Nat → Option Nat) : Nat → Nat → List Nat
  | 0, _ => []
  | fuel + 1, p =>
    p :: match next p with
      | none => []
      | some q => walk next fuel q

variable {p : Nat}

theorem walk_congr {next next' : Nat → Option Nat} {fuel : Nat}
    (same : ∀ q ∈ walk next fuel p, next' q = next q) : walk next' fuel p = walk next fuel p := by
  induction fuel generalizing p with
  | zero => rfl
  | succ fuel ih =>
    unfold walk at same ⊢
    rw [same p mem_cons_self]
    cases step : next p with
    | none => rfl
    | some q =>
      simp only [step] at same ⊢
      rw [ih fun r member => same r (mem_cons_of_mem _ member)]

structure Node (α : Type) where
  parent : Option Nat
  startIndex : Nat
  items : List α
  children : List Nat

abbrev Tree (α : Type) := List (Node α)

def parentOf (tree : Tree α) (p : Nat) : Option Nat := (tree[p]?).bind Node.parent

def startOf (tree : Tree α) (p : Nat) : Nat := ((tree[p]?).map Node.startIndex).getD 0

/-- Parents start lower, so the start index bounds the number of ancestors. -/
def path (tree : Tree α) (p : Nat) : List Nat := walk (parentOf tree) (startOf tree p + 1) p

/-- The root has address zero; links between neighbouring items hold within nodes and
from a node's last item to the first item of each child. -/
structure Sound (link : α → α → Prop) (tree : Tree α) : Prop where
  root : ∃ node, tree[0]? = some node ∧ node.parent = none ∧ node.startIndex = 0
  nonempty : ∀ {p : Nat} {node : Node α}, tree[p]? = some node → node.items ≠ []
  linked : ∀ {p : Nat} {node : Node α}, tree[p]? = some node → node.items.IsChain link
  attached : ∀ {p : Nat} {node : Node α}, tree[p]? = some node → p ≠ 0 →
    ∃ q parent, node.parent = some q ∧ tree[q]? = some parent ∧
      node.startIndex = parent.startIndex + parent.items.length ∧
      ∀ below ∈ parent.items.getLast?, ∀ above ∈ node.items.head?, link below above
  children_nodup : ∀ {p : Nat} {node : Node α}, tree[p]? = some node → node.children.Nodup
  mem_children : ∀ {p : Nat} {node : Node α}, tree[p]? = some node →
    ∀ c, c ∈ node.children ↔ parentOf tree c = some p

structure Leaves (tree : Tree α) (leaves : List Nat) : Prop where
  nodup : leaves.Nodup
  mem_iff : ∀ p, p ∈ leaves ↔ ∃ node, tree[p]? = some node ∧ node.children = []

inductive Line (tree : Tree α) : Nat → List Nat → List α → Prop where
  | root {p : Nat} {node : Node α} (found : tree[p]? = some node) (top : node.parent = none) :
      Line tree p [p] node.items
  | child {p q : Nat} {node : Node α} {above : List Nat} {below : List α}
      (found : tree[p]? = some node) (parent : node.parent = some q)
      (line : Line tree q above below) (start : below.length = node.startIndex) :
      Line tree p (p :: above) (below ++ node.items)

variable {tree : Tree α}

theorem Leaves.perm {leaves leaves' : List Nat} (isLeaves : Leaves tree leaves)
    (perm : leaves'.Perm leaves) : Leaves tree leaves' where
  nodup := perm.nodup_iff.mpr isLeaves.nodup
  mem_iff p := by rw [perm.mem_iff, isLeaves.mem_iff]

/-! ### Lines of a sound tree -/

variable {node : Node α}

theorem parentOf_eq (found : tree[p]? = some node) :
    parentOf tree p = node.parent := by
  simp [parentOf, found]

theorem startOf_eq (found : tree[p]? = some node) :
    startOf tree p = node.startIndex := by
  simp [startOf, found]

variable {q : Nat}

namespace Sound
variable {link : α → α → Prop} {tree : Tree α}

section
variable (sound : Sound link tree)
include sound

theorem parent_found (found : tree[p]? = some node) (parent : node.parent = some q) :
    ∃ below, tree[q]? = some below ∧ node.startIndex = below.startIndex + below.items.length ∧
      ∀ last ∈ below.items.getLast?, ∀ first ∈ node.items.head?, link last first := by
  by_cases atRoot : p = 0
  · obtain ⟨root, rootFound, noParent, -⟩ := sound.root
    rw [atRoot, rootFound] at found
    cases found
    rw [noParent] at parent
    cases parent
  · obtain ⟨r, below, isParent, belowFound, start, links⟩ := sound.attached found atRoot
    rw [parent] at isParent
    cases isParent
    exact ⟨below, belowFound, start, links⟩

theorem parentOf_lt (parent : parentOf tree p = some q) :
    q < tree.length := by
  cases found : tree[p]? with
  | none => simp [parentOf, found] at parent
  | some node =>
    rw [parentOf_eq found] at parent
    obtain ⟨below, belowFound, -⟩ := sound.parent_found found parent
    exact (List.getElem?_eq_some_iff.mp belowFound).1

theorem fresh_not_parent (p : Nat) :
    parentOf tree p ≠ some tree.length := fun parent =>
  Nat.lt_irrefl _ (sound.parentOf_lt parent)

section
variable (found : tree[p]? = some node)
include found

theorem child_lt {c : Nat} (child : c ∈ node.children) : c < tree.length := by
  have parent := (sound.mem_children found c).mp child
  by_contra outside
  simp [parentOf, getElem?_eq_none (Nat.le_of_not_lt outside)] at parent

theorem not_own_child : p ∉ node.children := by
  intro child
  have parent := (sound.mem_children found p).mp child
  rw [parentOf_eq found] at parent
  obtain ⟨below, same, start, -⟩ := sound.parent_found found parent
  rw [found] at same
  cases same
  have := length_pos_iff.mpr (sound.nonempty found)
  omega

theorem items_length_pos : 0 < node.items.length :=
  length_pos_iff.mpr (sound.nonempty found)

theorem root_of_no_parent (top : node.parent = none) : p = 0 ∧ node.startIndex = 0 := by
  by_cases atRoot : p = 0
  · obtain ⟨root, rootFound, -, start⟩ := sound.root
    rw [atRoot, rootFound] at found
    cases found
    exact ⟨atRoot, start⟩
  · obtain ⟨q, below, isParent, -⟩ := sound.attached found atRoot
    rw [top] at isParent
    cases isParent

end

theorem mono {weaker : α → α → Prop}
    (implies : ∀ below above, link below above → weaker below above) : Sound weaker tree where
  root := sound.root
  nonempty := sound.nonempty
  linked found := List.IsChain.imp (fun below above => implies below above) (sound.linked found)
  attached found notRoot := by
    obtain ⟨q, parent, isParent, parentFound, start, links⟩ := sound.attached found notRoot
    exact ⟨q, parent, isParent, parentFound, start,
      fun below isLast above isFirst => implies _ _ (links below isLast above isFirst)⟩
  children_nodup := sound.children_nodup
  mem_children := sound.mem_children

theorem exists_line
    (found : tree[p]? = some node) : ∃ above items, Line tree p above items ∧
      items.length = node.startIndex + node.items.length := by
  induction start : node.startIndex using Nat.strong_induction_on generalizing p node with
  | _ index ih =>
    cases parent : node.parent with
    | none =>
      obtain ⟨-, atZero⟩ := sound.root_of_no_parent found parent
      exact ⟨[p], node.items, .root found parent, by omega⟩
    | some q =>
      obtain ⟨below, belowFound, position, -⟩ := sound.parent_found found parent
      have := sound.items_length_pos belowFound
      obtain ⟨above, items, line, length⟩ :=
        ih below.startIndex (by omega) belowFound rfl
      refine ⟨p :: above, items ++ node.items, .child found parent line (by omega), ?_⟩
      rw [length_append]
      omega

end
end Sound

namespace Line
variable {link : α → α → Prop} {tree : Tree α} {p : Nat} {above : List Nat} {items : List α}

theorem found (line : Line tree p above items) : ∃ node, tree[p]? = some node := by
  cases line with
  | root found _ => exact ⟨_, found⟩
  | child found _ _ _ => exact ⟨_, found⟩

theorem length_eq (sound : Sound link tree) (line : Line tree p above items)
    (found : tree[p]? = some node) : items.length = node.startIndex + node.items.length := by
  cases line with
  | root same top =>
    rw [found] at same
    cases same
    have := (sound.root_of_no_parent found top).2
    omega
  | child same parent line start =>
    rw [found] at same
    cases same
    rw [length_append, start]

theorem unique (line : Line tree p above items) {above' : List Nat} {items' : List α}
    (line' : Line tree p above' items') : above = above' ∧ items = items' := by
  induction line generalizing above' items' with
  | root found top =>
    cases line' with
    | root same _ =>
      rw [found] at same
      cases same
      exact ⟨rfl, rfl⟩
    | child same parent _ _ =>
      rw [found] at same
      cases same
      rw [top] at parent
      cases parent
  | child found parent _ _ ih =>
    cases line' with
    | root same top =>
      rw [found] at same
      cases same
      rw [top] at parent
      cases parent
    | child same parent' line' _ =>
      rw [found] at same
      cases same
      rw [parent] at parent'
      cases parent'
      obtain ⟨sameAbove, sameItems⟩ := ih line'
      exact ⟨by rw [sameAbove], by rw [sameItems]⟩

theorem path_length_le (sound : Sound link tree) (line : Line tree p above items) :
    above.length ≤ startOf tree p + 1 := by
  induction line with
  | root => simp
  | child found parent _ _ ih =>
    obtain ⟨below, belowFound, position, -⟩ := sound.parent_found found parent
    have := sound.items_length_pos belowFound
    rw [startOf_eq belowFound] at ih
    rw [startOf_eq found, length_cons]
    omega

theorem walk_eq (line : Line tree p above items) {fuel : Nat} (enough : above.length ≤ fuel) :
    walk (parentOf tree) fuel p = above := by
  induction line generalizing fuel with
  | root found top =>
    cases fuel with
    | zero => simp at enough
    | succ fuel => simp [walk, parentOf_eq found, top]
  | child found parent _ _ ih =>
    cases fuel with
    | zero => simp at enough
    | succ fuel =>
      simp [walk, parentOf_eq found, parent, ih (Nat.le_of_succ_le_succ enough)]

theorem not_mem_of_below (sound : Sound link tree) (line : Line tree p above items) (found : tree[q]? = some node) (lower : items.length ≤ node.startIndex) :
    q ∉ above := by
  have positive := sound.items_length_pos found
  induction line with
  | root same top =>
    have := (sound.root_of_no_parent same top).2
    rintro (_ | ⟨_, ⟨⟩⟩)
    rw [found] at same
    cases same
    omega
  | child same _ _ start ih =>
    rw [length_append] at lower
    rintro (_ | ⟨_, inRest⟩)
    · rw [found] at same
      cases same
      omega
    · exact ih (by omega) inRest

theorem mem_found (line : Line tree p above items) (member : q ∈ above) :
    ∃ node, tree[q]? = some node := by
  induction line with
  | root found _ =>
    rw [mem_singleton] at member
    exact ⟨_, by rw [member, found]⟩
  | child found _ _ _ ih =>
    rcases mem_cons.mp member with same | inRest
    · exact ⟨_, by rw [same, found]⟩
    · exact ih inRest

section
variable (sound : Sound link tree) (line : Line tree p above items)
include sound line

theorem path_cons :
    ∃ rest, above = p :: rest ∧ p ∉ rest := by
  cases line with
  | root => exact ⟨[], rfl, not_mem_nil⟩
  | child found _ line start =>
    exact ⟨_, rfl, line.not_mem_of_below sound found (Nat.le_of_eq start)⟩

theorem path_eq :
    path tree p = above :=
  line.walk_eq (line.path_length_le sound)

theorem ends_at_root :
    ∃ front, above = front ++ [0] ∧ 0 ∉ front := by
  induction line with
  | root found top =>
    rw [(sound.root_of_no_parent found top).1]
    exact ⟨[], rfl, not_mem_nil⟩
  | @child p q node above below found parent line start ih =>
    obtain ⟨front, rfl, absent⟩ := ih
    refine ⟨p :: front, rfl, ?_⟩
    intro member
    rcases mem_cons.mp member with same | inFront
    · obtain ⟨root, rootFound, noParent, -⟩ := sound.root
      rw [← same, rootFound] at found
      cases found
      rw [noParent] at parent
      cases parent
    · exact absent inFront

theorem root_branched (notRoot : p ≠ 0) {root : Node α} (rootFound : tree[0]? = some root) :
    root.children ≠ [] := by
  induction line with
  | root found top => exact absurd (sound.root_of_no_parent found top).1 notRoot
  | @child p q node above below found parent line start ih =>
    by_cases atRoot : q = 0
    · subst atRoot
      have member := (sound.mem_children rootFound p).mpr ((parentOf_eq found).trans parent)
      exact ne_nil_of_mem member
    · exact ih atRoot

/-- The line of an ancestor is the beginning of the line, and a shorter one if the
ancestor is not the end of the line itself. -/
theorem exists_shorter (member : q ∈ above) :
    ∃ above' items', Line tree q above' items' ∧ items' <+: items ∧
      (q ≠ p → items'.length < items.length) := by
  induction line with
  | root found top =>
    rw [mem_singleton] at member
    rw [member]
    exact ⟨_, _, .root found top, prefix_refl _, fun different => absurd rfl different⟩
  | child found parent line start ih =>
    rcases mem_cons.mp member with same | inRest
    · rw [same]
      exact ⟨_, _, .child found parent line start, prefix_refl _,
        fun different => absurd rfl different⟩
    · obtain ⟨above', items', line', isPrefix, -⟩ := ih inRest
      refine ⟨above', items', line', isPrefix.trans (prefix_append _ _), fun _ => ?_⟩
      have lower := isPrefix.length_le
      have more := sound.items_length_pos found
      rw [length_append]
      omega

end

theorem mem_iff (line : Line tree p above items) (q : Nat) :
    q ∈ above ↔ Relation.ReflTransGen (fun a b => parentOf tree a = some b) p q := by
  induction line with
  | root found top =>
    rw [mem_singleton, Relation.ReflTransGen.cases_head_iff]
    constructor
    · exact fun same => .inl same.symm
    · rintro (same | ⟨r, parent, -⟩)
      · exact same.symm
      · rw [parentOf_eq found, top] at parent
        cases parent
  | child found parent _ _ ih =>
    rw [mem_cons, Relation.ReflTransGen.cases_head_iff, ih]
    constructor
    · rintro (same | reached)
      · exact .inl same.symm
      · exact .inr ⟨_, (parentOf_eq found).trans parent, reached⟩
    · rintro (same | ⟨r, isParent, reached⟩)
      · exact .inl same.symm
      · rw [parentOf_eq found, parent] at isParent
        cases isParent
        exact .inr reached

section
variable (sound : Sound link tree) (line : Line tree p above items)
include sound line

theorem getLast?_eq
    (found : tree[p]? = some node) : items.getLast? = node.items.getLast? := by
  cases line with
  | root same _ =>
    rw [found] at same
    cases same
    rfl
  | child same _ _ _ =>
    rw [found] at same
    cases same
    exact getLast?_append_of_ne_nil _ (sound.nonempty found)

theorem nonempty : items ≠ [] := by
  cases line with
  | root found _ => exact sound.nonempty found
  | child found _ _ _ => exact append_ne_nil_of_right_ne_nil _ (sound.nonempty found)

theorem head?_eq {root : Node α}
    (rootFound : tree[0]? = some root) : items.head? = root.items.head? := by
  induction line with
  | root found top =>
    obtain ⟨rfl, -⟩ := sound.root_of_no_parent found top
    rw [found] at rootFound
    cases rootFound
    rfl
  | child _ _ line _ ih =>
    rw [head?_append_of_ne_nil _ (line.nonempty sound)]
    exact ih

theorem isChain :
    items.IsChain link := by
  induction line with
  | root found _ => exact sound.linked found
  | child found parent line _ ih =>
    obtain ⟨below, belowFound, -, links⟩ := sound.parent_found found parent
    refine ih.append (sound.linked found) ?_
    rw [line.getLast?_eq sound belowFound]
    exact links

end
end Line

private theorem exists_bound (tree : Tree α) :
    ∃ bound, ∀ node ∈ tree, node.startIndex ≤ bound := by
  induction tree with
  | nil => exact ⟨0, fun node member => nomatch member⟩
  | cons first rest ih =>
    obtain ⟨bound, isBound⟩ := ih
    refine ⟨max first.startIndex bound, ?_⟩
    intro node member
    rcases mem_cons.mp member with isFirst | inRest
    · rw [isFirst]
      exact Nat.le_max_left _ _
    · exact Nat.le_trans (isBound node inRest) (Nat.le_max_right _ _)

theorem Sound.exists_leaf {link : α → α → Prop} {leaves : List Nat} (sound : Sound link tree)
    (isLeaves : Leaves tree leaves) (found : tree[p]? = some node) :
    ∃ leaf ∈ leaves, ∃ above items, Line tree leaf above items ∧ p ∈ above := by
  obtain ⟨bound, isBound⟩ := exists_bound tree
  -- children start higher than their parents, and nothing starts above the bound
  induction gap : bound - node.startIndex using Nat.strong_induction_on generalizing p node with
  | _ distance ih =>
    cases children : node.children with
    | nil =>
      obtain ⟨above, items, line, -⟩ := sound.exists_line found
      obtain ⟨rest, isAbove, -⟩ := line.path_cons sound
      refine ⟨p, (isLeaves.mem_iff p).mpr ⟨node, found, children⟩, above, items, line, ?_⟩
      rw [isAbove]
      exact mem_cons_self
    | cons child others =>
      have parent := (sound.mem_children found child).mp (by
        rw [children]
        exact mem_cons_self)
      obtain ⟨childNode, childFound⟩ : ∃ childNode, tree[child]? = some childNode :=
        ⟨_, getElem?_eq_getElem (sound.child_lt found (by
          rw [children]
          exact mem_cons_self))⟩
      have isParent := parent
      rw [parentOf_eq childFound] at isParent
      obtain ⟨below, belowFound, start, -⟩ := sound.parent_found childFound isParent
      rw [found] at belowFound
      cases belowFound
      have positive := sound.items_length_pos found
      have bounded := isBound childNode (mem_of_getElem? childFound)
      obtain ⟨leaf, isLeaf, above, items, line, onLine⟩ :=
        ih (bound - childNode.startIndex) (by omega) childFound rfl
      refine ⟨leaf, isLeaf, above, items, line, ?_⟩
      exact (line.mem_iff p).mpr (((line.mem_iff child).mp onLine).tail parent)

end SegmentTree
