import Etpan.Data.Contraction
import Etpan.Thread.Linking

namespace Etpan.Thread

open Etpan.Data Relation

/-! Step (3): `delete_dummy` takes dummies out, one at a time. -/

/-- What step (5) writes to a node. -/
def Heap.marks (heap : Heap) (tree : Nat) : Option (List UInt8) × Bool := ((heap.node tree).baseSubject, (heap.node tree).isReply)

theorem Heap.marks_modify (heap : Heap) (tree other : Nat) {change : Node → Node} (isReply : ∀ node, (change node).isReply = node.isReply)
    (baseSubject : ∀ node, (change node).baseSubject = node.baseSubject) : (heap.modify tree change).marks other = heap.marks other := by
  rw [marks, marks, modify_node]
  split_ifs with same
  · rw [isReply, baseSubject, same]
  · rfl

@[simp] theorem Heap.marks_setChildren (heap : Heap) (tree other : Nat) (array : List Nat) :
    (heap.setChildren tree array).marks other = heap.marks other :=
  heap.marks_modify tree other (fun _ => rfl) fun _ => rfl

@[simp] theorem Heap.marks_setParent (heap : Heap) (tree other : Nat) (above : Option Nat) :
    (heap.setParent tree above).marks other = heap.marks other :=
  heap.marks_modify tree other (fun _ => rfl) fun _ => rfl

theorem carrayDelete_take {array : List Nat} {cur : Nat} (inside : cur < array.length) : (carrayDelete array cur).take cur = array.take cur := by
  rw [carrayDelete, List.dropLast_eq_take, List.length_set, List.take_take, Nat.min_eq_left (by omega), List.take_set_of_le (le_refl cur)]

section Promote

variable {siblings envTree : Nat}

structure Promoted (heap heap' : Heap) (siblings envTree : Nat) : Prop where
  size : heap'.size = heap.size
  msg : ∀ tree, heap'.msg tree = heap.msg tree
  marks : ∀ tree, heap'.marks tree = heap.marks tree
  parents : ∀ tree, heap'.parent tree = if tree ∈ heap.children envTree then heap.parent envTree else heap.parent tree
  array : ∃ promoted, promoted.Perm (heap.children envTree) ∧ heap'.children siblings = heap.children siblings ++ promoted
  emptied : heap'.children envTree = []
  others : ∀ tree, tree ≠ siblings → tree ≠ envTree → heap'.children tree = heap.children tree

theorem promoteChildren_promoted (apart : siblings ≠ envTree) (count : Nat) :
    ∀ heap : Heap, (heap.children envTree).length = count → envTree ∉ heap.children envTree →
      Promoted heap (promoteChildren siblings envTree count heap) siblings envTree := by
  induction count with
  | zero =>
      intro heap none' _
      have empty := List.length_eq_zero_iff.mp none'
      exact ⟨rfl, fun _ => rfl, fun _ => rfl, fun tree => by rw [empty, if_neg List.not_mem_nil]; rfl,
        ⟨[], by rw [empty], (List.append_nil _).symm⟩, empty, fun _ _ _ => rfl⟩
  | succ count ih =>
      intro heap length notSelf
      rw [promoteChildren]
      obtain ⟨child, rest, children⟩ : ∃ child rest, heap.children envTree = child :: rest :=
        List.exists_cons_of_length_pos (by omega)
      simp only [children]
      -- the first child goes to the end of the siblings
      generalize made : ((heap.addChild siblings child).setParent child (heap.parent envTree)) = grown
      have grownChildren : ∀ tree, grown.children tree = if tree = siblings then heap.children siblings ++ [child] else heap.children tree := by
        intro tree
        rw [← made, Heap.setParent_children, Heap.addChild_children]
      have grownParent : ∀ tree, grown.parent tree = if tree = child then heap.parent envTree else heap.parent tree := by
        intro tree
        rw [← made, Heap.setParent_parent, Heap.addChild_parent]
      have still : grown.children envTree = child :: rest := by rw [grownChildren, if_neg apart.symm, children]
      have perm : (carrayDelete (child :: rest) 0).Perm rest := (carrayDelete_perm rfl).cons_inv
      have next := ih (grown.setChildren envTree (carrayDelete (grown.children envTree) 0)) (by
          rw [Heap.setChildren_children, if_pos rfl, still, perm.length_eq]
          rw [children, List.length_cons] at length
          omega) (by
          rw [Heap.setChildren_children, if_pos rfl, still, perm.mem_iff]
          exact fun member => notSelf (children ▸ List.mem_cons_of_mem child member))
      have childNotEnv : envTree ≠ child := fun same => notSelf (by rw [children, same]; simp)
      obtain ⟨promoted, promotedPerm, array⟩ := next.array
      rw [Heap.setChildren_children, if_pos rfl, still] at promotedPerm
      constructor
      case size => exact next.size.trans (by rw [Heap.setChildren_size, ← made]; rfl)
      case msg =>
        intro tree
        rw [next.msg, Heap.setChildren_msg, ← made, Heap.setParent_msg, Heap.addChild_msg]
      case marks =>
        intro tree
        rw [next.marks, Heap.marks_setChildren, ← made, Heap.marks_setParent, Heap.addChild, Heap.marks_setChildren]
      case parents =>
        intro tree
        rw [next.parents, Heap.setChildren_children, if_pos rfl, still, Heap.setChildren_parent, Heap.setChildren_parent, grownParent, grownParent,
          if_neg childNotEnv, children]
        simp only [perm.mem_iff, List.mem_cons]
        by_cases isChild : tree = child
        · rw [if_pos isChild, if_pos (Or.inl isChild), ite_self]
        · rw [if_neg isChild]
          simp only [isChild, false_or]
      case array =>
        refine ⟨child :: promoted, ?_, ?_⟩
        · rw [children]
          exact (promotedPerm.trans perm).cons child
        · rw [array, Heap.setChildren_children, if_neg apart, grownChildren, if_pos rfl, List.append_assoc]
          rfl
      case emptied => exact next.emptied
      case others =>
        intro tree notSiblings notEnv
        rw [next.others tree notSiblings notEnv, Heap.setChildren_children, if_neg notEnv, grownChildren, if_neg notSiblings]

end Promote

structure Deleted (siblings envTree : Nat) (heap heap' : Heap) : Prop where
  dummy : heap.msg envTree = none
  contracts : Contracts heap.children heap'.children siblings envTree
  size : heap'.size = heap.size
  msg : ∀ tree, heap'.msg tree = heap.msg tree
  parents : ∀ tree, tree ≠ envTree → heap'.parent tree = if tree ∈ heap.children envTree then heap.parent envTree else heap.parent tree
  freed : heap'.node envTree = .blank
  marks : ∀ tree, tree ≠ envTree → heap'.marks tree = heap.marks tree

section DeleteNode

variable {heap : Heap} {siblings cur envTree : Nat}

/-- The two branches that delete are one: no child is promoted when there is none. -/
theorem Promoted.deleted (forest : Forest heap.children) (held : (heap.children siblings)[cur]? = some envTree) (dummy : heap.msg envTree = none)
    {grown : Heap} (promoted : Promoted heap grown siblings envTree) :
    Deleted siblings envTree heap ((mailmessageTreeFree grown envTree).setChildren siblings
      (carrayDelete ((mailmessageTreeFree grown envTree).children siblings) cur)) ∧
    ((carrayDelete ((mailmessageTreeFree grown envTree).children siblings) cur).take cur = (heap.children siblings).take cur) := by
  have inside := (List.getElem?_eq_some_iff.mp held).1
  have member := List.mem_of_getElem? held
  have apart : siblings ≠ envTree := by
    rintro rfl
    exact forest.not_self member
  obtain ⟨children, perm, array⟩ := promoted.array
  have freedArray : (mailmessageTreeFree grown envTree).children siblings = heap.children siblings ++ children := by
    rw [mailmessageTreeFree_children, if_neg apart, array]
  have grownHeld : (heap.children siblings ++ children)[cur]? = some envTree := by rw [List.getElem?_append_left inside, held]
  rw [freedArray]
  refine ⟨⟨dummy, ⟨member, ?_, ?_, ?_⟩, ?_, ?_, ?_, ?_, ?_⟩, ?_⟩
  · rw [Heap.setChildren_children, if_pos rfl]
    have whole := (carrayDelete_perm grownHeld).trans ((List.perm_cons_erase member).append perm)
    exact whole.cons_inv
  · rw [Heap.setChildren_children, if_neg apart.symm, mailmessageTreeFree_children, if_pos rfl]
  · intro other notSiblings notEnv
    rw [Heap.setChildren_children, if_neg notSiblings, mailmessageTreeFree_children, if_neg notEnv, promoted.others other notSiblings notEnv]
  · exact promoted.size
  · intro tree
    rw [Heap.setChildren_msg, mailmessageTreeFree_msg]
    split_ifs with same
    · rw [same, dummy]
    · exact promoted.msg tree
  · intro tree notEnv
    rw [Heap.setChildren_parent, mailmessageTreeFree_parent, if_neg notEnv, promoted.parents]
  · rw [Heap.setChildren, Heap.modify_node, if_neg apart.symm, mailmessageTreeFree_node, if_pos rfl]
  · intro tree notEnv
    rw [Heap.marks_setChildren, Heap.marks, mailmessageTreeFree_node, if_neg notEnv]
    exact promoted.marks tree
  · rw [carrayDelete_take (by rw [List.length_append]; omega), List.take_append_of_le_length (le_of_lt inside)]

theorem deleteNode_cases (forest : Forest heap.children) (held : (heap.children siblings)[cur]? = some envTree) :
    (deleteNode heap siblings cur envTree = (heap, cur + 1) ∧
      (heap.msg envTree ≠ none ∨ siblings = root ∧ 2 ≤ (heap.children envTree).length)) ∨
    ∃ heap', deleteNode heap siblings cur envTree = (heap', cur) ∧ Deleted siblings envTree heap heap' ∧
      (heap'.children siblings).take cur = (heap.children siblings).take cur := by
  have member := List.mem_of_getElem? held
  have apart : siblings ≠ envTree := by
    rintro rfl
    exact forest.not_self member
  rw [deleteNode]
  by_cases dummy : heap.msg envTree = none
  · rw [if_pos dummy]
    have promoted := promoteChildren_promoted apart (heap.children envTree).length heap rfl forest.not_self
    obtain ⟨deleted, sameFront⟩ := promoted.deleted forest held dummy
    have front : ∀ (grown : Heap) (array : List Nat), (grown.setChildren siblings array).children siblings = array := fun grown array => by
      rw [Heap.setChildren_children, if_pos rfl]
    by_cases alone : (heap.children envTree).length = 0
    · rw [if_pos alone]
      rw [alone] at deleted sameFront
      exact .inr ⟨_, rfl, deleted, by rw [front]; exact sameFront⟩
    · rw [if_neg alone]
      by_cases promotes : siblings ≠ root ∨ (heap.children envTree).length = 1
      · rw [if_pos promotes]
        exact .inr ⟨_, rfl, deleted, by rw [front]; exact sameFront⟩
      · rw [if_neg promotes]
        obtain ⟨isRoot, several⟩ := not_or.mp promotes
        exact .inl ⟨rfl, .inr ⟨not_not.mp isRoot, by omega⟩⟩
  · rw [if_neg dummy]
    exact .inl ⟨rfl, .inl dummy⟩

end DeleteNode

open Classical in
/-- The number of nodes that are in an array. -/
noncomputable def liveCount (heap : Heap) : Nat :=
  ((Finset.range heap.size).filter fun tree => ∃ holder, tree ∈ heap.children holder).card

theorem liveCount_le (heap : Heap) : liveCount heap ≤ heap.size := by
  classical
  have bound := Finset.card_filter_le (Finset.range heap.size) fun tree => ∃ holder, tree ∈ heap.children holder
  simpa [liveCount] using bound

/-- A finite tree without cycles; the nodes are the ones that were allocated. -/
structure FiniteTree (heap : Heap) : Prop where
  forest : Forest heap.children
  inside : ∀ holder child, child ∈ heap.children holder → holder < heap.size ∧ child < heap.size
  rootOrphan : Orphan heap.children root

def DeletesOne (heap heap' : Heap) : Prop := ∃ siblings envTree, Deleted siblings envTree heap heap'

section Run

variable {heap heap' : Heap} {siblings envTree : Nat}

theorem FiniteTree.contract (tree : FiniteTree heap) {holder node : Nat} (contracts : Contracts heap.children heap'.children holder node)
    (size : heap'.size = heap.size) : FiniteTree heap' where
  forest := contracts.forest' tree.forest
  inside above child held := by
    rw [size]
    rcases (contracts.held_before tree.forest held).2.2 with old | ⟨rfl, promoted⟩
    · exact tree.inside above child old
    · exact ⟨(tree.inside above _ contracts.held).1, (tree.inside _ child promoted).2⟩
  rootOrphan above held := by
    rcases (contracts.held_before tree.forest held).2.2 with old | ⟨_, promoted⟩
    · exact tree.rootOrphan above old
    · exact tree.rootOrphan _ promoted

theorem Deleted.tree (tree : FiniteTree heap) (deleted : Deleted siblings envTree heap heap') : FiniteTree heap' :=
  tree.contract deleted.contracts deleted.size

theorem length_le_liveCount (tree : FiniteTree heap) (holder : Nat) : (heap.children holder).length ≤ liveCount heap := by
  classical
  rw [← List.toFinset_card_of_nodup (tree.forest.nodup holder)]
  apply Finset.card_le_card
  intro child member
  have held : child ∈ heap.children holder := List.mem_toFinset.mp member
  exact Finset.mem_filter.mpr ⟨Finset.mem_range.mpr (tree.inside holder child held).2, holder, held⟩

theorem Deleted.liveCount_lt (tree : FiniteTree heap) (deleted : Deleted siblings envTree heap heap') : liveCount heap' < liveCount heap := by
  classical
  have before : ∀ {child holder}, child ∈ heap'.children holder → child ≠ envTree ∧ ∃ above, child ∈ heap.children above := by
    intro child holder held
    obtain ⟨_, differs, old | ⟨_, promoted⟩⟩ := deleted.contracts.held_before tree.forest held
    · exact ⟨differs, holder, old⟩
    · exact ⟨differs, envTree, promoted⟩
  apply Finset.card_lt_card
  constructor
  · intro child member
    simp only [Finset.mem_filter, deleted.size] at member ⊢
    obtain ⟨inside, holder, held⟩ := member
    exact ⟨inside, (before held).2⟩
  · intro subset
    have listed : envTree ∈ (Finset.range heap.size).filter fun child => ∃ holder, child ∈ heap.children holder :=
      Finset.mem_filter.mpr ⟨Finset.mem_range.mpr (tree.inside _ _ deleted.contracts.held).2, siblings, deleted.contracts.held⟩
    obtain ⟨holder, held⟩ := (Finset.mem_filter.mp (subset listed)).2
    exact (before held).1 rfl

/-- The number of nodes below a node. -/
noncomputable def depthOf (heap : Heap) (tree : Nat) : Nat := Forest.height heap.children (Finset.range heap.size) tree

theorem depthOf_lt (tree : FiniteTree heap) {holder child : Nat} (held : child ∈ heap.children holder) : depthOf heap child < depthOf heap holder :=
  tree.forest.height_lt (fun {holder child} held => Finset.mem_range.mpr (tree.inside holder child held).2) held

theorem depthOf_le (heap : Heap) (tree : Nat) : depthOf heap tree ≤ heap.size := by
  have bound := @Forest.height_le _ heap.children (Finset.range heap.size) tree
  rwa [Finset.card_range] at bound

/-- What any number of deletions keep. -/
structure Deletions (heap heap' : Heap) : Prop where
  tree : FiniteTree heap'
  size : heap'.size = heap.size
  msg : ∀ tree, heap'.msg tree = heap.msg tree
  paths : ∀ {above below}, TransGen (Holds heap'.children) above below → TransGen (Holds heap.children) above below
  live : liveCount heap' ≤ liveCount heap
  depth : ∀ tree, depthOf heap' tree ≤ depthOf heap tree

theorem Deleted.deletions (tree : FiniteTree heap) (deleted : Deleted siblings envTree heap heap') : Deletions heap heap' where
  tree := deleted.tree tree
  size := deleted.size
  msg := deleted.msg
  paths := deleted.contracts.path_before tree.forest
  live := le_of_lt (deleted.liveCount_lt tree)
  depth other := by
    classical
    unfold depthOf
    apply Finset.card_le_card
    intro below member
    simp only [Finset.mem_filter, deleted.size] at member ⊢
    exact ⟨member.1, deleted.contracts.path_before tree.forest member.2⟩

theorem Deletions.trans {heap'' : Heap} (first : Deletions heap heap') (second : Deletions heap' heap'') : Deletions heap heap'' where
  tree := second.tree
  size := second.size.trans first.size
  msg tree := (second.msg tree).trans (first.msg tree)
  paths path := first.paths (second.paths path)
  live := Nat.le_trans second.live first.live
  depth tree := Nat.le_trans (second.depth tree) (first.depth tree)

theorem deletions_of_run (tree : FiniteTree heap) (run : ReflTransGen DeletesOne heap heap') : Deletions heap heap' := by
  induction run with
  | refl => exact ⟨tree, rfl, fun _ => rfl, id, le_refl _, fun _ => le_refl _⟩
  | tail _ taken ih =>
      obtain ⟨siblings, envTree, deleted⟩ := taken
      exact ih.trans (deleted.deletions ih.tree)

/-- Below the node there are messages only, and so is it, unless it stays at the top. -/
def Settled (heap : Heap) (siblings tree : Nat) : Prop :=
  (∀ below, TransGen (Holds heap.children) tree below → heap.msg below ≠ none) ∧
    (heap.msg tree ≠ none ∨ siblings = root ∧ 2 ≤ (heap.children tree).length)

/-- The loop over an array from a position on. -/
structure Pruning (heap heap' : Heap) (siblings cur : Nat) : Prop where
  run : ReflTransGen DeletesOne heap heap'
  front : (heap'.children siblings).take cur = (heap.children siblings).take cur
  frame : ∀ other, other ≠ siblings →
    (∀ tree ∈ (heap.children siblings).drop cur, ¬ ReflTransGen (Holds heap.children) tree other) → heap'.children other = heap.children other
  settled : ∀ tree ∈ (heap'.children siblings).drop cur, Settled heap' siblings tree

/-- A bound for the calls that are in progress at once. -/
noncomputable def pruneCost (heap : Heap) (siblings cur : Nat) : Nat :=
  depthOf heap siblings * (2 * heap.size + 2) + (2 * liveCount heap + 1 - cur)

theorem pruneCost_child (tree : FiniteTree heap) {cur : Nat} (held : envTree ∈ heap.children siblings) :
    pruneCost heap envTree 0 < pruneCost heap siblings cur := by
  have lower := depthOf_lt tree held
  have count := liveCount_le heap
  have step : (depthOf heap envTree + 1) * (2 * heap.size + 2) ≤ depthOf heap siblings * (2 * heap.size + 2) := Nat.mul_le_mul_right _ lower
  rw [Nat.add_mul, Nat.one_mul] at step
  rw [pruneCost, pruneCost]
  omega

theorem pruneCost_next (later : Deletions heap heap') {cur next : Nat} (inside : cur ≤ liveCount heap)
    (progress : liveCount heap' < liveCount heap ∧ cur ≤ next ∨ cur < next) : pruneCost heap' siblings next < pruneCost heap siblings cur := by
  have depth : depthOf heap' siblings * (2 * heap'.size + 2) ≤ depthOf heap siblings * (2 * heap.size + 2) := by
    rw [later.size]
    exact Nat.mul_le_mul_right _ (later.depth siblings)
  have count := later.live
  rw [pruneCost, pruneCost]
  omega

theorem Settled.later (tree : FiniteTree heap) {cur : Nat} (held : (heap.children siblings)[cur]? = some envTree)
    (settled : Settled heap siblings envTree) (later : Pruning heap heap' siblings (cur + 1)) : Settled heap' siblings envTree := by
  have member := List.mem_of_getElem? held
  have kept := deletions_of_run tree later.run
  have apart : ∀ other ∈ (heap.children siblings).drop (cur + 1), other ≠ envTree := by
    rintro other behind rfl
    obtain ⟨q, there⟩ := List.getElem?_of_mem behind
    rw [List.getElem?_drop] at there
    have same := (List.getElem?_inj (List.getElem?_eq_some_iff.mp held).1 (tree.forest.nodup siblings)).mp (held.trans there.symm)
    omega
  have same : ∀ below, ReflTransGen (Holds heap.children) envTree below → heap'.children below = heap.children below := by
    intro below path
    refine later.frame below ?_ fun other behind above => ?_
    · rintro rfl
      exact tree.forest.acyclic _ (TransGen.head' member path)
    · have otherHeld := List.mem_of_mem_drop behind
      rcases tree.forest.comparable path above with order | order
      · exact apart other behind (tree.forest.siblings_apart otherHeld member order)
      · exact apart other behind (tree.forest.siblings_apart member otherHeld order).symm
  refine ⟨fun below path => ?_, ?_⟩
  · rw [kept.msg]
    exact settled.1 below (kept.paths path)
  · rw [kept.msg, same envTree .refl]
    exact settled.2

theorem Pruning.clean (tree : FiniteTree heap) (member : envTree ∈ heap.children siblings) (inner : Pruning heap heap' envTree 0) (below : Nat)
    (path : TransGen (Holds heap'.children) envTree below) : heap'.msg below ≠ none := by
  have notRoot : envTree ≠ root := fun same => tree.rootOrphan siblings (same ▸ member)
  obtain ⟨child, held, rest⟩ := TransGen.head'_iff.mp path
  obtain ⟨clean, isMessage⟩ := inner.settled child (by rwa [List.drop_zero])
  rcases reflTransGen_iff_eq_or_transGen.mp rest with rfl | further
  · exact isMessage.resolve_right fun both => notRoot both.1
  · exact clean below further

theorem Pruning.outside (inner : Pruning heap heap' envTree 0) {other : Nat}
    (notBelow : ¬ ReflTransGen (Holds heap.children) envTree other) : heap'.children other = heap.children other := by
  refine inner.frame other (fun same => notBelow (same ▸ .refl)) fun child held path => notBelow ?_
  rw [List.drop_zero] at held
  exact .head held path

theorem deleteDummies_pruning (steps : Nat) :
    ∀ (heap : Heap) (siblings cur : Nat), FiniteTree heap → cur ≤ (heap.children siblings).length → pruneCost heap siblings cur < steps →
      ∃ heap', deleteDummies steps heap siblings cur = some heap' ∧ Pruning heap heap' siblings cur := by
  induction steps with
  | zero => exact fun _ _ _ _ _ impossible => absurd impossible (Nat.not_lt_zero _)
  | succ steps ih =>
      intro heap siblings cur tree within enough
      rw [deleteDummies]
      cases held : (heap.children siblings)[cur]? with
      | none =>
          refine ⟨heap, rfl, .refl, rfl, fun _ _ _ => rfl, fun other behind => ?_⟩
          rw [List.drop_of_length_le (List.getElem?_eq_none_iff.mp held)] at behind
          cases behind
      | some envTree =>
          have member := List.mem_of_getElem? held
          have inside := (List.getElem?_eq_some_iff.mp held).1
          have selfBelow : ¬ ReflTransGen (Holds heap.children) envTree siblings := fun path =>
            tree.forest.acyclic siblings (TransGen.head' member path)
          obtain ⟨middle, innerRun, inner⟩ := ih heap envTree 0 tree (Nat.zero_le _)
            (Nat.lt_of_lt_of_le (pruneCost_child tree member) (Nat.le_of_lt_succ enough))
          have innerKept := deletions_of_run tree inner.run
          have sameArray := inner.outside selfBelow
          have middleHeld : (middle.children siblings)[cur]? = some envTree := by rw [sameArray, held]
          have curLive : cur ≤ liveCount heap := Nat.le_trans within (length_le_liveCount tree siblings)
          simp only [innerRun]
          rcases deleteNode_cases innerKept.tree.forest middleHeld with ⟨stays, isTop⟩ | ⟨next, deletes, deleted, front⟩
          · -- the node stays, and the loop goes on behind it
            rw [stays]
            have cost : pruneCost middle siblings (cur + 1) < steps :=
              Nat.lt_of_lt_of_le (pruneCost_next innerKept curLive (.inr (Nat.lt_succ_self cur))) (Nat.le_of_lt_succ enough)
            obtain ⟨heap', run, later⟩ := ih middle siblings (cur + 1) innerKept.tree (by rw [sameArray]; exact inside) cost
            refine ⟨heap', run, inner.run.trans later.run, ?_, fun other notSiblings notBelow => ?_, fun other behind => ?_⟩
            · have front := congrArg (List.take cur) later.front
              rwa [List.take_take, List.take_take, Nat.min_eq_left (Nat.le_succ cur), sameArray] at front
            · have notEnv := notBelow envTree (List.mem_of_getElem? (show ((heap.children siblings).drop cur)[0]? = some envTree by
                rw [List.getElem?_drop, Nat.add_zero, held]))
              rw [later.frame other notSiblings fun tree behind path => ?_, inner.outside notEnv]
              rw [sameArray] at behind
              refine notBelow tree ?_ ?_
              · rw [← List.drop_drop] at behind
                exact List.mem_of_mem_drop behind
              · rcases reflTransGen_iff_eq_or_transGen.mp path with rfl | further
                · exact .refl
                · exact (innerKept.paths further).to_reflTransGen
            · have stillHeld : (heap'.children siblings)[cur]? = some envTree := by
                have same := congrArg (fun array : List Nat => array[cur]?) later.front
                simp only [List.getElem?_take_of_lt (Nat.lt_succ_self cur)] at same
                rw [same, middleHeld]
              rw [List.drop_eq_getElem_cons (List.getElem?_eq_some_iff.mp stillHeld).1, (List.getElem?_eq_some_iff.mp stillHeld).2,
                List.mem_cons] at behind
              rcases behind with rfl | further
              · exact Settled.later innerKept.tree middleHeld ⟨inner.clean tree member, isTop⟩ later
              · exact later.settled other further
          · -- the node is deleted, and the loop goes on at its place
            rw [deletes]
            have kept := deleted.deletions innerKept.tree
            have fewer := deleted.liveCount_lt innerKept.tree
            have cost : pruneCost next siblings cur < steps :=
              Nat.lt_of_lt_of_le (pruneCost_next (innerKept.trans kept) curLive
                (.inl ⟨Nat.lt_of_lt_of_le fewer innerKept.live, le_refl cur⟩)) (Nat.le_of_lt_succ enough)
            have lengths := congrArg List.length front
            rw [List.length_take, List.length_take, sameArray, Nat.min_eq_left within] at lengths
            obtain ⟨heap', run, later⟩ := ih next siblings cur kept.tree (by omega) cost
            refine ⟨heap', run, (inner.run.tail ⟨siblings, envTree, deleted⟩).trans later.run, ?_, fun other notSiblings notBelow => ?_, later.settled⟩
            · rw [later.front, front, sameArray]
            · have envBehind : envTree ∈ (heap.children siblings).drop cur :=
                List.mem_of_getElem? (show ((heap.children siblings).drop cur)[0]? = some envTree by rw [List.getElem?_drop, Nat.add_zero, held])
              have notEnv := notBelow envTree envBehind
              have pathBefore : ∀ {above below}, ReflTransGen (Holds next.children) above below → ReflTransGen (Holds heap.children) above below := by
                intro above below path
                rcases reflTransGen_iff_eq_or_transGen.mp path with rfl | further
                · exact .refl
                · exact (innerKept.paths (kept.paths further)).to_reflTransGen
              have otherNotEnv : other ≠ envTree := fun same => notEnv (same ▸ .refl)
              rw [later.frame other notSiblings fun child behind path => ?_, deleted.contracts.others other notSiblings otherNotEnv,
                inner.outside notEnv]
              have childHeld := List.mem_of_mem_drop behind
              obtain ⟨_, _, old | ⟨_, promoted⟩⟩ := deleted.contracts.held_before innerKept.tree.forest childHeld
              · -- it stood behind the position before
                refine notBelow child ?_ (pathBefore path)
                rw [sameArray] at old
                rw [← List.take_append_drop cur (heap.children siblings), List.mem_append] at old
                refine old.resolve_left fun inFront => ?_
                rw [← sameArray, ← front] at inFront
                have nodup := kept.tree.forest.nodup siblings
                rw [← List.take_append_drop cur (next.children siblings)] at nodup
                exact (List.disjoint_of_nodup_append nodup) inFront behind
              · exact notEnv ((innerKept.paths (.single promoted)).to_reflTransGen.trans (pathBefore path))

def NearestMessage (heap : Heap) (above below : Nat) : Prop :=
  heap.msg above ≠ none ∧ Through (fun tree => heap.msg tree = none) heap.children above below

/-- The deletions take no message away and leave the messages in order. -/
structure KeepsMessages (heap heap' : Heap) : Prop where
  tree : FiniteTree heap'
  msg : ∀ tree, heap'.msg tree = heap.msg tree
  below : ∀ tree, heap.msg tree ≠ none → (TransGen (Holds heap'.children) root tree ↔ TransGen (Holds heap.children) root tree)
  nearest : ∀ above below, heap.msg below ≠ none → (NearestMessage heap' above below ↔ NearestMessage heap above below)

theorem Deleted.keeps (tree : FiniteTree heap) (deleted : Deleted siblings envTree heap heap') : KeepsMessages heap heap' where
  tree := deleted.tree tree
  msg := deleted.msg
  below below isMessage := by
    have notRoot : root ≠ envTree := fun same => tree.rootOrphan siblings (same ▸ deleted.contracts.held)
    exact deleted.contracts.path_iff tree.forest (fun same => isMessage (same ▸ deleted.dummy)) notRoot
  nearest above below isMessage := by
    have kinds : (fun tree => heap'.msg tree = none) = fun tree => heap.msg tree = none := by
      funext tree
      rw [deleted.msg]
    rw [NearestMessage, NearestMessage, deleted.msg, kinds]
    refine and_congr_right fun aboveMessage => ?_
    exact deleted.contracts.through_iff tree.forest deleted.dummy (fun same => isMessage (same ▸ deleted.dummy))
      fun same => aboveMessage (same ▸ deleted.dummy)

theorem KeepsMessages.trans {heap'' : Heap} (first : KeepsMessages heap heap') (second : KeepsMessages heap' heap'') : KeepsMessages heap heap'' where
  tree := second.tree
  msg tree := (second.msg tree).trans (first.msg tree)
  below tree isMessage := (second.below tree (first.msg tree ▸ isMessage)).trans (first.below tree isMessage)
  nearest above below isMessage := (second.nearest above below (first.msg below ▸ isMessage)).trans (first.nearest above below isMessage)

theorem keepsMessages_of_run (tree : FiniteTree heap) (run : ReflTransGen DeletesOne heap heap') : KeepsMessages heap heap' := by
  induction run with
  | refl => exact ⟨tree, fun _ => rfl, fun _ _ => Iff.rfl, fun _ _ _ => Iff.rfl⟩
  | tail _ taken ih =>
      obtain ⟨siblings, envTree, deleted⟩ := taken
      exact ih.trans (deleted.keeps ih.tree)

theorem pruneCost_root (heap : Heap) : pruneCost heap root 0 < pruneSteps heap.size := by
  have product : depthOf heap root * (2 * heap.size + 2) ≤ heap.size * (2 * heap.size + 2) := Nat.mul_le_mul_right _ (depthOf_le heap root)
  have count := liveCount_le heap
  rw [pruneSteps, Nat.mul_comm (2 * heap.size + 2), Nat.add_mul, Nat.one_mul, pruneCost]
  omega

theorem Pruning.dummies (pruning : Pruning heap heap' root 0) {dummy : Nat}
    (below : TransGen (Holds heap'.children) root dummy) (isDummy : heap'.msg dummy = none) :
    dummy ∈ heap'.children root ∧ 2 ≤ (heap'.children dummy).length := by
  obtain ⟨top, held, rest⟩ := TransGen.head'_iff.mp below
  obtain ⟨clean, isTop⟩ := pruning.settled top (by rwa [List.drop_zero])
  rcases reflTransGen_iff_eq_or_transGen.mp rest with rfl | further
  · exact ⟨held, (isTop.resolve_left fun isMessage => isMessage isDummy).2⟩
  · exact absurd isDummy (clean dummy further)

/-- Pruning ends, and leaves the messages with the same nearest messages above them; the
dummies that are left have at least two children and stand directly below the root. -/
theorem deleteDummies_keepsMessages (heap : Heap) (tree : FiniteTree heap) :
    ∃ pruned, deleteDummies (pruneSteps heap.size) heap root 0 = some pruned ∧ KeepsMessages heap pruned ∧
      (∀ node, TransGen (Holds pruned.children) root node → TransGen (Holds heap.children) root node) ∧
      ∀ dummy, TransGen (Holds pruned.children) root dummy → pruned.msg dummy = none →
        dummy ∈ pruned.children root ∧ 2 ≤ (pruned.children dummy).length := by
  obtain ⟨pruned, run, pruning⟩ := deleteDummies_pruning (pruneSteps heap.size) heap root 0 tree (Nat.zero_le _) (pruneCost_root heap)
  exact ⟨pruned, run, keepsMessages_of_run tree pruning.run, fun node => (deletions_of_run tree pruning.run).paths,
    fun dummy => pruning.dummies⟩

end Run

def chainHeap : Heap where
  node
    | 0 => { Node.blank with children := [1] }
    | 1 => { Node.blank with children := [2], parent := some 0 }
    | 2 => { Node.blank with children := [3], parent := some 1 }
    | 3 => { Node.blank with msg := some 0, parent := some 2 }
    | _ => .blank
  size := 4

theorem deleteDummies_keepsMessages_chain :
    ∃ pruned, deleteDummies (pruneSteps chainHeap.size) chainHeap root 0 = some pruned ∧ KeepsMessages chainHeap pruned ∧
      (∀ node, TransGen (Holds pruned.children) root node → TransGen (Holds chainHeap.children) root node) ∧
      ∀ dummy, TransGen (Holds pruned.children) root dummy → pruned.msg dummy = none →
        dummy ∈ pruned.children root ∧ 2 ≤ (pruned.children dummy).length := by
  have children : ∀ tree, chainHeap.children tree = if tree < 3 then [tree + 1] else []
    | 0 => rfl
    | 1 => rfl
    | 2 => rfl
    | 3 => rfl
    | _ + 4 => rfl
  have held : ∀ {above below}, below ∈ chainHeap.children above → above < 3 ∧ below = above + 1 := by
    intro above below member
    rw [children] at member
    split_ifs at member with inside
    · exact ⟨inside, by simpa using member⟩
    · cases member
  refine deleteDummies_keepsMessages chainHeap ⟨⟨fun above => ?_, fun first second => ?_, fun node cycle => ?_⟩, fun above below member => ?_,
    fun above member => ?_⟩
  · rw [children]
    split_ifs
    · exact List.nodup_singleton _
    · exact List.nodup_nil
  · have one := held first
    have two := held second
    omega
  · have grows : ∀ {above below}, TransGen (Holds chainHeap.children) above below → above < below := by
      intro above below path
      induction path with
      | single member => have one := held member; omega
      | tail _ member ih => have one := held member; omega
    exact Nat.lt_irrefl node (grows cycle)
  · have one := held member
    exact ⟨show above < 4 by omega, show below < 4 by omega⟩
  · have one := (held member).2
    rw [root] at one
    omega

/-- The message is right below the root after it. -/
example : (deleteDummies (pruneSteps chainHeap.size) chainHeap root 0).map (fun heap => heap.children root) = some [3] := by decide

end Etpan.Thread
