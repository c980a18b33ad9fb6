import Etpan.Thread.DummyPruning

namespace Etpan.Thread

open Etpan.Data Relation

/-! The tree that REFERENCES threading is to make, and what pruning and sorting leave of it. -/

/-- The messages with header fields are each at one node below the root, and all that is in an array is. -/
structure MessageTree (msgTab : List (Option Mailmessage)) (heap : Heap) : Prop where
  tree : FiniteTree heap
  started : root < heap.size
  whole : ∀ {holder child}, child ∈ heap.children holder → ReflTransGen (Holds heap.children) root holder
  placed : ∀ {msg}, HasFields msgTab msg → ∃ node, TransGen (Holds heap.children) root node ∧ heap.msg node = some msg
  once : ∀ {first second msg}, heap.msg first = some msg → heap.msg second = some msg → first = second
  only : ∀ {node msg}, heap.msg node = some msg → HasFields msgTab msg

structure ThreadTree (msgTab : List (Option Mailmessage)) (heap : Heap) : Prop extends MessageTree msgTab heap where
  parents : ParentsAgree heap

section Tree

variable {msgTab : List (Option Mailmessage)} {heap heap' : Heap}

theorem MessageTree.relink (tree : MessageTree msgTab heap) (finite : FiniteTree heap') (size : heap.size ≤ heap'.size)
    (msg : ∀ node, heap'.msg node = heap.msg node)
    (whole : ∀ {holder child}, child ∈ heap'.children holder → ReflTransGen (Holds heap'.children) root holder)
    (paths : ∀ {node}, heap.msg node ≠ none → TransGen (Holds heap.children) root node → TransGen (Holds heap'.children) root node) :
    MessageTree msgTab heap' where
  tree := finite
  started := Nat.lt_of_lt_of_le tree.started size
  whole := whole
  placed present := by
    obtain ⟨node, below, isMessage⟩ := tree.placed present
    exact ⟨node, paths (by simp [isMessage]) below, by rw [msg, isMessage]⟩
  once isFirst isSecond := tree.once (msg _ ▸ isFirst) (msg _ ▸ isSecond)
  only isMessage := tree.only (msg _ ▸ isMessage)

theorem Threaded.threadTree (threaded : Threaded (HasFields msgTab) heap) : ThreadTree msgTab heap := by
  have sound := threaded.rooted.sound
  have rooted : ∀ {holder child}, child ∈ heap.children holder → holder = root ∨ ∃ above, holder ∈ heap.children above :=
    fun held => threaded.rooted.below (.inr (List.ne_nil_of_mem held))
  have reaches : ∀ {holder child}, child ∈ heap.children holder → ReflTransGen (Holds heap.children) root child :=
    fun held => sound.forest.reaches sound.inside_range rooted held
  constructor
  case parents => exact threaded.agree
  constructor
  case tree =>
    refine ⟨sound.forest, fun holder child held => ⟨?_, sound.inside held⟩, sound.rootOrphan⟩
    by_contra outside
    rw [(sound.unallocated (Nat.le_of_not_lt outside)).1] at held
    cases held
  case started => exact sound.started
  case whole =>
    intro holder child held
    rcases rooted held with rfl | ⟨above, holderHeld⟩
    · exact .refl
    · exact reaches holderHeld
  case placed =>
    intro msg present
    obtain ⟨node, isMessage⟩ := sound.placed present
    have notRoot : node ≠ root := by
      rintro rfl
      rw [sound.rootDummy] at isMessage
      cases isMessage
    obtain ⟨above, held⟩ := (threaded.rooted.below (.inl (by simp [isMessage]))).resolve_left notRoot
    exact ⟨node, (reflTransGen_iff_eq_or_transGen.mp (reaches held)).resolve_left notRoot, isMessage⟩
  case once => exact sound.once
  case only => exact sound.only

theorem MessageTree.contract (tree : MessageTree msgTab heap) {holder node : Nat} (contracts : Contracts heap.children heap'.children holder node)
    (dummy : heap.msg node = none) (size : heap'.size = heap.size) (msg : ∀ tree, heap'.msg tree = heap.msg tree) :
    MessageTree msgTab heap' := by
  have forest := tree.tree.forest
  have notRoot : root ≠ node := fun same => tree.tree.rootOrphan holder (same ▸ contracts.held)
  have path : ∀ {below}, below ≠ node → ReflTransGen (Holds heap.children) root below → ReflTransGen (Holds heap'.children) root below := by
    intro below stays path
    rcases reflTransGen_iff_eq_or_transGen.mp path with rfl | further
    · exact .refl
    · exact (contracts.path_after forest further stays notRoot).to_reflTransGen
  refine tree.relink (tree.tree.contract contracts size) size.ge msg ?_ fun isMessage below =>
    contracts.path_after forest below (fun same => isMessage (same ▸ dummy)) notRoot
  intro above child held
  obtain ⟨stays, -, old | ⟨rfl, -⟩⟩ := contracts.held_before forest held
  · exact path stays (tree.whole old)
  · exact path stays (tree.whole contracts.held)

theorem Deleted.threadTree {siblings envTree : Nat} (tree : ThreadTree msgTab heap) (deleted : Deleted siblings envTree heap heap') :
    ThreadTree msgTab heap' where
  toMessageTree := tree.contract deleted.contracts deleted.dummy deleted.size deleted.msg
  parents := by
    intro holder child held
    obtain ⟨holderStays, childStays, old | ⟨rfl, promoted⟩⟩ := deleted.contracts.held_before tree.tree.forest held
    · rw [deleted.parents child childStays, if_neg, tree.parents old]
      exact fun inEnv => holderStays (tree.tree.forest.unique old inEnv)
    · rw [deleted.parents child childStays, if_pos promoted, tree.parents deleted.contracts.held]

theorem threadTree_of_run (tree : ThreadTree msgTab heap) (run : ReflTransGen DeletesOne heap heap') : ThreadTree msgTab heap' := by
  induction run with
  | refl => exact tree
  | tail _ taken ih =>
      obtain ⟨siblings, envTree, deleted⟩ := taken
      exact deleted.threadTree ih

structure Reordered (heap heap' : Heap) : Prop where
  size : heap'.size = heap.size
  children : ∀ tree, (heap'.children tree).Perm (heap.children tree)
  rest : ∀ tree, { heap'.node tree with children := [] } = { heap.node tree with children := [] }

theorem Reordered.refl (heap : Heap) : Reordered heap heap := ⟨rfl, fun _ => .refl _, fun _ => rfl⟩

theorem Reordered.trans {heap'' : Heap} (first : Reordered heap heap') (second : Reordered heap' heap'') : Reordered heap heap'' :=
  ⟨second.size.trans first.size, fun tree => (second.children tree).trans (first.children tree),
    fun tree => (second.rest tree).trans (first.rest tree)⟩

theorem Reordered.setChildren {tree : Nat} {array : List Nat} (perm : array.Perm (heap.children tree)) :
    Reordered heap (heap.setChildren tree array) := by
  refine ⟨rfl, fun other => ?_, fun other => ?_⟩
  · rw [Heap.setChildren_children]
    split_ifs with same
    · rwa [same]
    · exact .refl _
  · rw [Heap.setChildren, Heap.modify_node]
    split_ifs with same
    · rw [same]
    · rfl

theorem Reordered.msg (reordered : Reordered heap heap') (tree : Nat) : heap'.msg tree = heap.msg tree := by
  have same := congrArg Node.msg (reordered.rest tree)
  exact same

theorem Reordered.parent (reordered : Reordered heap heap') (tree : Nat) : heap'.parent tree = heap.parent tree := by
  have same := congrArg Node.parent (reordered.rest tree)
  exact same

theorem Reordered.holds (reordered : Reordered heap heap') : Holds heap'.children = Holds heap.children := by
  funext holder child
  exact propext (reordered.children holder).mem_iff

theorem Reordered.threadTree (reordered : Reordered heap heap') (tree : ThreadTree msgTab heap) : ThreadTree msgTab heap' where
  toMessageTree := by
    have before : ∀ {holder child}, child ∈ heap'.children holder → child ∈ heap.children holder := fun {holder _} held =>
      (reordered.children holder).subset held
    refine tree.relink ⟨tree.tree.forest.perm reordered.children, fun holder child held => ?_, fun holder held => ?_⟩ reordered.size.ge
      reordered.msg (fun held => ?_) fun _ below => ?_
    · exact reordered.size ▸ tree.tree.inside holder child (before held)
    · exact tree.tree.rootOrphan holder (before held)
    · exact reordered.holds ▸ tree.whole (before held)
    · exact reordered.holds ▸ below
  parents := by
    intro holder child held
    rw [reordered.parent]
    exact tree.parents ((reordered.children holder).subset held)

/-- The sort of a tree ends, and only reorders the arrays. -/
theorem mailThreadSort_reordered (services : Services) (compare : Heap → Nat → Nat → Int) (sortSub : Bool) (depth : Nat) :
    ∀ (heap : Heap) (tree : Nat), ThreadTree msgTab heap → depthOf heap tree < depth →
      ∃ heap', mailThreadSort services compare sortSub depth heap tree = some heap' ∧ Reordered heap heap' := by
  induction depth with
  | zero => exact fun _ _ _ impossible => absurd impossible (Nat.not_lt_zero _)
  | succ depth ih =>
      intro heap tree threadTree enough
      have walk : ∀ (list : List Nat) (current : Heap), Reordered heap current → (∀ child ∈ list, child ∈ heap.children tree) →
          ∃ heap', list.foldlM (fun heap subtree => mailThreadSort services compare sortSub depth heap subtree) current = some heap' ∧
            Reordered heap heap' := by
        intro list
        induction list with
        | nil => exact fun current reordered _ => ⟨current, rfl, reordered⟩
        | cons child list listIH =>
            intro current reordered held
            have lower := depthOf_lt threadTree.tree (held child List.mem_cons_self)
            have sameDepth : depthOf current child = depthOf heap child := by
              rw [depthOf, depthOf, Forest.height, Forest.height, reordered.holds, reordered.size]
            obtain ⟨next, sorted, stepped⟩ := ih current child (reordered.threadTree threadTree) (by omega)
            obtain ⟨final, walked, whole⟩ := listIH next (reordered.trans stepped) fun other member => held other (List.mem_cons_of_mem _ member)
            exact ⟨final, by rw [List.foldlM_cons, sorted]; exact walked, whole⟩
      have sorted : ∃ heap', (if sortSub then
          (heap.children tree).foldlM (fun heap subtree => mailThreadSort services compare sortSub depth heap subtree) heap
          else some heap) = some heap' ∧ Reordered heap heap' := by
        split_ifs
        · exact walk _ heap (.refl heap) fun _ member => member
        · exact ⟨heap, rfl, .refl heap⟩
      obtain ⟨heap', subtrees, reordered⟩ := sorted
      refine ⟨heap'.setChildren tree (services.qsort (compare heap') (heap'.children tree)), ?_,
        reordered.trans (.setChildren (services.qsort_perm _ _))⟩
      rw [mailThreadSort, subtrees]
      rfl

theorem mailThreadSort_whole (services : Services) (compare : Heap → Nat → Nat → Int) (sortSub : Bool) (tree : ThreadTree msgTab heap) :
    ∃ heap', mailThreadSort services compare sortSub (heap.size + 1) heap root = some heap' ∧ Reordered heap heap' :=
  mailThreadSort_reordered services compare sortSub _ heap root tree (Nat.lt_succ_of_le (depthOf_le heap root))

end Tree

/-- Threading by references ends.  No step loses or repeats a message or leaves a wrong parent, and a
dummy that is left is at the top. -/
theorem mailBuildThreadReferences_threadTree (services : Services) (msgTab : List (Option Mailmessage)) :
    ∃ threads, mailBuildThreadReferences services msgTab false = some threads ∧ ThreadTree msgTab threads.linked ∧
      ThreadTree msgTab threads.pruned ∧ ThreadTree msgTab threads.result ∧
      ∀ node, TransGen (Holds threads.result.children) root node → threads.result.msg node = none →
        node ∈ threads.result.children root := by
  have linked := (linked_threaded services msgTab).threadTree
  generalize isLinked : gatherRoots (linkMessages msgTab (collectMessages services msgTab)) = start at linked
  obtain ⟨deleted, run, pruning⟩ := deleteDummies_pruning (pruneSteps start.size) start root 0 linked.tree (Nat.zero_le _) (pruneCost_root start)
  have deletedTree := threadTree_of_run linked pruning.run
  obtain ⟨pruned, sorted, reordered⟩ := mailThreadSort_whole services (mailthreadTreeTimecomp msgTab) false deletedTree
  have prunedTree := reordered.threadTree deletedTree
  obtain ⟨result, isResult, again⟩ :=
    mailThreadSort_whole services (services.compFunc.getD (mailthreadTreeTimecomp msgTab)) true prunedTree
  refine ⟨⟨start, pruned, pruned, result⟩, ?_, linked, prunedTree, again.threadTree prunedTree, fun node below dummy => ?_⟩
  · rw [mailBuildThreadReferences]
    simp only [isLinked, run, sorted, isResult, Option.bind_eq_bind, Option.bind_some, Bool.false_eq_true, if_false]
  · have whole := reordered.trans again
    rw [whole.holds] at below
    rw [whole.msg] at dummy
    exact (whole.children root).symm.subset (pruning.dummies below dummy).1

end Etpan.Thread
