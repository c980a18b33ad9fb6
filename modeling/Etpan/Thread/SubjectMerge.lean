import Etpan.Thread.SubjectTable

namespace Etpan.Thread

open Etpan.Data Relation

/-! Step (5) (C): what one merge does. -/

def Heap.face (heap : Heap) (tree : Nat) : Shape × Option (List UInt8) :=
  ({ dummy := (heap.msg tree).isNone, reply := (heap.node tree).isReply }, (heap.node tree).baseSubject)

theorem Heap.face_modify (heap : Heap) (tree other : Nat) {change : Node → Node} (msg : ∀ node, (change node).msg = node.msg)
    (isReply : ∀ node, (change node).isReply = node.isReply) (baseSubject : ∀ node, (change node).baseSubject = node.baseSubject) :
    (heap.modify tree change).face other = heap.face other := by
  rw [face, face, Heap.msg, Heap.msg, modify_node]
  split_ifs with same
  · rw [msg, isReply, baseSubject, same]
  · rfl

@[simp] theorem Heap.face_setChildren (heap : Heap) (tree other : Nat) (array : List Nat) :
    (heap.setChildren tree array).face other = heap.face other :=
  heap.face_modify tree other (fun _ => rfl) (fun _ => rfl) fun _ => rfl

@[simp] theorem Heap.face_setParent (heap : Heap) (tree other : Nat) (above : Option Nat) :
    (heap.setParent tree above).face other = heap.face other :=
  heap.face_modify tree other (fun _ => rfl) (fun _ => rfl) fun _ => rfl

@[simp] theorem Heap.face_addChild (heap : Heap) (tree child other : Nat) : (heap.addChild tree child).face other = heap.face other :=
  heap.face_setChildren tree other _

theorem Heap.face_dummy {heap : Heap} {tree : Nat} : (heap.face tree).1.dummy = true ↔ heap.msg tree = none := Option.isNone_iff_eq_none

def NestedDummy (heap : Heap) : Prop := ∃ holder child, holder ≠ root ∧ child ∈ heap.children holder ∧ heap.msg child = none

/-- Two threads become one, which stands at `newCur`. -/
structure Joined (state : MergeState) (cur envTree : Nat) (subject : List UInt8) (mainCur mainTree : Nat) (newCur newTree : Nat)
    (state' : MergeState) : Prop where
  place : newCur = mainCur ∧ newTree = mainTree ∨ newCur = state.rootlist.length ∧ newTree = state.heap.size
  grows : state.heap.size ≤ state'.heap.size
  placed : newTree < state'.heap.size
  length : state.rootlist.length ≤ state'.rootlist.length ∧ state'.rootlist.length ≤ state.rootlist.length + 1
  array : ∀ q, state'.rootlist[q]? =
    if q = newCur then some (some newTree) else if q = cur ∨ q = mainCur then some none else state.rootlist[q]?
  hash : ∀ other, state'.subjectHash.lookup other = if other = subject then some newCur else state.subjectHash.lookup other
  face : ∀ tree, tree ≠ envTree → tree < state.heap.size → state'.heap.face tree = state.heap.face tree
  top : state'.heap.face newTree = ((state.heap.face mainTree).1.meet (state.heap.face envTree).1, some subject)
  nested : NestedDummy state'.heap ↔
    NestedDummy state.heap ∨ (state.heap.face mainTree).1.dummy = false ∧ (state.heap.face envTree).1.dummy = true
  inside : ∀ holder child, child ∈ state'.heap.children holder → child < state'.heap.size
  unallocated : ∀ tree, state'.heap.size ≤ tree → state'.heap.children tree = []

/-- The threads that are merged are two different ones at the top. -/
structure Meeting (state : MergeState) (cur envTree : Nat) (subject : List UInt8) (mainCur mainTree : Nat) : Prop where
  env : state.rootlist[cur]? = some (some envTree)
  main : state.rootlist[mainCur]? = some (some mainTree)
  differ : mainCur ≠ cur
  apart : mainTree ≠ envTree
  envNotRoot : envTree ≠ root
  mainNotRoot : mainTree ≠ root
  envInside : envTree < state.heap.size
  mainInside : mainTree < state.heap.size
  shared : (state.heap.face mainTree).2 = some subject
  known : state.subjectHash.lookup subject = some mainCur
  inside : ∀ holder child, child ∈ state.heap.children holder → child < state.heap.size
  unallocated : ∀ tree, state.heap.size ≤ tree → state.heap.children tree = []

section Meeting

variable {state : MergeState} {cur envTree mainCur mainTree : Nat} {subject : List UInt8}

theorem Meeting.face_eq (meeting : Meeting state cur envTree subject mainCur mainTree) {shape : Shape}
    (same : (state.heap.face mainTree).1 = shape) : state.heap.face mainTree = (shape, some subject) := by
  rw [← same, ← meeting.shared]

/-- The current thread leaves the array and goes below or into the thread in the table. -/
theorem Meeting.joined_kept (meeting : Meeting state cur envTree subject mainCur mainTree) {heap : Heap}
    (stays : (state.heap.face mainTree).1.meet (state.heap.face envTree).1 = (state.heap.face mainTree).1)
    (size : heap.size = state.heap.size) (face : ∀ tree, tree ≠ envTree → heap.face tree = state.heap.face tree)
    (nested : NestedDummy heap ↔ NestedDummy state.heap ∨
      (state.heap.face mainTree).1.dummy = false ∧ (state.heap.face envTree).1.dummy = true)
    (inside : ∀ holder child, child ∈ heap.children holder → child < heap.size)
    (unallocated : ∀ tree, heap.size ≤ tree → heap.children tree = []) :
    Joined state cur envTree subject mainCur mainTree mainCur mainTree
      { state with heap, rootlist := state.rootlist.set cur none } where
  place := .inl ⟨rfl, rfl⟩
  grows := size.ge
  placed := size.symm ▸ meeting.mainInside
  length := by simp
  array q := by
    have inBounds := (List.getElem?_eq_some_iff.mp meeting.env).1
    rw [List.getElem?_set]
    by_cases here : cur = q
    · subst here
      rw [if_pos rfl, if_pos inBounds, if_neg meeting.differ.symm, if_pos (Or.inl rfl)]
    · rw [if_neg here]
      by_cases main : q = mainCur
      · rw [if_pos main, main, meeting.main]
      · rw [if_neg main, if_neg (by simp [main, Ne.symm here])]
  hash other := by
    by_cases same : other = subject
    · rw [if_pos same, same, meeting.known]
    · rw [if_neg same]
  face tree differs _ := face tree differs
  top := by
    rw [face mainTree meeting.apart, stays]
    exact meeting.face_eq rfl
  nested := nested
  inside := inside
  unallocated := unallocated

@[simp] theorem nestThread_size (heap : Heap) (envTree mainTree : Nat) : (nestThread heap envTree mainTree).size = heap.size := rfl

@[simp] theorem nestThread_face (heap : Heap) (envTree mainTree tree : Nat) : (nestThread heap envTree mainTree).face tree = heap.face tree := by
  rw [nestThread, Heap.face_setParent, Heap.face_addChild]

@[simp] theorem nestThread_msg (heap : Heap) (envTree mainTree tree : Nat) : (nestThread heap envTree mainTree).msg tree = heap.msg tree := by
  rw [nestThread, Heap.setParent_msg, Heap.addChild_msg]

@[simp] theorem nestThread_children (heap : Heap) (envTree mainTree tree : Nat) :
    (nestThread heap envTree mainTree).children tree = if tree = mainTree then heap.children mainTree ++ [envTree] else heap.children tree := by
  rw [nestThread, Heap.setParent_children, Heap.addChild_children]

theorem nestThread_nested {heap : Heap} {envTree mainTree : Nat} (notRoot : mainTree ≠ root) :
    NestedDummy (nestThread heap envTree mainTree) ↔ NestedDummy heap ∨ heap.msg envTree = none := by
  constructor
  · rintro ⟨holder, child, below, held, dummy⟩
    rw [nestThread_msg] at dummy
    rw [nestThread_children] at held
    split_ifs at held with same
    · rcases List.mem_append.mp held with old | new
      · exact Or.inl ⟨mainTree, child, notRoot, old, dummy⟩
      · rw [List.mem_singleton.mp new] at dummy
        exact Or.inr dummy
    · exact Or.inl ⟨holder, child, below, held, dummy⟩
  · rintro (⟨holder, child, below, held, dummy⟩ | dummy)
    · refine ⟨holder, child, below, ?_, by rwa [nestThread_msg]⟩
      rw [nestThread_children]
      split_ifs with same
      · rw [same] at held
        exact List.mem_append_left _ held
      · exact held
    · refine ⟨mainTree, envTree, notRoot, ?_, by rwa [nestThread_msg]⟩
      rw [nestThread_children, if_pos rfl]
      exact List.mem_append_right _ (List.mem_singleton.mpr rfl)

theorem nestThread_inside {heap : Heap} {envTree mainTree : Nat} (env : envTree < heap.size)
    (inside : ∀ holder child, child ∈ heap.children holder → child < heap.size) (holder child : Nat)
    (held : child ∈ (nestThread heap envTree mainTree).children holder) : child < (nestThread heap envTree mainTree).size := by
  rw [nestThread_children] at held
  rw [nestThread_size]
  split_ifs at held with same
  · rcases List.mem_append.mp held with old | new
    · exact inside mainTree child old
    · rw [List.mem_singleton.mp new]
      exact env
  · exact inside holder child held

theorem nestThread_unallocated {heap : Heap} {envTree mainTree : Nat} (main : mainTree < heap.size)
    (unallocated : ∀ tree, heap.size ≤ tree → heap.children tree = []) (tree : Nat) (beyond : (nestThread heap envTree mainTree).size ≤ tree) :
    (nestThread heap envTree mainTree).children tree = [] := by
  rw [nestThread_size] at beyond
  rw [nestThread_children, if_neg (Nat.ne_of_gt (Nat.lt_of_lt_of_le main beyond))]
  exact unallocated tree beyond

theorem Meeting.joined_nest (meeting : Meeting state cur envTree subject mainCur mainTree)
    (stays : (state.heap.face mainTree).1.meet (state.heap.face envTree).1 = (state.heap.face mainTree).1)
    (isMessage : state.heap.msg envTree ≠ none) :
    Joined state cur envTree subject mainCur mainTree mainCur mainTree
      { state with heap := nestThread state.heap envTree mainTree, rootlist := state.rootlist.set cur none } := by
  refine meeting.joined_kept stays (nestThread_size ..) (fun tree _ => nestThread_face ..) ?_
    (nestThread_inside meeting.envInside meeting.inside) (nestThread_unallocated meeting.mainInside meeting.unallocated)
  rw [nestThread_nested meeting.mainNotRoot, Heap.face_dummy]
  simp only [isMessage, or_false, and_false]

theorem setParents_kept (list : List Nat) (heap : Heap) (above : Option Nat) (tree : Nat) :
    (list.foldl (fun heap child => heap.setParent child above) heap).face tree = heap.face tree ∧
      (list.foldl (fun heap child => heap.setParent child above) heap).children tree = heap.children tree ∧
        (list.foldl (fun heap child => heap.setParent child above) heap).msg tree = heap.msg tree ∧
          (list.foldl (fun heap child => heap.setParent child above) heap).size = heap.size := by
  induction list generalizing heap with
  | nil => exact ⟨rfl, rfl, rfl, rfl⟩
  | cons child list ih =>
      obtain ⟨face, children, msg, size⟩ := ih (heap.setParent child above)
      rw [Heap.face_setParent] at face
      rw [Heap.setParent_children] at children
      rw [Heap.setParent_msg] at msg
      exact ⟨face, children, msg, size⟩

theorem mergeDummies_size (heap : Heap) (envTree mainTree : Nat) : (mergeDummies heap envTree mainTree).size = heap.size := by
  rw [mergeDummies]
  simp only [mailmessageTreeFree_size, Heap.setChildren_size]
  exact (setParents_kept _ _ _ 0).2.2.2

theorem mergeDummies_face (heap : Heap) {envTree mainTree tree : Nat} (differs : tree ≠ envTree) :
    (mergeDummies heap envTree mainTree).face tree = heap.face tree := by
  have freed : ∀ heap : Heap, (mailmessageTreeFree heap envTree).face tree = heap.face tree := by
    intro heap
    rw [Heap.face, Heap.face, mailmessageTreeFree_msg, mailmessageTreeFree_node, if_neg differs, if_neg differs]
  rw [mergeDummies]
  simp only [freed, Heap.face_setChildren]
  rw [(setParents_kept _ _ _ tree).1, Heap.face_setChildren]

theorem mergeDummies_msg (heap : Heap) {envTree mainTree : Nat} (dummy : heap.msg envTree = none) (tree : Nat) :
    (mergeDummies heap envTree mainTree).msg tree = heap.msg tree := by
  rw [mergeDummies]
  simp only [mailmessageTreeFree_msg, Heap.setChildren_msg]
  split_ifs with same
  · rw [same, dummy]
  · rw [(setParents_kept _ _ _ tree).2.2.1, Heap.setChildren_msg]

theorem mergeDummies_children (heap : Heap) {envTree mainTree : Nat} (tree : Nat) :
    (mergeDummies heap envTree mainTree).children tree =
      if tree = envTree then [] else if tree = mainTree then heap.children mainTree ++ heap.children envTree else heap.children tree := by
  rw [mergeDummies]
  simp only [mailmessageTreeFree_children, Heap.setChildren_children]
  split_ifs with env main
  · rfl
  · rw [(setParents_kept _ _ _ tree).2.1, Heap.setChildren_children, if_pos main]
  · rw [(setParents_kept _ _ _ tree).2.1, Heap.setChildren_children, if_neg main]

theorem Meeting.joined_dummies (meeting : Meeting state cur envTree subject mainCur mainTree) (envDummy : state.heap.msg envTree = none)
    (mainDummy : state.heap.msg mainTree = none) :
    Joined state cur envTree subject mainCur mainTree mainCur mainTree
      { state with heap := mergeDummies state.heap envTree mainTree, rootlist := state.rootlist.set cur none } := by
  have children := @mergeDummies_children state.heap envTree mainTree
  have size := mergeDummies_size state.heap envTree mainTree
  refine meeting.joined_kept (Shape.meet_dummy (Heap.face_dummy.mpr mainDummy) _) size
    (fun tree differs => mergeDummies_face state.heap differs) ?_ ?_ ?_
  · rw [Heap.face_dummy.mpr mainDummy]
    simp only [Bool.true_eq_false, false_and, or_false]
    constructor
    · rintro ⟨holder, child, below, held, dummy⟩
      rw [mergeDummies_msg state.heap envDummy] at dummy
      rw [children] at held
      split_ifs at held with env main
      · cases held
      · rcases List.mem_append.mp held with old | moved
        · exact ⟨mainTree, child, meeting.mainNotRoot, old, dummy⟩
        · exact ⟨envTree, child, meeting.envNotRoot, moved, dummy⟩
      · exact ⟨holder, child, below, held, dummy⟩
    · rintro ⟨holder, child, below, held, dummy⟩
      rw [← @mergeDummies_msg state.heap envTree mainTree envDummy] at dummy
      by_cases moved : holder = envTree ∨ holder = mainTree
      · refine ⟨mainTree, child, meeting.mainNotRoot, ?_, dummy⟩
        rw [children, if_neg meeting.apart, if_pos rfl, List.mem_append]
        rcases moved with rfl | rfl
        · exact Or.inr held
        · exact Or.inl held
      · obtain ⟨notEnv, notMain⟩ := not_or.mp moved
        refine ⟨holder, child, below, ?_, dummy⟩
        rw [children, if_neg notEnv, if_neg notMain]
        exact held
  · intro holder child held
    rw [children] at held
    rw [size]
    split_ifs at held with env main
    · cases held
    · rcases List.mem_append.mp held with old | moved
      · exact meeting.inside mainTree child old
      · exact meeting.inside envTree child moved
    · exact meeting.inside holder child held
  · intro tree beyond
    rw [size] at beyond
    rw [children, if_neg (Nat.ne_of_gt (Nat.lt_of_lt_of_le meeting.envInside beyond)),
      if_neg (Nat.ne_of_gt (Nat.lt_of_lt_of_le meeting.mainInside beyond))]
    exact meeting.unallocated tree beyond

def newDummyHeap (heap : Heap) (mainTree : Nat) : Heap :=
  (mailmessageTreeNew heap none (-1) none).1.modify heap.size
    ({ · with baseSubject := ((mailmessageTreeNew heap none (-1) none).1.node mainTree).baseSubject })

theorem newDummyHeap_size (heap : Heap) (mainTree : Nat) : (newDummyHeap heap mainTree).size = heap.size + 1 := rfl

theorem newDummyHeap_node (heap : Heap) {mainTree : Nat} (main : mainTree < heap.size) (tree : Nat) :
    (newDummyHeap heap mainTree).node tree =
      if tree = heap.size then { Node.blank with baseSubject := (heap.node mainTree).baseSubject } else heap.node tree := by
  rw [newDummyHeap, Heap.modify_node, mailmessageTreeNew_node, mailmessageTreeNew_node, mailmessageTreeNew_node, if_pos rfl,
    if_neg (Nat.ne_of_lt main)]
  split_ifs
  · rfl
  · rfl

theorem newDummyHeap_old (heap : Heap) {mainTree tree : Nat} (main : mainTree < heap.size) (old : tree ≠ heap.size) :
    (newDummyHeap heap mainTree).node tree = heap.node tree := by
  rw [newDummyHeap_node heap main, if_neg old]

theorem newDummyHeap_nested {heap : Heap} {mainTree : Nat} (main : mainTree < heap.size)
    (inside : ∀ holder child, child ∈ heap.children holder → child < heap.size)
    (unallocated : ∀ tree, heap.size ≤ tree → heap.children tree = []) :
    NestedDummy (newDummyHeap heap mainTree) ↔ NestedDummy heap := by
  have children : ∀ tree, (newDummyHeap heap mainTree).children tree = heap.children tree := by
    intro tree
    by_cases new : tree = heap.size
    · rw [Heap.children, newDummyHeap_node heap main, if_pos new, new, unallocated heap.size (le_refl _)]
      rfl
    · rw [Heap.children, newDummyHeap_old heap main new]
      rfl
  have msg : ∀ {holder child}, child ∈ heap.children holder → (newDummyHeap heap mainTree).msg child = heap.msg child := by
    intro holder child held
    rw [Heap.msg, newDummyHeap_old heap main (Nat.ne_of_lt (inside holder child held))]
    rfl
  constructor
  · rintro ⟨holder, child, below, held, dummy⟩
    rw [children] at held
    rw [msg held] at dummy
    exact ⟨holder, child, below, held, dummy⟩
  · rintro ⟨holder, child, below, held, dummy⟩
    rw [← msg held] at dummy
    rw [← children] at held
    exact ⟨holder, child, below, held, dummy⟩

theorem wrapThreads_eq (state : MergeState) (cur envTree : Nat) (subject : List UInt8) (mainCur mainTree : Nat) :
    wrapThreads state cur envTree subject mainCur mainTree =
      { heap := nestThread (nestThread (newDummyHeap state.heap mainTree) mainTree state.heap.size) envTree state.heap.size
        rootlist := ((state.rootlist ++ [some state.heap.size]).set mainCur none).set cur none
        subjectHash := (subject, state.rootlist.length) :: state.subjectHash } := rfl

theorem Meeting.joined_wrap (meeting : Meeting state cur envTree subject mainCur mainTree) (isMessage : state.heap.msg mainTree ≠ none)
    (notBelow : ¬ ((state.heap.face envTree).1.reply = true ∧ (state.heap.face mainTree).1.reply = false)) :
    Joined state cur envTree subject mainCur mainTree state.rootlist.length state.heap.size
      (wrapThreads state cur envTree subject mainCur mainTree) := by
  rw [wrapThreads_eq]
  have curInside := (List.getElem?_eq_some_iff.mp meeting.env).1
  have mainInside := (List.getElem?_eq_some_iff.mp meeting.main).1
  have newNotRoot : state.heap.size ≠ root := Nat.ne_of_gt (Nat.lt_of_le_of_lt (Nat.zero_le _) meeting.mainInside)
  have old : ∀ {tree}, tree < state.heap.size → (newDummyHeap state.heap mainTree).node tree = state.heap.node tree := fun inside =>
    newDummyHeap_old state.heap meeting.mainInside (Nat.ne_of_lt inside)
  have started : ∀ holder child, child ∈ (newDummyHeap state.heap mainTree).children holder →
      child < (newDummyHeap state.heap mainTree).size := by
    intro holder child held
    rw [newDummyHeap_size]
    by_cases new : holder = state.heap.size
    · rw [Heap.children, newDummyHeap_node state.heap meeting.mainInside, if_pos new] at held
      cases held
    · rw [Heap.children, newDummyHeap_old state.heap meeting.mainInside new] at held
      exact Nat.lt_succ_of_lt (meeting.inside holder child held)
  have blank : ∀ tree, (newDummyHeap state.heap mainTree).size ≤ tree → (newDummyHeap state.heap mainTree).children tree = [] := by
    intro tree beyond
    rw [newDummyHeap_size] at beyond
    rw [Heap.children, newDummyHeap_old state.heap meeting.mainInside (by omega)]
    exact meeting.unallocated tree (by omega)
  have newInside : state.heap.size < (newDummyHeap state.heap mainTree).size := by
    rw [newDummyHeap_size]
    exact Nat.lt_succ_self _
  refine ⟨.inr ⟨rfl, rfl⟩, Nat.le_succ _, newInside, by simp, fun q => ?_, fun other => ?_, fun tree _ inside => ?_, ?_, ?_, ?_, ?_⟩
  · rw [List.getElem?_set, List.getElem?_set, List.length_set, List.length_append, List.length_singleton]
    by_cases last : q = state.rootlist.length
    · rw [if_pos last, if_neg (by omega), if_neg (by omega), last, List.getElem?_concat_length]
    · rw [if_neg last]
      by_cases here : cur = q
      · rw [if_pos here, if_pos (by omega), if_pos (Or.inl here.symm)]
      · rw [if_neg here]
        by_cases main : mainCur = q
        · rw [if_pos main, if_pos (by omega), if_pos (Or.inr main.symm)]
        · rw [if_neg main, if_neg (by simp [Ne.symm here, Ne.symm main])]
          by_cases inside : q < state.rootlist.length
          · exact List.getElem?_append_left inside
          · rw [List.getElem?_eq_none (by simp; omega), List.getElem?_eq_none (by omega)]
  · rw [List.lookup_cons]
    by_cases same : other = subject
    · rw [if_pos same, same, beq_self_eq_true]
    · rw [if_neg same, beq_eq_false_iff_ne.mpr same]
  · rw [nestThread_face, nestThread_face, Heap.face, Heap.face, Heap.msg, Heap.msg, old inside]
  · have meets : (state.heap.face mainTree).1.meet (state.heap.face envTree).1 = Shape.newDummy := by
      rw [Shape.meet, if_neg, if_neg notBelow]
      rwa [Heap.face_dummy]
    rw [meets, nestThread_face, nestThread_face, Heap.face, Heap.msg, newDummyHeap_node state.heap meeting.mainInside, if_pos rfl,
      ← meeting.shared]
    rfl
  · rw [nestThread_nested newNotRoot, nestThread_nested newNotRoot, nestThread_msg,
      newDummyHeap_nested meeting.mainInside meeting.inside meeting.unallocated, Heap.face_dummy, Heap.msg, Heap.msg,
      old meeting.mainInside, old meeting.envInside, ← Heap.msg, ← Heap.msg]
    have mainMessage : (state.heap.face mainTree).1.dummy = false := by
      rw [Bool.eq_false_iff, ne_eq, Heap.face_dummy]
      exact isMessage
    simp only [isMessage, mainMessage, or_false, true_and]
  · refine nestThread_inside ?_ (nestThread_inside ?_ started)
    · rw [nestThread_size, newDummyHeap_size]
      exact Nat.lt_succ_of_lt meeting.envInside
    · rw [newDummyHeap_size]
      exact Nat.lt_succ_of_lt meeting.mainInside
  · refine nestThread_unallocated ?_ (nestThread_unallocated newInside blank)
    rw [nestThread_size]
    exact newInside

theorem Meeting.joined (meeting : Meeting state cur envTree subject mainCur mainTree)
    (envReply : (state.heap.face envTree).1.dummy = true → (state.heap.face envTree).1.reply = false) :
    ∃ newCur newTree, Joined state cur envTree subject mainCur mainTree newCur newTree (mergeThread state cur envTree subject mainCur) := by
  have mainTree' : ((state.rootlist[mainCur]?).join).getD 0 = mainTree := by
    rw [meeting.main]
    rfl
  rw [mergeThread]
  simp only [mainTree']
  split_ifs with dummies mainDummy below
  · exact ⟨_, _, meeting.joined_dummies dummies.1 dummies.2⟩
  · exact ⟨_, _, meeting.joined_nest (Shape.meet_dummy (Heap.face_dummy.mpr mainDummy) _) fun dummy => dummies ⟨dummy, mainDummy⟩⟩
  · refine ⟨_, _, meeting.joined_nest ?_ fun dummy => ?_⟩
    · rw [Shape.meet, if_neg (by rwa [Heap.face_dummy])]
      exact if_pos below
    · have noReply := envReply (Heap.face_dummy.mpr dummy)
      rw [Heap.face, below.1] at noReply
      cases noReply
  · exact ⟨_, _, meeting.joined_wrap mainDummy below⟩

end Meeting

end Etpan.Thread
