import Etpan.Thread.SubjectRuns

namespace Etpan.Thread

open Etpan.Data Relation

/-! What step (5) leaves at the top. -/

section Result

variable (services : Services) (msgTab : List (Option Mailmessage)) (heap merged : Heap)

/-- The rules of step (5), and what step (6) relies on. -/
structure FollowsRules : Prop where
  once : ∀ subject, subject ≠ [] → (merged.children root).countP (fun tree => (merged.node tree).baseSubject = some subject) ≤ 1
  dummiesAtTop : ∀ holder child, holder ≠ root → child ∈ merged.children holder → merged.msg child ≠ none
  survivor : ∀ subject, (∃ thread ∈ heap.children root, subjectOf services msgTab heap thread = some subject) →
    ∃ tree ∈ merged.children root, (merged.node tree).baseSubject = some subject ∧
      (merged.msg tree = none ∨
        ((∃ thread ∈ heap.children root, subjectOf services msgTab heap thread = some subject ∧ heap.msg thread ≠ none ∧
          replyOf services msgTab heap thread = false) → (merged.node tree).isReply = false))

def NoneNeeded (threads : List Shape) : Prop := (∀ thread ∈ threads, thread.dummy = false) ∧ threads.countP (·.reply = false) = 1

/-- A message stays at the top where no dummy is needed. -/
def KeepsMessage : Prop :=
  ∀ subject, NoneNeeded (threadsOf services msgTab heap (heap.children root) subject) →
    ∃ tree ∈ merged.children root, (merged.node tree).baseSubject = some subject ∧ merged.msg tree ≠ none ∧
      (merged.node tree).isReply = false

variable {services msgTab heap merged}

theorem threadsOf_head {subject : List UInt8} (some' : ∃ thread ∈ heap.children root, subjectOf services msgTab heap thread = some subject) :
    ∃ first others, threadsOf services msgTab heap (heap.children root) subject = first :: others := by
  obtain ⟨thread, listed, hasSubject⟩ := some'
  exact List.exists_cons_of_ne_nil (List.ne_nil_of_mem (threadsOf_mem.mpr ⟨thread, listed, hasSubject, rfl⟩))

section Merged

variable {state : MergeState} (merging : Merging services msgTab heap (heap.children root).length state)

theorem closed_node {tree : Nat} (notRoot : tree ≠ root) (array : List Nat) : (state.heap.setChildren root array).node tree = state.heap.node tree := by
  rw [Heap.setChildren, Heap.modify_node, if_neg notRoot]

theorem listed_rootlist {tree : Nat} (member : tree ∈ state.rootlist.filterMap id) : ∃ q : Nat, state.rootlist[q]? = some (some tree) := by
  obtain ⟨entry, inArray, same⟩ := List.mem_filterMap.mp member
  obtain ⟨q, there⟩ := List.getElem?_of_mem inArray
  exact ⟨q, by rw [there]; exact congrArg some same⟩

include merging

theorem Merging.nodup : (state.rootlist.filterMap id).Nodup := by
  rw [List.Nodup, List.pairwise_filterMap, List.pairwise_iff_getElem]
  intro p q first second before tree isFirst other isSecond same
  subst same
  have firstThere : state.rootlist[p]? = some (some tree) := by rw [List.getElem?_eq_getElem first]; exact congrArg some isFirst
  have secondThere : state.rootlist[q]? = some (some tree) := by rw [List.getElem?_eq_getElem second]; exact congrArg some isSecond
  exact Nat.ne_of_lt before (merging.apart p q tree firstThere secondThere)

theorem Merging.unique {subject : List UInt8} {first second : Nat} (firstListed : first ∈ state.rootlist.filterMap id)
    (secondListed : second ∈ state.rootlist.filterMap id) (firstSubject : (state.heap.node first).baseSubject = some subject)
    (secondSubject : (state.heap.node second).baseSubject = some subject) : first = second := by
  obtain ⟨p, firstThere⟩ := listed_rootlist firstListed
  obtain ⟨q, secondThere⟩ := listed_rootlist secondListed
  have isFirst := (merging.only p first subject (Nat.lt_or_ge _ _) firstThere firstSubject).2
  have isSecond := (merging.only q second subject (Nat.lt_or_ge _ _) secondThere secondSubject).2
  rw [isFirst] at isSecond
  cases isSecond
  rw [firstThere] at secondThere
  cases secondThere
  rfl

theorem Merging.notRoot {tree : Nat} (member : tree ∈ state.rootlist.filterMap id) : tree ≠ root := by
  obtain ⟨q, there⟩ := listed_rootlist member
  exact (merging.live q tree there).1

theorem Merging.left_over {subject : List UInt8} {first : Shape} {others : List Shape}
    (threads : threadsOf services msgTab heap (heap.children root) subject = first :: others) :
    ∃ tree ∈ state.rootlist.filterMap id, state.heap.face tree = (first.top others, some subject) := by
  obtain ⟨p, tree, _, there, _, face⟩ := merging.entry subject first others (by rw [List.take_length]; exact threads)
  exact ⟨tree, List.mem_filterMap.mpr ⟨some tree, List.mem_of_getElem? there, rfl⟩, face⟩

theorem Merging.closed_once (subject : List UInt8) :
    (state.rootlist.filterMap id).countP (fun tree =>
      ((state.heap.setChildren root (state.rootlist.filterMap id)).node tree).baseSubject = some subject) ≤ 1 := by
  rw [List.countP_eq_length_filter]
  have nodup := merging.nodup.filter (p := fun tree =>
    decide (((state.heap.setChildren root (state.rootlist.filterMap id)).node tree).baseSubject = some subject))
  cases same : (state.rootlist.filterMap id).filter fun tree =>
      decide (((state.heap.setChildren root (state.rootlist.filterMap id)).node tree).baseSubject = some subject) with
  | nil => exact Nat.zero_le 1
  | cons first others =>
      cases others with
      | nil => exact le_refl 1
      | cons second others =>
          rw [same] at nodup
          have kept : ∀ tree ∈ first :: second :: others, tree ∈ state.rootlist.filterMap id ∧ (state.heap.node tree).baseSubject = some subject := by
            intro tree member
            rw [← same, List.mem_filter, decide_eq_true_eq] at member
            rw [closed_node (merging.notRoot member.1)] at member
            exact member
          obtain ⟨firstListed, firstSubject⟩ := kept first (by simp)
          obtain ⟨secondListed, secondSubject⟩ := kept second (by simp)
          have equal := merging.unique firstListed secondListed firstSubject secondSubject
          rw [equal] at nodup
          exact absurd (List.mem_cons_self ..) (List.nodup_cons.mp nodup).1

theorem Merging.closed_dummies :
    (∀ holder child, holder ≠ root → child ∈ (state.heap.setChildren root (state.rootlist.filterMap id)).children holder →
      (state.heap.setChildren root (state.rootlist.filterMap id)).msg child ≠ none) ↔
    ∀ subject, ¬ DummyMeets (threadsOf services msgTab heap (heap.children root) subject) := by
  have nested := merging.nested
  rw [List.take_length] at nested
  constructor
  · intro atTop subject meets
    obtain ⟨first, others, threads⟩ : ∃ first others, threadsOf services msgTab heap (heap.children root) subject = first :: others := by
      obtain ⟨first, between, dummy, rest, same, _⟩ := meets
      exact ⟨first, _, same⟩
    rw [threads, dummyMeets_iff] at meets
    obtain ⟨holder, child, below, held, dummy⟩ := nested.mpr ⟨subject, first, others, threads, meets⟩
    refine atTop holder child below ?_ ?_
    · rw [Heap.setChildren_children, if_neg below]
      exact held
    · rw [Heap.setChildren_msg]
      exact dummy
  · intro never holder child below held dummy
    rw [Heap.setChildren_children, if_neg below] at held
    rw [Heap.setChildren_msg] at dummy
    obtain ⟨subject, first, others, threads, nests⟩ := nested.mp ⟨holder, child, below, held, dummy⟩
    refine never subject ?_
    rw [threads, dummyMeets_iff]
    exact nests

theorem Merging.followsRules :
    FollowsRules services msgTab heap (state.heap.setChildren root (state.rootlist.filterMap id)) ↔
      ∀ subject, ¬ DummyMeets (threadsOf services msgTab heap (heap.children root) subject) := by
  rw [← merging.closed_dummies]
  have top : (state.heap.setChildren root (state.rootlist.filterMap id)).children root = state.rootlist.filterMap id := by
    rw [Heap.setChildren_children, if_pos rfl]
  constructor
  · exact FollowsRules.dummiesAtTop
  · refine fun atTop => ⟨fun subject _ => ?_, atTop, fun subject some' => ?_⟩
    · rw [top]
      exact merging.closed_once subject
    · obtain ⟨first, others, threads⟩ := threadsOf_head some'
      obtain ⟨tree, member, face⟩ := merging.left_over threads
      have notRoot := merging.notRoot member
      rw [top]
      refine ⟨tree, member, ?_, ?_⟩
      · rw [closed_node notRoot]
        exact congrArg Prod.snd face
      · rw [Heap.setChildren_msg, closed_node notRoot]
        have shape : (state.heap.face tree).1 = first.top others := congrArg Prod.fst face
        by_cases dummy : state.heap.msg tree = none
        · exact Or.inl dummy
        · refine Or.inr ?_
          rintro ⟨thread, listed, hasSubject, isMessage, noReply⟩
          -- a message at the top is the first thread, and the others are replies to it
          have topMessage : (first.top others).dummy = false := by
            rw [← shape, Bool.eq_false_iff, ne_eq, Heap.face_dummy]
            exact dummy
          have replies := (Shape.top_message.mp topMessage).2
          have member : shapeOf services msgTab heap thread ∈ first :: others := by
            rw [← threads]
            exact threadsOf_mem.mpr ⟨thread, listed, hasSubject, rfl⟩
          have firstReply : first.reply = false := by
            rcases List.mem_cons.mp member with same | later
            · rw [← same]
              exact noReply
            · exact (replies _ later).2
          have same : (state.heap.face tree).1.reply = first.reply := by rw [shape, Shape.top_eq_first topMessage]
          exact same.trans firstReply

theorem Merging.keepsMessage :
    KeepsMessage services msgTab heap (state.heap.setChildren root (state.rootlist.filterMap id)) ↔
      ∀ subject first others, threadsOf services msgTab heap (heap.children root) subject = first :: others →
        NoneNeeded (first :: others) → first.reply = false := by
  have top : (state.heap.setChildren root (state.rootlist.filterMap id)).children root = state.rootlist.filterMap id := by
    rw [Heap.setChildren_children, if_pos rfl]
  constructor
  · intro keeps subject first others threads noneNeeded
    obtain ⟨tree, member, hasSubject, isMessage, noReply⟩ := keeps subject (by rwa [threads])
    rw [top] at member
    rw [closed_node (merging.notRoot member)] at hasSubject noReply
    rw [Heap.setChildren_msg] at isMessage
    obtain ⟨other, otherMember, face⟩ := merging.left_over threads
    have same := merging.unique member otherMember hasSubject (congrArg Prod.snd face)
    subst same
    have shape : (state.heap.face tree).1 = first.top others := congrArg Prod.fst face
    have topMessage : (first.top others).dummy = false := by
      rw [← shape, Bool.eq_false_iff, ne_eq, Heap.face_dummy]
      exact isMessage
    rw [← Shape.top_eq_first topMessage, ← shape]
    exact noReply
  · intro begins subject noneNeeded
    obtain ⟨first, others, threads⟩ : ∃ first others, threadsOf services msgTab heap (heap.children root) subject = first :: others := by
      refine List.exists_cons_of_ne_nil fun none' => ?_
      rw [none'] at noneNeeded
      cases noneNeeded.2
    rw [threads] at noneNeeded
    have firstMessage := begins subject first others threads noneNeeded
    have topMessage : (first.top others).dummy = false := by
      refine Shape.top_message.mpr ⟨noneNeeded.1 first (by simp), fun thread member => ⟨?_, firstMessage⟩⟩
      have count := noneNeeded.2
      rw [List.countP_cons, if_pos (by simpa using firstMessage)] at count
      have none' := List.countP_eq_zero.mp (show others.countP (·.reply = false) = 0 by omega) thread member
      simpa using none'
    obtain ⟨tree, member, face⟩ := merging.left_over threads
    have shape : (state.heap.face tree).1 = first.top others := congrArg Prod.fst face
    refine ⟨tree, by rwa [top], ?_, ?_, ?_⟩
    · rw [closed_node (merging.notRoot member)]
      exact congrArg Prod.snd face
    · rw [Heap.setChildren_msg, ne_eq, ← Heap.face_dummy, shape, topMessage]
      exact Bool.false_ne_true
    · rw [closed_node (merging.notRoot member)]
      have same : (state.heap.face tree).1.reply = first.reply := by rw [shape, Shape.top_eq_first topMessage]
      exact same.trans firstMessage

end Merged

theorem mergeSubjects_run (services : Services) (ready : Ready msgTab heap) :
    ∃ state, mergeSubjects services msgTab heap = some (state.heap.setChildren root (state.rootlist.filterMap id)) ∧
      Merging services msgTab heap (heap.children root).length state := by
  obtain ⟨state, result, merging⟩ := Merging.run ready (heap.children root).length 0 _ (4 * (heap.children root).length + 1)
    (Nat.zero_add _) (Merging.start ready) (by omega)
  refine ⟨state, ?_, merging⟩
  rw [mergeSubjects, List.length_map, result, Option.map_some]

def plainServices : Services where
  extractSubject subject := (subject.dropWhile (· = 82), subject.head? = some 82)
  mailimfGetMessageId size := [UInt8.ofNat size]
  qsort _ array := array
  qsort_perm _ array := .refl array
  compFunc := none

def mailAbout (index : Nat) (messageId : UInt8) (references : Option (List (List UInt8))) (subject : List UInt8) : Option Mailmessage :=
  some { hasFields := true, msgIndex := index, messageId := some [messageId], references, inReplyTo := none, subject := some subject, origDate := none }

def replyHeap : Heap where
  node
    | 0 => { Node.blank with children := [1, 2] }
    | 1 => { Node.blank with msg := some 0, parent := some 0 }
    | 2 => { Node.blank with msg := some 1, parent := some 0 }
    | _ => .blank
  size := 3

end Result

end Etpan.Thread
