import Etpan.Thread.OrderedSubject

namespace Etpan.Thread

open Etpan.Data

/-! The forest that ORDEREDSUBJECT threading makes. -/

def LinkedThread (heap : Heap) : List Nat → Prop
  | [] => True
  | [last] => heap.children last = []
  | tree :: child :: rest => heap.children tree = [child] ∧ heap.parent child = some tree ∧ LinkedThread heap (child :: rest)

structure ThreadChain (heap : Heap) (thread : List Nat) : Prop where
  nonempty : thread ≠ []
  linked : LinkedThread heap thread
  top : ∀ tree, thread.head? = some tree → heap.parent tree = some root

structure ThreadForest (heap : Heap) (threads : List (List Nat)) : Prop where
  tops : (heap.children root).Perm (threads.filterMap List.head?)
  thread : ∀ thread ∈ threads, ThreadChain heap thread
  nodup : (root :: threads.flatten).Nodup

theorem LinkedThread.congr {heap other : Heap} {thread : List Nat} (linked : LinkedThread heap thread)
    (children : ∀ tree ∈ thread, other.children tree = heap.children tree)
    (parent : ∀ tree ∈ thread, other.parent tree = heap.parent tree) : LinkedThread other thread := by
  fun_induction LinkedThread heap thread with
  | case1 => trivial
  | case2 last => exact (children last (by simp)).trans linked
  | case3 tree child rest ih =>
      obtain ⟨only, above, others⟩ := linked
      exact ⟨(children tree (by simp)).trans only, (parent child (by simp)).trans above,
        ih others (fun tree member => children tree (by simp [member])) fun tree member => parent tree (by simp [member])⟩

theorem LinkedThread.concat {heap other : Heap} {before : List Nat} {last next : Nat} (linked : LinkedThread heap (before ++ [last]))
    (children : ∀ tree ∈ before, other.children tree = heap.children tree) (only : other.children last = [next])
    (parent : ∀ tree ∈ before ++ [last], other.parent tree = heap.parent tree) (above : other.parent next = some last)
    (alone : other.children next = []) : LinkedThread other (before ++ [last] ++ [next]) := by
  induction before with
  | nil => exact ⟨only, above, alone⟩
  | cons tree before ih =>
      have first := children tree (by simp)
      cases before with
      | nil =>
          obtain ⟨child, parentChild, _⟩ := linked
          exact ⟨first.trans child, (parent last (by simp)).trans parentChild, only, above, alone⟩
      | cons second rest =>
          obtain ⟨child, parentChild, others⟩ := linked
          exact ⟨first.trans child, (parent second (by simp)).trans parentChild,
            ih others (fun tree member => children tree (List.mem_cons_of_mem _ member))
              fun tree member => parent tree (List.mem_cons_of_mem _ member)⟩

theorem carrayDelete_lastFirst (before : List Nat) (tree : Nat) (after : List Nat) :
    carrayDelete (before ++ tree :: after) before.length = before ++ lastFirst after := by
  rcases List.eq_nil_or_concat after with rfl | ⟨middle, last, rfl⟩
  · simp [carrayDelete, lastFirst]
  · have joined : before ++ tree :: middle.concat last = (before ++ tree :: middle) ++ [last] := by simp
    have set : ((before ++ tree :: middle) ++ [last]).set before.length last = (before ++ last :: middle) ++ [last] := by simp
    rw [carrayDelete, joined, List.getLast?_concat, Option.getD_some, set, List.dropLast_concat, List.concat_eq_append,
      lastFirst_concat]

/-- The state of the loop: threads that are done, the current one and the nodes that are left. -/
structure Splitting (heap : Heap) (done : List (List Nat)) (before : List Nat) (last : Nat) (rest : List Nat) : Prop where
  array : heap.children root = (done ++ [before ++ [last]]).filterMap List.head? ++ rest
  thread : ∀ thread ∈ done ++ [before ++ [last]], ThreadChain heap thread
  alone : ∀ tree ∈ rest, heap.children tree = [] ∧ heap.parent tree = some root
  nodup : (root :: ((done ++ [before ++ [last]]).flatten ++ rest)).Nodup

theorem head?_length {threads : List (List Nat)} (nonempty : ∀ thread ∈ threads, thread ≠ []) :
    (threads.filterMap List.head?).length = threads.length := by
  induction threads with
  | nil => rfl
  | cons thread threads ih =>
      obtain ⟨first, rest, rfl⟩ := List.exists_cons_of_ne_nil (nonempty thread (by simp))
      simp [ih fun other member => nonempty other (by simp [member])]

variable {heap : Heap} {done : List (List Nat)} {before rest : List Nat} {last next : Nat}

theorem Splitting.cur (splitting : Splitting heap done before last rest) :
    ((done ++ [before ++ [last]]).filterMap List.head?).length = done.length + 1 := by
  rw [head?_length fun thread member => (splitting.thread thread member).nonempty]
  simp

def linkNext (heap : Heap) (last next : Nat) (array : List Nat) : Heap :=
  ((heap.setParent next (some last)).addChild last next).setChildren root array

theorem linkNext_data (array : List Nat) (tree : Nat) : (linkNext heap last next array).data tree = heap.data tree := by
  simp [linkNext]

theorem Splitting.link (splitting : Splitting heap done before last (next :: rest)) :
    Splitting (linkNext heap last next (carrayDelete (heap.children root) (done.length + 1))) done (before ++ [last]) next
      (lastFirst rest) := by
  have array := splitting.array
  have length := splitting.cur
  have nodup := splitting.nodup
  have perm : ((done ++ [before ++ [last] ++ [next]]).flatten ++ lastFirst rest).Perm
      ((done ++ [before ++ [last]]).flatten ++ next :: rest) := by
    simp only [List.flatten_append, List.flatten_singleton, List.append_assoc, List.singleton_append]
    exact ((((lastFirst_perm rest).cons next).cons last).append_left before).append_left done.flatten
  have distinct : ∀ thread ∈ done, last ∉ thread ∧ next ∉ thread := by
    intro thread member
    have flat := List.nodup_cons.mp nodup |>.2
    rw [List.flatten_append, List.append_assoc, List.nodup_append] at flat
    have inDone : ∀ tree ∈ thread, tree ∈ done.flatten := fun tree inThread => List.mem_flatten.mpr ⟨thread, member, inThread⟩
    exact ⟨fun here => flat.2.2 last (inDone last here) last (by simp) rfl,
      fun here => flat.2.2 next (inDone next here) next (by simp) rfl⟩
  have others : last ≠ root ∧ next ≠ root ∧ next ≠ last ∧ next ∉ before ∧ last ∉ before ∧ next ∉ rest ∧ last ∉ rest := by
    have first : ((done ++ [before ++ [last]]).flatten ++ next :: rest).Perm (last :: next :: (before ++ (rest ++ done.flatten))) := by
      refine List.perm_iff_count.mpr fun tree => ?_
      simp only [List.flatten_append, List.flatten_singleton, List.count_append, List.count_cons, List.count_nil]
      omega
    have order := ((first.cons root).nodup_iff).mp nodup
    simp only [List.nodup_cons, List.mem_cons, List.mem_append, not_or] at order
    obtain ⟨⟨rootLast, rootNext, _⟩, ⟨lastNext, lastBefore, lastRest, _⟩, ⟨nextBefore, nextRest, _⟩, _⟩ := order
    exact ⟨Ne.symm rootLast, Ne.symm rootNext, Ne.symm lastNext, nextBefore, lastBefore, nextRest, lastRest⟩
  obtain ⟨lastRoot, nextRoot, nextLast, nextBefore, lastBefore, nextRest, lastRest⟩ := others
  have children : ∀ tree, tree ≠ root → tree ≠ last →
      (linkNext heap last next (carrayDelete (heap.children root) (done.length + 1))).children tree = heap.children tree := by
    intro tree notRoot notLast
    simp [linkNext, notRoot, notLast]
  have parent : ∀ tree, tree ≠ next →
      (linkNext heap last next (carrayDelete (heap.children root) (done.length + 1))).parent tree = heap.parent tree := by
    intro tree notNext
    simp [linkNext, notNext]
  have current := splitting.thread (before ++ [last]) (by simp)
  have lastAlone : heap.children last = [] := by
    have linked := current.linked
    clear * - linked
    induction before with
    | nil => exact linked
    | cons tree before ih =>
        cases before with
        | nil => exact linked.2.2
        | cons second rest => exact ih linked.2.2
  have notRoot : ∀ tree ∈ (done ++ [before ++ [last]]).flatten, tree ≠ root := by
    intro tree member isRoot
    exact (List.nodup_cons.mp nodup).1 (List.mem_append_left _ (isRoot ▸ member))
  refine ⟨?_, ?_, ?_, ?_⟩
  · have deleted : carrayDelete (heap.children root) (done.length + 1) =
        (done ++ [before ++ [last]]).filterMap List.head? ++ lastFirst rest := by
      rw [array, ← length, carrayDelete_lastFirst]
    have head : (before ++ [last] ++ [next]).head? = (before ++ [last]).head? := by cases before <;> rfl
    simp only [linkNext, Heap.setChildren_children, if_true, deleted, List.filterMap_append, List.filterMap_cons, head,
      List.filterMap_nil]
  · intro thread member
    rcases List.mem_append.mp member with early | current'
    · have old := splitting.thread thread (List.mem_append_left _ early)
      have same : ∀ tree ∈ thread, tree ≠ root ∧ tree ≠ last ∧ tree ≠ next := fun tree inThread =>
        ⟨notRoot tree (List.mem_flatten.mpr ⟨thread, List.mem_append_left _ early, inThread⟩),
          fun isLast => (distinct thread early).1 (isLast ▸ inThread), fun isNext => (distinct thread early).2 (isNext ▸ inThread)⟩
      refine ⟨old.nonempty, old.linked.congr (fun tree inThread => children tree (same tree inThread).1 (same tree inThread).2.1)
        fun tree inThread => parent tree (same tree inThread).2.2, fun tree isTop => ?_⟩
      rw [parent tree (same tree (List.mem_of_mem_head? isTop)).2.2]
      exact old.top tree isTop
    · rw [List.mem_singleton.mp current']
      have inCurrent : ∀ tree ∈ before, tree ≠ root ∧ tree ≠ last := fun tree inBefore =>
        ⟨notRoot tree (by simp [inBefore]), fun isLast => lastBefore (isLast ▸ inBefore)⟩
      have notNext : ∀ tree ∈ before ++ [last], tree ≠ next := by
        intro tree inThread isNext
        rcases List.mem_append.mp inThread with inBefore | isLast
        · exact nextBefore (isNext ▸ inBefore)
        · exact nextLast (isNext ▸ List.mem_singleton.mp isLast)
      refine ⟨by simp, current.linked.concat (fun tree inBefore => children tree (inCurrent tree inBefore).1 (inCurrent tree inBefore).2)
        ?_ (fun tree inThread => parent tree (notNext tree inThread)) ?_ ?_, fun tree isTop => ?_⟩
      · simp [linkNext, lastRoot, lastAlone]
      · simp [linkNext]
      · rw [children next nextRoot nextLast]
        exact (splitting.alone next (by simp)).1
      · have isTopBefore : (before ++ [last]).head? = some tree := by
          cases before <;> exact isTop
        rw [parent tree (notNext tree (List.mem_of_mem_head? isTopBefore))]
        exact current.top tree isTopBefore
  · intro tree member
    have inRest := (lastFirst_perm rest).subset member
    have old := splitting.alone tree (List.mem_cons_of_mem _ inRest)
    have notLast : tree ≠ last := fun isLast => lastRest (isLast ▸ inRest)
    have notNext : tree ≠ next := fun isNext => nextRest (isNext ▸ inRest)
    have rootFree : tree ≠ root := fun isRoot =>
      (List.nodup_cons.mp nodup).1 (List.mem_append_right _ (List.mem_cons_of_mem _ (isRoot ▸ inRest)))
    exact ⟨(children tree rootFree notLast).trans old.1, (parent tree notNext).trans old.2⟩
  · exact (perm.cons root).nodup_iff.mpr nodup

theorem Splitting.start (splitting : Splitting heap done before last (next :: rest)) :
    Splitting heap (done ++ [before ++ [last]]) [] next rest where
  array := by
    rw [splitting.array, List.nil_append, @List.filterMap_append _ _ _ [[next]]]
    simp
  thread thread member := by
    rcases List.mem_append.mp member with early | current
    · exact splitting.thread thread early
    · rw [List.mem_singleton.mp current]
      have alone := splitting.alone next (by simp)
      exact ⟨by simp, alone.1, fun tree isTop => Option.some.inj isTop ▸ alone.2⟩
  alone tree member := splitting.alone tree (List.mem_cons_of_mem _ member)
  nodup := by
    have same : (done ++ [before ++ [last]] ++ [[] ++ [next]]).flatten ++ rest =
        (done ++ [before ++ [last]]).flatten ++ next :: rest := by simp
    rw [same]
    exact splitting.nodup

theorem sameSubject_data {other : Heap} (data : ∀ tree, other.data tree = heap.data tree) :
    sameSubject other = sameSubject heap := by
  funext a b
  exact sameSubject_of_data (data a) (data b)

theorem Splitting.forest (splitting : Splitting heap done before last []) :
    ThreadForest heap (done ++ [before ++ [last]]) where
  tops := by rw [splitting.array, List.append_nil]
  thread := splitting.thread
  nodup := by simpa using splitting.nodup

theorem splitThreads_regroup :
    ∀ (steps : Nat) (heap : Heap) (done : List (List Nat)) (before : List Nat) (last : Nat) (rest : List Nat),
      Splitting heap done before last rest → rest.length < steps →
        ∃ result, splitThreads steps heap (some last) (done.length + 1) = some result ∧
          ThreadForest result (done ++ regroup (sameSubject heap) before last rest) ∧
            ∀ tree, result.data tree = heap.data tree := by
  intro steps
  induction steps with
  | zero => intro heap done before last rest _ enough; omega
  | succ steps ih =>
      intro heap done before last rest splitting enough
      have array := splitting.array
      have length := splitting.cur
      cases rest with
      | nil =>
          have ended : (heap.children root)[done.length + 1]? = none := by
            rw [array, ← length, List.append_nil]
            exact List.getElem?_eq_none (le_refl _)
          exact ⟨heap, by rw [splitThreads, ended], by rw [regroup]; exact splitting.forest, fun _ => rfl⟩
      | cons next rest =>
          have here : (heap.children root)[done.length + 1]? = some next := by
            rw [array, ← length, List.getElem?_append_right (le_refl _), Nat.sub_self]
            rfl
          simp only [List.length_cons] at enough
          by_cases equal : sameSubject heap next last = true
          · have data := @linkNext_data heap last next (carrayDelete (heap.children root) (done.length + 1))
            obtain ⟨result, ended, forest, kept⟩ := ih _ done (before ++ [last]) next (lastFirst rest) splitting.link
              (by rw [lastFirst_length]; omega)
            rw [sameSubject_data data] at forest
            refine ⟨result, ?_, ?_, fun tree => (kept tree).trans (data tree)⟩
            · rw [splitThreads, here]
              simp only [equal, if_true]
              have root_array : ((heap.setParent next (some last)).addChild last next).children root = heap.children root := by
                have lastRoot : root ≠ last := by
                  intro isRoot
                  have outside := (List.nodup_cons.mp splitting.nodup).1
                  exact outside (by simp [isRoot])
                simp [lastRoot]
              rw [root_array]
              exact ended
            · rw [regroup_equal (sameSubject_symm last next ▸ equal)]
              exact forest
          · obtain ⟨result, ended, forest, kept⟩ := ih heap (done ++ [before ++ [last]]) [] next rest splitting.start (by omega)
            refine ⟨result, ?_, ?_, kept⟩
            · rw [splitThreads, here]
              simp only [equal]
              rw [List.length_append, List.length_singleton] at ended
              exact ended
            · rw [regroup, if_neg (sameSubject_symm last next ▸ equal)]
              simpa using forest

def withFields (msgTab : List (Option Mailmessage)) : List Nat :=
  (List.range msgTab.length).filter fun msg => ((message msgTab msg).map Mailmessage.hasFields).getD false

def threadSubject (services : Services) (msgTab : List (Option Mailmessage)) (msg : Nat) : Option (List UInt8) :=
  (message msgTab msg).bind fun mail => mail.subject.map fun subject => (services.extractSubject subject).1

variable {services : Services} {msgTab : List (Option Mailmessage)}

/-- The nodes of some messages, all below the root, in the order of the messages. -/
structure Collected (services : Services) (msgTab : List (Option Mailmessage)) (heap : Heap) (messages : List Nat) : Prop where
  size : 0 < heap.size
  array : heap.children root = List.range' 1 (heap.size - 1)
  messages : (heap.children root).map heap.msg = messages.map some
  alone : ∀ tree ∈ heap.children root, heap.children tree = [] ∧ heap.parent tree = some root
  subject : ∀ tree ∈ heap.children root, ∀ msg, heap.msg tree = some msg →
    (heap.node tree).baseSubject = threadSubject services msgTab msg

theorem getExtractedSubject_node (mail : Mailmessage) (envTree tree : Nat) :
    (getExtractedSubject services heap mail envTree).size = heap.size ∧
      (getExtractedSubject services heap mail envTree).children tree = heap.children tree ∧
      (getExtractedSubject services heap mail envTree).parent tree = heap.parent tree ∧
      (getExtractedSubject services heap mail envTree).msg tree = heap.msg tree := by
  rw [getExtractedSubject]
  split
  · exact ⟨rfl, rfl, rfl, rfl⟩
  · rw [Heap.children, Heap.parent, Heap.msg, Heap.modify_node]
    split
    · next here =>
        subst here
        exact ⟨rfl, rfl, rfl, rfl⟩
    · exact ⟨rfl, rfl, rfl, rfl⟩

theorem getExtractedSubject_subject (mail : Mailmessage) (envTree tree : Nat) :
    ((getExtractedSubject services heap mail envTree).node tree).baseSubject =
      if tree = envTree then
        match mail.subject with
        | none => (heap.node tree).baseSubject
        | some subject => some (services.extractSubject subject).1
      else (heap.node tree).baseSubject := by
  rw [getExtractedSubject]
  cases mail.subject with
  | none => simp
  | some subject =>
      rw [Heap.modify_node]
      split
      · rfl
      · rfl

theorem baseSubject_of_data {other : Heap} {tree : Nat} (same : heap.data tree = other.data tree) :
    (heap.node tree).baseSubject = (other.node tree).baseSubject :=
  (fields_of_data same).2.2

theorem Collected.addThread {messages : List Nat} (collected : Collected services msgTab heap messages) (msg : Nat) :
    Collected services msgTab (addThread services msgTab heap msg)
      (messages ++ if ((message msgTab msg).map Mailmessage.hasFields).getD false = true then [msg] else []) := by
  rw [Thread.addThread]
  cases found : message msgTab msg with
  | none => simpa using collected
  | some mail =>
      by_cases fields : mail.hasFields = true
      · simp only [fields, if_true, Option.map_some, Option.getD_some]
        obtain ⟨positive, array, msgs, alone, subject⟩ := collected
        let added := ((mailmessageTreeNew heap none (getDate mail) (some msg)).1.setParent heap.size (some root)).addChild root heap.size
        have here := fun tree => @getExtractedSubject_node added services mail heap.size tree
        have rootOld : root ≠ heap.size := (Nat.pos_iff_ne_zero.mp positive).symm
        have older : ∀ tree ∈ heap.children root, tree ≠ root ∧ tree ≠ heap.size := by
          intro tree member
          rw [array, List.mem_range'_1] at member
          exact ⟨by rw [root]; omega, by omega⟩
        have children : ∀ tree, (getExtractedSubject services added mail heap.size).children tree =
            if tree = root then heap.children root ++ [heap.size] else if tree = heap.size then [] else heap.children tree := by
          intro tree
          rw [(here tree).2.1]
          simp [added, rootOld]
        have parent : ∀ tree, (getExtractedSubject services added mail heap.size).parent tree =
            if tree = heap.size then some root else heap.parent tree := by
          intro tree
          rw [(here tree).2.2.1]
          by_cases new : tree = heap.size <;> simp [added, new]
        have message : ∀ tree, (getExtractedSubject services added mail heap.size).msg tree =
            if tree = heap.size then some msg else heap.msg tree := by
          intro tree
          rw [(here tree).2.2.2]
          simp [added]
        have size : (getExtractedSubject services added mail heap.size).size = heap.size + 1 := (here root).1
        have tops : (getExtractedSubject services added mail heap.size).children root = heap.children root ++ [heap.size] := by
          rw [children, if_pos rfl]
        change Collected services msgTab (getExtractedSubject services added mail heap.size) (messages ++ [msg])
        refine ⟨by rw [size]; omega, ?_, ?_, ?_, ?_⟩
        · rw [tops, array, size]
          have grown : heap.size + 1 - 1 = heap.size - 1 + 1 := by omega
          rw [grown, List.range'_1_concat]
          congr 2
          omega
        · rw [tops, List.map_append, List.map_append, ← msgs]
          congr 1
          · refine List.map_congr_left fun tree member => ?_
            rw [message, if_neg (older tree member).2]
          · rw [List.map_singleton, message, if_pos rfl, List.map_singleton]
        · rw [tops]
          intro tree member
          rw [children, parent]
          rcases List.mem_append.mp member with old | new
          · rw [if_neg (older tree old).1, if_neg (older tree old).2, if_neg (older tree old).2]
            exact alone tree old
          · rw [List.mem_singleton.mp new, if_neg rootOld.symm, if_pos rfl, if_pos rfl]
            exact ⟨rfl, rfl⟩
        · rw [tops]
          intro tree member other isMessage
          have newSubject : (added.node heap.size).baseSubject = none := by
            have data : added.data heap.size = (mailmessageTreeNew heap none (getDate mail) (some msg)).1.data heap.size := by
              simp [added]
            rw [baseSubject_of_data data, mailmessageTreeNew_node, if_pos rfl]
            rfl
          rw [getExtractedSubject_subject]
          rw [message] at isMessage
          rcases List.mem_append.mp member with old | new
          · rw [if_neg (older tree old).2] at isMessage ⊢
            have data : added.data tree = (mailmessageTreeNew heap none (getDate mail) (some msg)).1.data tree := by simp [added]
            rw [baseSubject_of_data data, mailmessageTreeNew_node, if_neg (older tree old).2]
            exact subject tree old other isMessage
          · rw [List.mem_singleton.mp new, if_pos rfl] at isMessage ⊢
            cases isMessage
            rw [threadSubject, found]
            cases text : mail.subject with
            | none => simp only [newSubject, Option.bind_some, text, Option.map_none]
            | some value => simp only [Option.bind_some, text, Option.map_some]
      · simp only [fields, Option.map_some, Option.getD_some]
        simpa using collected

theorem collected_collectThreads : Collected services msgTab (collectThreads services msgTab) (withFields msgTab) := by
  have start : Collected services msgTab (mailmessageTreeNew Heap.empty none (-1) none).1 [] := by
    refine ⟨by decide, rfl, rfl, ?_, ?_⟩ <;> intro tree member <;> cases member
  have run : ∀ (messages seen : List Nat) (heap : Heap), Collected services msgTab heap seen →
      Collected services msgTab (messages.foldl (addThread services msgTab) heap)
        (seen ++ messages.filter fun msg => ((message msgTab msg).map Mailmessage.hasFields).getD false) := by
    intro messages
    induction messages with
    | nil =>
        intro seen heap collected
        simpa using collected
    | cons msg rest ih =>
        intro seen heap collected
        have added := ih _ _ (collected.addThread msg)
        rw [List.append_assoc] at added
        have filtered : ((if ((message msgTab msg).map Mailmessage.hasFields).getD false = true then [msg] else []) ++
            rest.filter fun msg => ((message msgTab msg).map Mailmessage.hasFields).getD false) =
              (msg :: rest).filter fun msg => ((message msgTab msg).map Mailmessage.hasFields).getD false := by
          rw [List.filter_cons]
          split <;> rfl
        rw [filtered] at added
        exact added
  exact run (List.range msgTab.length) [] _ start

def sortedThreads (services : Services) (msgTab : List (Option Mailmessage)) : List Nat :=
  services.qsort (treeSubjTimeComp msgTab (collectThreads services msgTab)) ((collectThreads services msgTab).children root)

theorem mailThreadSort_flat (compare : Heap → Nat → Nat → Int) (depth tree : Nat) :
    mailThreadSort services compare false (depth + 1) heap tree =
      some (heap.setChildren tree (services.qsort (compare heap) (heap.children tree))) := rfl

theorem LinkedThread.alone {thread : List Nat} (nonempty : thread ≠ []) (linked : LinkedThread heap thread) :
    ∃ tree, thread.head? = some tree ∧ heap.children tree = thread.tail.take 1 := by
  cases thread with
  | nil => exact absurd rfl nonempty
  | cons tree rest =>
      refine ⟨tree, rfl, ?_⟩
      cases rest with
      | nil => exact linked
      | cons child others => exact linked.1

theorem LinkedThread.unique {thread another : List Nat} (linked : LinkedThread heap thread) (anotherLinked : LinkedThread heap another)
    (nonempty : thread ≠ []) (sameTop : thread.head? = another.head?) : thread = another := by
  induction thread generalizing another with
  | nil => exact absurd rfl nonempty
  | cons tree rest ih =>
      cases another with
      | nil => cases sameTop
      | cons other others =>
          cases sameTop
          cases rest with
          | nil =>
              cases others with
              | nil => rfl
              | cons child more =>
                  have childless : heap.children tree = [] := linked
                  rw [anotherLinked.1] at childless
                  cases childless
          | cons child more =>
              cases others with
              | nil =>
                  have childless : heap.children tree = [] := anotherLinked
                  rw [linked.1] at childless
                  cases childless
              | cons second further =>
                  have one : [child] = [second] := linked.1.symm.trans anotherLinked.1
                  cases one
                  rw [ih linked.2.2 anotherLinked.2.2 (by simp) rfl]

theorem ThreadForest.subset {threads others : List (List Nat)} (forest : ThreadForest heap threads)
    (another : ThreadForest heap others) : ∀ thread ∈ threads, thread ∈ others := by
  intro thread member
  have chain := forest.thread thread member
  obtain ⟨tree, top, _⟩ := chain.linked.alone chain.nonempty
  have isTop : tree ∈ heap.children root := forest.tops.symm.subset (List.mem_filterMap.mpr ⟨thread, member, top⟩)
  obtain ⟨other, otherMember, otherTop⟩ := List.mem_filterMap.mp (another.tops.subset isTop)
  have otherChain := another.thread other otherMember
  rw [chain.linked.unique otherChain.linked chain.nonempty (top.trans otherTop.symm)]
  exact otherMember

theorem ThreadForest.sorted {threads : List (List Nat)} (forest : ThreadForest heap threads) {array : List Nat}
    (perm : array.Perm (heap.children root)) : ThreadForest (heap.setChildren root array) threads where
  tops := by
    rw [Heap.setChildren_children, if_pos rfl]
    exact perm.trans forest.tops
  thread thread member := by
    have chain := forest.thread thread member
    have notRoot : ∀ tree ∈ thread, tree ≠ root := fun tree inThread isRoot =>
      (List.nodup_cons.mp forest.nodup).1 (List.mem_flatten.mpr ⟨thread, member, isRoot ▸ inThread⟩)
    exact ⟨chain.nonempty, chain.linked.congr (fun tree inThread => by simp [notRoot tree inThread]) fun tree _ => by simp,
      fun tree isTop => by simpa using chain.top tree isTop⟩
  nodup := forest.nodup

theorem orderedsubject_result (services : Services) (msgTab : List (Option Mailmessage)) :
    ∃ result, mailBuildThreadOrderedsubject services msgTab = some result ∧
      ThreadForest result (scanThreads (sameSubject (collectThreads services msgTab)) (sortedThreads services msgTab)) ∧
        ∀ tree, result.data tree = (collectThreads services msgTab).data tree := by
  have collected := @collected_collectThreads services msgTab
  let sorted := (collectThreads services msgTab).setChildren root (sortedThreads services msgTab)
  have perm : (sortedThreads services msgTab).Perm ((collectThreads services msgTab).children root) :=
    services.qsort_perm _ _
  have array : sorted.children root = sortedThreads services msgTab := by simp [sorted]
  have data : ∀ tree, sorted.data tree = (collectThreads services msgTab).data tree := fun tree => by simp [sorted]
  have split : ∃ split, splitThreads ((sorted.children root).length + 1) sorted none 0 = some split ∧
      ThreadForest split (scanThreads (sameSubject (collectThreads services msgTab)) (sortedThreads services msgTab)) ∧
        ∀ tree, split.data tree = sorted.data tree := by
    rw [array]
    cases order : sortedThreads services msgTab with
    | nil =>
        have empty : (sorted.children root)[0]? = none := by rw [array, order]; rfl
        refine ⟨sorted, by rw [splitThreads, empty], ⟨?_, ?_, ?_⟩, fun _ => rfl⟩
        · rw [array, order]
          rfl
        · intro thread member
          simp [scanThreads] at member
        · simp [scanThreads]
    | cons first rest =>
        have here : (sorted.children root)[0]? = some first := by rw [array, order]; rfl
        have old : ∀ tree ∈ first :: rest, tree ≠ root ∧ sorted.children tree = [] ∧ sorted.parent tree = some root := by
          intro tree member
          have inArray := perm.subset (order ▸ member)
          have notRoot : tree ≠ root := by
            have bounds := inArray
            rw [collected.array, List.mem_range'_1] at bounds
            rw [root]
            omega
          have alone := collected.alone tree inArray
          exact ⟨notRoot, by simp [sorted, notRoot, alone.1], by simp [sorted, alone.2]⟩
        have nodup : (first :: rest).Nodup := by
          rw [← order, perm.nodup_iff, collected.array]
          exact List.nodup_range'
        have start : Splitting sorted [] [] first rest := by
          refine ⟨by rw [array, order]; rfl, ?_, fun tree member => (old tree (List.mem_cons_of_mem _ member)).2, ?_⟩
          · intro thread member
            rw [List.nil_append, List.nil_append, List.mem_singleton] at member
            rw [member]
            exact ⟨by simp, (old first (by simp)).2.1, fun tree isTop => Option.some.inj isTop ▸ (old first (by simp)).2.2⟩
          · refine List.nodup_cons.mpr ⟨fun member => (old root (by simpa using member)).1 rfl, by simpa using nodup⟩
        obtain ⟨split, ended, forest, kept⟩ := splitThreads_regroup (first :: rest).length sorted [] [] first rest start (by simp)
        rw [sameSubject_data data] at forest
        refine ⟨split, ?_, forest, kept⟩
        rw [splitThreads, here]
        exact ended
  obtain ⟨split, ended, forest, kept⟩ := split
  let compare := services.compFunc.getD (mailthreadTreeTimecomp msgTab)
  refine ⟨split.setChildren root (services.qsort (compare split) (split.children root)), ?_,
    forest.sorted (services.qsort_perm _ _), fun tree => ?_⟩
  · rw [mailBuildThreadOrderedsubject]
    simp only [mailThreadSort_flat, Option.bind_eq_bind, Option.bind_some]
    change (splitThreads ((sorted.children root).length + 1) sorted none 0).bind _ = _
    rw [ended, Option.bind_some]
  · rw [Heap.data_setChildren, kept tree, data tree]

/-- What ORDEREDSUBJECT threading is to make: chains in order, one for each base subject. -/
structure OrderedSubjectForest (services : Services) (msgTab : List (Option Mailmessage)) (heap : Heap)
    (threads : List (List Nat)) : Prop where
  forest : ThreadForest heap threads
  once : (threads.flatten.map heap.msg).Perm ((withFields msgTab).map some)
  grouped : ∀ a ∈ threads.flatten, ∀ b ∈ threads.flatten, a ≠ b →
    ((∃ thread ∈ threads, a ∈ thread ∧ b ∈ thread) ↔
      ∃ subject, (heap.msg a).bind (threadSubject services msgTab) = some subject ∧
        (heap.msg b).bind (threadSubject services msgTab) = some subject)
  ordered : ∀ thread ∈ threads, thread.Pairwise fun a b => treeSubjTimeComp msgTab heap a b ≤ 0

/-- `qsort` sorts by a comparison that is an order of the elements. -/
def Sorts (services : Services) : Prop :=
  ∀ compare array, Orders compare {tree | tree ∈ array} → (services.qsort compare array).Pairwise fun a b => compare a b ≤ 0

theorem sameSubject_collected {a b : Nat} (inA : a ∈ (collectThreads services msgTab).children root)
    (inB : b ∈ (collectThreads services msgTab).children root) :
    sameSubject (collectThreads services msgTab) a b = true ↔
      ∃ subject, ((collectThreads services msgTab).msg a).bind (threadSubject services msgTab) = some subject ∧
        ((collectThreads services msgTab).msg b).bind (threadSubject services msgTab) = some subject := by
  have collected := @collected_collectThreads services msgTab
  have spelled : ∀ tree ∈ (collectThreads services msgTab).children root,
      ((collectThreads services msgTab).node tree).baseSubject =
        ((collectThreads services msgTab).msg tree).bind (threadSubject services msgTab) := by
    intro tree member
    have isMessage : (collectThreads services msgTab).msg tree ∈ (withFields msgTab).map some := by
      rw [← collected.messages]
      exact List.mem_map_of_mem member
    obtain ⟨msg, _, here⟩ := List.mem_map.mp isMessage
    rw [← here, Option.bind_some]
    exact collected.subject tree member msg here.symm
  rw [sameSubject_iff, spelled a inA, spelled b inB]

/-- The forest is right when the scan of the sorted array splits it well. -/
theorem orderedsubject_forest_iff_wellSplit :
    (∃ result threads, mailBuildThreadOrderedsubject services msgTab = some result ∧
      OrderedSubjectForest services msgTab result threads) ↔
        WellSplit (sameSubject (collectThreads services msgTab))
          (fun a b => treeSubjTimeComp msgTab (collectThreads services msgTab) a b ≤ 0)
          (scanThreads (sameSubject (collectThreads services msgTab)) (sortedThreads services msgTab)) := by
  have collected := @collected_collectThreads services msgTab
  have perm : (sortedThreads services msgTab).Perm ((collectThreads services msgTab).children root) := services.qsort_perm _ _
  obtain ⟨result, built, forest, data⟩ := orderedsubject_result services msgTab
  have scanned := @scanThreads_perm _ (sameSubject (collectThreads services msgTab)) (sortedThreads services msgTab)
  have nodup := (List.nodup_cons.mp forest.nodup).2
  have msg : ∀ tree, result.msg tree = (collectThreads services msgTab).msg tree := fun tree => msg_of_data (data tree)
  have inChildren : ∀ tree ∈ (scanThreads (sameSubject (collectThreads services msgTab)) (sortedThreads services msgTab)).flatten,
      tree ∈ (collectThreads services msgTab).children root := fun tree member => perm.subset (scanned.subset member)
  have compare : ∀ a b, treeSubjTimeComp msgTab result a b = treeSubjTimeComp msgTab (collectThreads services msgTab) a b :=
    fun a b => treeSubjTimeComp_of_data (data a) (data b)
  constructor
  · rintro ⟨other, threads, otherBuilt, isForest⟩
    rw [built] at otherBuilt
    cases otherBuilt
    have there := forest.subset isForest.forest
    have back := isForest.forest.subset forest
    refine ⟨fun thread member => ?_, (apart_iff sameSubject_symm nodup).mpr fun a inA b inB distinct equal => ?_⟩
    · simpa only [compare] using isForest.ordered thread (there thread member)
    · have inThreads : ∀ tree ∈ (scanThreads (sameSubject (collectThreads services msgTab)) (sortedThreads services msgTab)).flatten,
          tree ∈ threads.flatten := by
        intro tree member
        obtain ⟨thread, isThread, inThread⟩ := List.mem_flatten.mp member
        exact List.mem_flatten.mpr ⟨thread, there thread isThread, inThread⟩
      have together := (isForest.grouped a (inThreads a inA) b (inThreads b inB) distinct).mpr (by
        simpa only [msg] using (sameSubject_collected (inChildren a inA) (inChildren b inB)).mp equal)
      obtain ⟨thread, isThread, hasA, hasB⟩ := together
      exact ⟨thread, back thread isThread, hasA, hasB⟩
  · intro split
    refine ⟨result, _, built, forest, ?_, fun a inA b inB distinct => ?_, fun thread member => ?_⟩
    · have same : result.msg = (collectThreads services msgTab).msg := funext msg
      rw [same, ← collected.messages]
      exact (scanned.trans perm).map _
    · simp only [msg]
      rw [← sameSubject_collected (inChildren a inA) (inChildren b inB)]
      constructor
      · rintro ⟨thread, isThread, hasA, hasB⟩
        have transitive : ∀ a b c, sameSubject (collectThreads services msgTab) a b = true →
            sameSubject (collectThreads services msgTab) b c = true → sameSubject (collectThreads services msgTab) a c = true :=
          fun _ _ _ => sameSubject_trans
        have alike := scanThreads_threads transitive (sortedThreads services msgTab) thread isThread
        have both : Std.Symm fun a b => sameSubject (collectThreads services msgTab) a b = true :=
          ⟨fun a b equal => sameSubject_symm a b ▸ equal⟩
        exact alike.forall hasA hasB distinct
      · exact (apart_iff sameSubject_symm nodup).mp split.apart a inA b inB distinct
    · simpa only [compare] using split.ordered thread member

section Mailboxes

/-- Insertion sort, for a comparison that orders the elements of the array. -/
def sortBy (compare : Nat → Nat → Int) (array : List Nat) : List Nat :=
  (array.attach.insertionSort fun a b => compare a.1 b.1 ≤ 0).map Subtype.val

theorem sortBy_perm (compare : Nat → Nat → Int) (array : List Nat) : (sortBy compare array).Perm array := by
  have sorted := (List.perm_insertionSort (fun a b : {tree // tree ∈ array} => compare a.1 b.1 ≤ 0) array.attach).map Subtype.val
  rwa [List.attach_map_subtype_val] at sorted

def orderedServices : Services where
  extractSubject subject := (subject, false)
  mailimfGetMessageId _ := []
  qsort := sortBy
  qsort_perm := sortBy_perm
  compFunc := none

theorem plainServices_sorts : Sorts orderedServices := by
  intro compare array orders
  have total : Std.Total fun a b : {tree // tree ∈ array} => compare a.1 b.1 ≤ 0 := ⟨fun a b => by
    have opposite := orders.antisymmetric b.1 b.2 a.1 a.2
    omega⟩
  have trans : IsTrans {tree // tree ∈ array} fun a b => compare a.1 b.1 ≤ 0 :=
    ⟨fun a b c => orders.transitive a.1 a.2 b.1 b.2 c.1 c.2⟩
  exact List.pairwise_map.mpr (List.pairwise_insertionSort _ _)

def subjectMail (subject : List UInt8) (date : Int) : Option Mailmessage :=
  some { datedMail (some date) 0 with subject := some subject }

def fourMails : List (Option Mailmessage) := [subjectMail [65] 1, subjectMail [65] 2, subjectMail [65] 3, subjectMail [66] 4]

theorem fourMails_order :
    ∀ a ∈ [1, 2, 3, 4], ∀ b ∈ [1, 2, 3, 4], ∀ c ∈ [1, 2, 3, 4],
      (treeSubjTimeComp fourMails (collectThreads orderedServices fourMails) a b < 0 ↔
        0 < treeSubjTimeComp fourMails (collectThreads orderedServices fourMails) b a) ∧
      (treeSubjTimeComp fourMails (collectThreads orderedServices fourMails) a b ≤ 0 →
        treeSubjTimeComp fourMails (collectThreads orderedServices fourMails) b c ≤ 0 →
          treeSubjTimeComp fourMails (collectThreads orderedServices fourMails) a c ≤ 0) := by
  decide

theorem fourMails_orders :
    Orders (treeSubjTimeComp fourMails (collectThreads orderedServices fourMails))
      {tree | tree ∈ (collectThreads orderedServices fourMails).children root} := by
  have nodes : (collectThreads orderedServices fourMails).children root = [1, 2, 3, 4] := by decide
  rw [nodes]
  exact ⟨fun a inA b inB => (fourMails_order a inA b inB a inA).1, fun a inA b inB c inC => (fourMails_order a inA b inB c inC).2⟩

end Mailboxes

end Etpan.Thread
