import Etpan.Thread.SubjectMerge

namespace Etpan.Thread

open Etpan.Data Relation

/-! Step (5) (C) over the whole array, and what stands at the top afterwards. -/

section Runs

variable (services : Services) (msgTab : List (Option Mailmessage)) (heap : Heap)

def shapeOf (tree : Nat) : Shape := { dummy := (heap.msg tree).isNone, reply := replyOf services msgTab heap tree }

def threadsOf (list : List Nat) (subject : List UInt8) : List Shape :=
  (list.filter (subjectOf services msgTab heap · = some subject)).map (shapeOf services msgTab heap)

/-- The first `count` threads have been looked at. -/
structure Merging (count : Nat) (state : MergeState) : Prop where
  length : (heap.children root).length ≤ state.rootlist.length ∧ state.rootlist.length ≤ (heap.children root).length + count
  inside : ∀ holder child, child ∈ state.heap.children holder → child < state.heap.size
  unallocated : ∀ tree, state.heap.size ≤ tree → state.heap.children tree = []
  left : ∀ q, count ≤ q → ∀ tree, (heap.children root)[q]? = some tree →
    state.rootlist[q]? = some (some tree) ∧ (state.heap.face tree).2 = subjectOf services msgTab heap tree ∧
      ((subjectOf services msgTab heap tree).isSome → (state.heap.face tree).1 = shapeOf services msgTab heap tree)
  live : ∀ q tree : Nat, state.rootlist[q]? = some (some tree) → tree ≠ root ∧ tree < state.heap.size
  apart : ∀ p q tree : Nat, state.rootlist[p]? = some (some tree) → state.rootlist[q]? = some (some tree) → p = q
  unseen : ∀ subject, threadsOf services msgTab heap ((heap.children root).take count) subject = [] →
    state.subjectHash.lookup subject = (populateSubjects services msgTab heap).subjectHash.lookup subject
  entry : ∀ subject first others, threadsOf services msgTab heap ((heap.children root).take count) subject = first :: others →
    ∃ p tree : Nat, state.subjectHash.lookup subject = some p ∧ state.rootlist[p]? = some (some tree) ∧
      (p < count ∨ (heap.children root).length ≤ p) ∧ state.heap.face tree = (first.top others, some subject)
  only : ∀ (q tree : Nat) (subject : List UInt8), q < count ∨ (heap.children root).length ≤ q → state.rootlist[q]? = some (some tree) →
    (state.heap.face tree).2 = some subject → subject ≠ [] ∧ state.subjectHash.lookup subject = some q
  nested : NestedDummy state.heap ↔
    ∃ subject first others, threadsOf services msgTab heap ((heap.children root).take count) subject = first :: others ∧ first.nests others

variable {services msgTab heap} {count : Nat} {state : MergeState}

theorem threadsOf_take {tree : Nat} (there : (heap.children root)[count]? = some tree) (subject : List UInt8) :
    threadsOf services msgTab heap ((heap.children root).take (count + 1)) subject =
      threadsOf services msgTab heap ((heap.children root).take count) subject ++
        if subjectOf services msgTab heap tree = some subject then [shapeOf services msgTab heap tree] else [] := by
  rw [List.take_succ_eq_append_getElem (List.getElem?_eq_some_iff.mp there).1, (List.getElem?_eq_some_iff.mp there).2]
  rw [threadsOf, List.filter_append, List.map_append]
  congr 1
  split_ifs with same
  · simp only [same, decide_true, List.filter_cons_of_pos, List.filter_nil, List.map_cons, List.map_nil]
  · simp only [same, decide_false, Bool.false_eq_true, not_false_eq_true, List.filter_cons_of_neg, List.filter_nil, List.map_nil]

theorem threadsOf_mem {list : List Nat} {subject : List UInt8} {shape : Shape} :
    shape ∈ threadsOf services msgTab heap list subject ↔
      ∃ tree ∈ list, subjectOf services msgTab heap tree = some subject ∧ shapeOf services msgTab heap tree = shape := by
  simp only [threadsOf, List.mem_map, List.mem_filter, decide_eq_true_eq, and_assoc]

theorem Merging.skip (merging : Merging services msgTab heap count state) {tree : Nat}
    (there : (heap.children root)[count]? = some tree)
    (alone : ∀ subject, subjectOf services msgTab heap tree = some subject →
      threadsOf services msgTab heap ((heap.children root).take count) subject = [] ∧
        (populateSubjects services msgTab heap).subjectHash.lookup subject = some count) :
    Merging services msgTab heap (count + 1) state := by
  have inBounds := (List.getElem?_eq_some_iff.mp there).1
  obtain ⟨isThere, sameSubject, sameShape⟩ := merging.left count (le_refl _) tree there
  constructor
  case length => exact ⟨merging.length.1, by have := merging.length.2; omega⟩
  case inside => exact merging.inside
  case unallocated => exact merging.unallocated
  case left => exact fun q late => merging.left q (by omega)
  case live => exact merging.live
  case apart => exact merging.apart
  case unseen =>
    intro subject none'
    rw [threadsOf_take there, List.append_eq_nil_iff] at none'
    exact merging.unseen subject none'.1
  case entry =>
    intro subject first others same
    rw [threadsOf_take there] at same
    by_cases here : subjectOf services msgTab heap tree = some subject
    · obtain ⟨none', isFirst⟩ := alone subject here
      rw [none', if_pos here, List.nil_append] at same
      cases same
      refine ⟨count, tree, (merging.unseen subject none').trans isFirst, isThere, Or.inl (Nat.lt_succ_self _), ?_⟩
      exact Prod.ext (sameShape (by rw [here]; rfl)) (sameSubject.trans here)
    · rw [if_neg here, List.append_nil] at same
      obtain ⟨p, main, known, isMain, place, face⟩ := merging.entry subject first others same
      exact ⟨p, main, known, isMain, place.imp_left (by omega), face⟩
  case only =>
    intro q other subject place isOther hasSubject
    by_cases here : q = count
    · subst here
      rw [isThere] at isOther
      cases isOther
      rw [sameSubject] at hasSubject
      obtain ⟨none', isFirst⟩ := alone subject hasSubject
      refine ⟨?_, (merging.unseen subject none').trans isFirst⟩
      rw [subjectOf] at hasSubject
      have kept := (Option.filter_eq_some_iff.mp hasSubject).2
      simpa using kept
    · exact merging.only q other subject (by omega) isOther hasSubject
  case nested =>
    rw [merging.nested]
    constructor
    · rintro ⟨subject, first, others, same, nests⟩
      refine ⟨subject, first, others, ?_, nests⟩
      rw [threadsOf_take there, if_neg, List.append_nil, same]
      intro here
      rw [(alone subject here).1] at same
      cases same
    · rintro ⟨subject, first, others, same, nests⟩
      rw [threadsOf_take there] at same
      by_cases here : subjectOf services msgTab heap tree = some subject
      · rw [(alone subject here).1, if_pos here, List.nil_append] at same
        cases same
        cases nests
      · rw [if_neg here, List.append_nil] at same
        exact ⟨subject, first, others, same, nests⟩

theorem Merging.join (merging : Merging services msgTab heap count state) {tree : Nat}
    (there : (heap.children root)[count]? = some tree) {subject : List UInt8} {first : Shape} {others : List Shape}
    (hasSubject : subjectOf services msgTab heap tree = some subject)
    (before : threadsOf services msgTab heap ((heap.children root).take count) subject = first :: others)
    {mainCur mainTree newCur newTree : Nat} {state' : MergeState} (known : state.subjectHash.lookup subject = some mainCur)
    (isMain : state.rootlist[mainCur]? = some (some mainTree)) (place : mainCur < count ∨ (heap.children root).length ≤ mainCur)
    (mainFace : state.heap.face mainTree = (first.top others, some subject))
    (joined : Joined state count tree subject mainCur mainTree newCur newTree state') :
    Merging services msgTab heap (count + 1) state' := by
  have inBounds := (List.getElem?_eq_some_iff.mp there).1
  obtain ⟨isThere, sameSubject, sameShape⟩ := merging.left count (le_refl _) tree there
  have envFace : (state.heap.face tree).1 = shapeOf services msgTab heap tree := sameShape (by rw [hasSubject]; rfl)
  have mainInside := (merging.live mainCur mainTree isMain).2
  -- the new thread stands at the place of the old one or behind all others
  have newPlace : newCur < count ∨ (heap.children root).length ≤ newCur := by
    rcases joined.place with ⟨rfl, _⟩ | ⟨rfl, _⟩
    · exact place
    · exact Or.inr merging.length.1
  have newHere : newCur = mainCur ∨ state.rootlist.length ≤ newCur := joined.place.imp And.left fun new => new.1.ge
  -- what else is in the array was there before
  have old : ∀ {q other}, q ≠ newCur → state'.rootlist[q]? = some (some other) →
      q ≠ count ∧ q ≠ mainCur ∧ state.rootlist[q]? = some (some other) := by
    intro q other differs isOther
    rw [joined.array, if_neg differs] at isOther
    split_ifs at isOther with gone
    · cases isOther
    · exact ⟨fun same => gone (Or.inl same), fun same => gone (Or.inr same), isOther⟩
  have kept : ∀ {q other}, q ≠ count → q ≠ mainCur → state.rootlist[q]? = some (some other) →
      q ≠ newCur ∧ state'.rootlist[q]? = some (some other) ∧ state'.heap.face other = state.heap.face other := by
    intro q other notCount notMain isOther
    have notNew : q ≠ newCur := by
      have bounded := (List.getElem?_eq_some_iff.mp isOther).1
      rcases newHere with same | beyond
      · rwa [same]
      · omega
    refine ⟨notNew, ?_, joined.face other (fun same => ?_) (merging.live q other isOther).2⟩
    · rw [joined.array, if_neg notNew, if_neg (not_or.mpr ⟨notCount, notMain⟩)]
      exact isOther
    · rw [same] at isOther
      exact notCount (merging.apart q count tree isOther isThere)
  have newThere : state'.rootlist[newCur]? = some (some newTree) := by rw [joined.array, if_pos rfl]
  have newFace : state'.heap.face newTree = (first.top (others ++ [shapeOf services msgTab heap tree]), some subject) := by
    rw [joined.top, mainFace, envFace, Shape.top_concat]
  -- a node of the array is not the new thread
  have notNewTree : ∀ {q other}, q ≠ mainCur → state.rootlist[q]? = some (some other) → other ≠ newTree := by
    intro q other notMain isOther same
    rcases joined.place with ⟨_, isOld⟩ | ⟨_, isNew⟩
    · rw [same, isOld] at isOther
      exact notMain (merging.apart q mainCur mainTree isOther isMain)
    · have inside := (merging.live q other isOther).2
      rw [same, isNew] at inside
      exact Nat.lt_irrefl _ inside
  constructor
  case length =>
    have ⟨lower, upper⟩ := merging.length
    have ⟨longer, atMost⟩ := joined.length
    exact ⟨by omega, by omega⟩
  case inside => exact joined.inside
  case unallocated => exact joined.unallocated
  case left =>
    intro q late other isOther
    obtain ⟨otherThere, otherSubject, otherShape⟩ := merging.left q (by omega) other isOther
    have early := (List.getElem?_eq_some_iff.mp isOther).1
    obtain ⟨_, still, face⟩ := kept (q := q) (by omega) (by omega) otherThere
    rw [face]
    exact ⟨still, otherSubject, otherShape⟩
  case live =>
    intro q other isOther
    by_cases new : q = newCur
    · rw [new, newThere] at isOther
      cases isOther
      refine ⟨?_, joined.placed⟩
      rcases joined.place with ⟨_, rfl⟩ | ⟨_, rfl⟩
      · exact (merging.live mainCur _ isMain).1
      · exact Nat.ne_of_gt (Nat.lt_of_le_of_lt (Nat.zero_le _) mainInside)
    · obtain ⟨notRoot, inside⟩ := merging.live q other (old new isOther).2.2
      exact ⟨notRoot, Nat.lt_of_lt_of_le inside joined.grows⟩
  case apart =>
    intro p q other isFirst isSecond
    by_cases firstNew : p = newCur
    · by_cases secondNew : q = newCur
      · rw [firstNew, secondNew]
      · obtain ⟨_, notMain, wasThere⟩ := old secondNew isSecond
        rw [firstNew, newThere] at isFirst
        cases isFirst
        exact absurd rfl (notNewTree notMain wasThere)
    · obtain ⟨_, notMain, wasFirst⟩ := old firstNew isFirst
      by_cases secondNew : q = newCur
      · rw [secondNew, newThere] at isSecond
        cases isSecond
        exact absurd rfl (notNewTree notMain wasFirst)
      · exact merging.apart p q other wasFirst (old secondNew isSecond).2.2
  case unseen =>
    intro key none'
    rw [threadsOf_take there, List.append_eq_nil_iff] at none'
    have differs : key ≠ subject := by
      rintro rfl
      rw [before] at none'
      cases none'.1
    rw [joined.hash, if_neg differs]
    exact merging.unseen key none'.1
  case entry =>
    intro key head rest same
    rw [threadsOf_take there] at same
    by_cases here : key = subject
    · subst here
      rw [before, if_pos hasSubject, List.cons_append] at same
      cases same
      refine ⟨newCur, newTree, ?_, newThere, newPlace.imp_left (by omega), newFace⟩
      rw [joined.hash, if_pos rfl]
    · have other : subjectOf services msgTab heap tree ≠ some key := by
        rw [hasSubject]
        exact fun same => here (Option.some.inj same).symm
      rw [if_neg other, List.append_nil] at same
      obtain ⟨p, otherTree, otherKnown, isOther, otherPlace, otherFace⟩ := merging.entry key head rest same
      have notMain : p ≠ mainCur := by
        rintro rfl
        rw [isMain] at isOther
        cases isOther
        have shared := congrArg Prod.snd (mainFace.symm.trans otherFace)
        exact here (Option.some.inj shared).symm
      obtain ⟨_, still, face⟩ := kept (q := p) (by omega) notMain isOther
      refine ⟨p, otherTree, ?_, still, otherPlace.imp_left (by omega), face.trans otherFace⟩
      rw [joined.hash, if_neg here]
      exact otherKnown
  case only =>
    intro q other key otherPlace isOther otherSubject
    by_cases new : q = newCur
    · rw [new, newThere] at isOther
      cases isOther
      rw [newFace] at otherSubject
      cases otherSubject
      refine ⟨(merging.only mainCur mainTree subject place isMain (by rw [mainFace])).1, ?_⟩
      rw [joined.hash, if_pos rfl, new]
    · obtain ⟨notCount, notMain, wasThere⟩ := old new isOther
      rw [(kept notCount notMain wasThere).2.2] at otherSubject
      obtain ⟨notEmpty, otherKnown⟩ := merging.only q other key (by omega) wasThere otherSubject
      refine ⟨notEmpty, ?_⟩
      have differs : key ≠ subject := by
        rintro rfl
        rw [known] at otherKnown
        exact notMain (Option.some.inj otherKnown).symm
      rw [joined.hash, if_neg differs]
      exact otherKnown
  case nested =>
    rw [joined.nested, merging.nested, mainFace, envFace]
    constructor
    · rintro (⟨key, head, rest, same, nests⟩ | meets)
      · by_cases here : key = subject
        · subst here
          rw [before] at same
          cases same
          refine ⟨key, first, others ++ [shapeOf services msgTab heap tree], ?_, (Shape.nests_concat ..).mpr (Or.inl nests)⟩
          rw [threadsOf_take there, before, if_pos hasSubject, List.cons_append]
        · refine ⟨key, head, rest, ?_, nests⟩
          rw [threadsOf_take there, same, if_neg, List.append_nil]
          rw [hasSubject]
          exact fun same => here (Option.some.inj same).symm
      · refine ⟨subject, first, others ++ [shapeOf services msgTab heap tree], ?_, (Shape.nests_concat ..).mpr (Or.inr meets)⟩
        rw [threadsOf_take there, before, if_pos hasSubject, List.cons_append]
    · rintro ⟨key, head, rest, same, nests⟩
      rw [threadsOf_take there] at same
      by_cases here : key = subject
      · subst here
        rw [before, if_pos hasSubject, List.cons_append] at same
        cases same
        rcases (Shape.nests_concat ..).mp nests with earlier | meets
        · exact Or.inl ⟨key, first, others, before, earlier⟩
        · exact Or.inr meets
      · rw [if_neg, List.append_nil] at same
        · exact Or.inl ⟨key, head, rest, same, nests⟩
        · rw [hasSubject]
          exact fun same => here (Option.some.inj same).symm

theorem mergeTarget_alone {tree : Nat} {cur : Nat} (there : state.rootlist[cur]? = some (some tree))
    (own : ∀ subject, (state.heap.face tree).2 = some subject → state.subjectHash.lookup subject = some cur) :
    mergeTarget state cur = none := by
  rw [mergeTarget, there]
  simp only [Option.join_some, Option.bind_eq_bind, Option.bind_some]
  cases subject : (state.heap.node tree).baseSubject with
  | none => rfl
  | some subject' =>
      rw [Option.bind_some]
      split_ifs with empty
      · rfl
      · rw [own subject' subject, Option.bind_some, if_pos rfl]

theorem mergeTarget_hole {cur : Nat} (there : state.rootlist[cur]? = some none) : mergeTarget state cur = none := by
  rw [mergeTarget, there]
  rfl

theorem mergeTarget_other {tree cur mainCur : Nat} {subject : List UInt8} (there : state.rootlist[cur]? = some (some tree))
    (hasSubject : (state.heap.face tree).2 = some subject) (notEmpty : subject ≠ [])
    (known : state.subjectHash.lookup subject = some mainCur) (differ : mainCur ≠ cur) :
    mergeTarget state cur = some (tree, subject, mainCur) := by
  have isSubject : (state.heap.node tree).baseSubject = some subject := hasSubject
  rw [mergeTarget, there]
  simp only [Option.join_some, Option.bind_eq_bind, Option.bind_some, isSubject, if_neg notEmpty, known, if_neg differ]

theorem subjectOf_notEmpty {tree : Nat} {subject : List UInt8} (hasSubject : subjectOf services msgTab heap tree = some subject) :
    subject ≠ [] := by
  rw [subjectOf] at hasSubject
  have kept := (Option.filter_eq_some_iff.mp hasSubject).2
  simpa using kept

theorem Merging.start (ready : Ready msgTab heap) :
    Merging services msgTab heap 0
      { heap := (populateSubjects services msgTab heap).heap, rootlist := (heap.children root).map some
        subjectHash := (populateSubjects services msgTab heap).subjectHash } := by
  have table := @populateSubjects_table services msgTab heap ready
  have listed : ∀ {q tree : Nat}, ((heap.children root).map some)[q]? = some (some tree) → (heap.children root)[q]? = some tree := by
    intro q tree there
    rw [List.getElem?_map, Option.map_eq_some_iff] at there
    obtain ⟨other, isOther, same⟩ := there
    rw [isOther, same]
  constructor
  case length => simp
  case inside =>
    intro holder child held
    rw [table.links.children] at held
    rw [table.links.size]
    exact ready.inside held
  case unallocated =>
    intro tree beyond
    rw [table.links.size] at beyond
    rw [table.links.children]
    exact ready.unallocated beyond
  case left =>
    intro q _ tree there
    obtain ⟨sameSubject, sameReply⟩ := table.done q (List.getElem?_eq_some_iff.mp there).1 tree there
    refine ⟨by rw [List.getElem?_map, there, Option.map_some], sameSubject, fun hasSubject => ?_⟩
    rw [Heap.face, table.links.msg, sameReply hasSubject]
    rfl
  case live =>
    intro q tree there
    have member := List.mem_of_getElem? (listed there)
    refine ⟨fun isRoot => ?_, ?_⟩
    · rw [isRoot] at member
      exact ready.rootOrphan root member
    · rw [table.links.size]
      exact ready.inside member
  case apart =>
    intro p q tree first second
    have isFirst := listed first
    exact (List.getElem?_inj (List.getElem?_eq_some_iff.mp isFirst).1 (ready.forest.nodup root)).mp (isFirst.trans (listed second).symm)
  case unseen => exact fun _ _ => rfl
  case entry =>
    intro subject first others impossible
    cases impossible
  case only =>
    intro q tree subject place there
    have early := (List.getElem?_eq_some_iff.mp (listed there)).1
    omega
  case nested =>
    constructor
    · rintro ⟨holder, child, below, held, dummy⟩
      rw [table.links.children] at held
      rw [table.links.msg] at dummy
      exact absurd dummy (ready.dummies holder child below held)
    · rintro ⟨subject, first, others, impossible, _⟩
      cases impossible

/-- One thread takes one step when it stays and two when it is merged. -/
theorem Merging.step (ready : Ready msgTab heap) (merging : Merging services msgTab heap count state)
    (more : count < (heap.children root).length) (steps : Nat) :
    ∃ state' steps', steps ≤ steps' ∧ mergeLoop (steps + 2) state count = mergeLoop steps' state' (count + 1) ∧
      Merging services msgTab heap (count + 1) state' := by
  have table := @populateSubjects_table services msgTab heap ready
  have there : (heap.children root)[count]? = some (heap.children root)[count] := List.getElem?_eq_getElem more
  generalize (heap.children root)[count] = tree at there
  obtain ⟨isThere, sameSubject, sameShape⟩ := merging.left count (le_refl _) tree there
  have inBounds : count < state.rootlist.length := Nat.lt_of_lt_of_le more merging.length.1
  have stay : ∀ (alone : ∀ subject, subjectOf services msgTab heap tree = some subject →
      threadsOf services msgTab heap ((heap.children root).take count) subject = [] ∧
        (populateSubjects services msgTab heap).subjectHash.lookup subject = some count),
      ∃ state' steps', steps ≤ steps' ∧ mergeLoop (steps + 2) state count = mergeLoop steps' state' (count + 1) ∧
        Merging services msgTab heap (count + 1) state' := by
    intro alone
    refine ⟨state, steps + 1, Nat.le_succ _, ?_, merging.skip there alone⟩
    rw [mergeLoop, if_pos inBounds, mergeTarget_alone isThere]
    intro subject hasSubject
    obtain ⟨none', isFirst⟩ := alone subject (sameSubject.symm.trans hasSubject)
    exact (merging.unseen subject none').trans isFirst
  cases hasSubject : subjectOf services msgTab heap tree with
  | none =>
      refine stay fun subject impossible => ?_
      rw [hasSubject] at impossible
      cases impossible
  | some subject =>
      cases before : threadsOf services msgTab heap ((heap.children root).take count) subject with
      | nil =>
          refine stay fun other same => ?_
          rw [hasSubject] at same
          cases same
          refine ⟨before, (table.hash subject count).mpr ⟨more, ⟨tree, there, hasSubject⟩, fun q early other isOther same => ?_⟩⟩
          have member : shapeOf services msgTab heap other ∈ threadsOf services msgTab heap ((heap.children root).take count) subject :=
            threadsOf_mem.mpr ⟨other, List.mem_of_getElem? ((List.getElem?_take_of_lt early).trans isOther), same, rfl⟩
          rw [before] at member
          cases member
      | cons first others =>
          obtain ⟨mainCur, mainTree, known, isMain, place, mainFace⟩ := merging.entry subject first others before
          have differ : mainCur ≠ count := by omega
          have meeting : Meeting state count tree subject mainCur mainTree := by
            refine ⟨isThere, isMain, differ, fun same => ?_, (merging.live count tree isThere).1, (merging.live mainCur mainTree isMain).1,
              (merging.live count tree isThere).2, (merging.live mainCur mainTree isMain).2, by rw [mainFace], known, merging.inside,
              merging.unallocated⟩
            rw [same] at isMain
            exact differ (merging.apart mainCur count tree isMain isThere)
          have envReply : (state.heap.face tree).1.dummy = true → (state.heap.face tree).1.reply = false := by
            rw [sameShape (by rw [hasSubject]; rfl)]
            intro dummy
            have isDummy : heap.msg tree = none := Option.isNone_iff_eq_none.mp dummy
            rw [shapeOf]
            simp only [replyOf, isDummy, Option.bind_none, Option.elim_none]
          obtain ⟨newCur, newTree, joined⟩ := meeting.joined envReply
          refine ⟨mergeThread state count tree subject mainCur, steps, le_refl _, ?_, merging.join there hasSubject before known isMain place mainFace joined⟩
          have hole : (mergeThread state count tree subject mainCur).rootlist[count]? = some none := by
            rw [joined.array, if_neg, if_pos (Or.inl rfl)]
            rcases joined.place with ⟨same, _⟩ | ⟨same, _⟩
            · exact same ▸ differ.symm
            · omega
          rw [mergeLoop, if_pos inBounds, mergeTarget_other isThere (sameSubject.trans hasSubject) (subjectOf_notEmpty hasSubject) known differ]
          simp only
          rw [mergeLoop, if_pos (List.getElem?_eq_some_iff.mp hole).1, mergeTarget_hole hole]

theorem Merging.rest (merging : Merging services msgTab heap (heap.children root).length state) (left : Nat) :
    ∀ cur steps, state.rootlist.length = cur + left → (heap.children root).length ≤ cur → left < steps →
      mergeLoop steps state cur = some state := by
  induction left with
  | zero =>
      intro cur steps same _ enough
      obtain ⟨more, rfl⟩ := Nat.exists_eq_add_of_lt enough
      rw [Nat.zero_add, mergeLoop, if_neg (by omega)]
  | succ left ih =>
      intro cur steps same beyond enough
      obtain ⟨more, rfl⟩ := Nat.exists_eq_add_of_lt enough
      rw [mergeLoop, if_pos (by omega)]
      have stays : mergeTarget state cur = none := by
        have there : state.rootlist[cur]? = some state.rootlist[cur] := List.getElem?_eq_getElem (by omega)
        cases entry : state.rootlist[cur] with
        | none => exact mergeTarget_hole (there.trans (congrArg some entry))
        | some tree =>
            have isThere := there.trans (congrArg some entry)
            exact mergeTarget_alone isThere fun subject hasSubject => (merging.only cur tree subject (Or.inr beyond) isThere hasSubject).2
      rw [stays]
      exact ih (cur + 1) (left + 1 + more) (by omega) (by omega) (by omega)

theorem Merging.run (ready : Ready msgTab heap) (left : Nat) :
    ∀ count state steps, count + left = (heap.children root).length → Merging services msgTab heap count state →
      2 * left + (heap.children root).length + 1 ≤ steps →
      ∃ final, mergeLoop steps state count = some final ∧ Merging services msgTab heap (heap.children root).length final := by
  induction left with
  | zero =>
      intro count state steps same merging enough
      rw [Nat.add_zero] at same
      rw [same] at merging ⊢
      have bounded := merging.length
      exact ⟨state, merging.rest (state.rootlist.length - (heap.children root).length) _ steps (by omega) (le_refl _) (by omega), merging⟩
  | succ left ih =>
      intro count state steps same merging enough
      obtain ⟨fewer, rfl⟩ : ∃ fewer, steps = fewer + 2 := ⟨steps - 2, by omega⟩
      obtain ⟨state', steps', enough', stepped, next⟩ := merging.step ready (by omega) fewer
      rw [stepped]
      exact ih (count + 1) state' steps' (by omega) next (by omega)

end Runs

end Etpan.Thread
