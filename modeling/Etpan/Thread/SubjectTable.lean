import Etpan.Thread.Linking
import Etpan.Thread.SubjectRules

namespace Etpan.Thread

open Etpan.Data Relation

/-! Step (5) (B): the table of the subjects. -/

section Subjects

variable {services : Services} {msgTab : List (Option Mailmessage)}

/-- The same nodes with the same messages and links; a node may have been marked as a reply. -/
structure SameLinks (heap heap' : Heap) : Prop where
  size : heap'.size = heap.size
  children : ∀ tree, heap'.children tree = heap.children tree
  msg : ∀ tree, heap'.msg tree = heap.msg tree

theorem SameLinks.refl (heap : Heap) : SameLinks heap heap := ⟨rfl, fun _ => rfl, fun _ => rfl⟩

theorem SameLinks.trans {heap heap' heap'' : Heap} (first : SameLinks heap heap') (second : SameLinks heap' heap'') :
    SameLinks heap heap'' :=
  ⟨second.size.trans first.size, fun tree => (second.children tree).trans (first.children tree),
    fun tree => (second.msg tree).trans (first.msg tree)⟩

theorem SameLinks.symm {heap heap' : Heap} (same : SameLinks heap heap') : SameLinks heap' heap :=
  ⟨same.size.symm, fun tree => (same.children tree).symm, fun tree => (same.msg tree).symm⟩

theorem SameLinks.modify (heap : Heap) (tree : Nat) {change : Node → Node} (children : ∀ node, (change node).children = node.children)
    (msg : ∀ node, (change node).msg = node.msg) : SameLinks heap (heap.modify tree change) := by
  refine ⟨rfl, fun other => ?_, fun other => ?_⟩
  · rw [Heap.children, Heap.modify_node]
    split_ifs with same
    · rw [children, same]
      rfl
    · rfl
  · rw [Heap.msg, Heap.modify_node]
    split_ifs with same
    · rw [msg, same]
      rfl
    · rfl

theorem SameLinks.holds {heap heap' : Heap} (same : SameLinks heap heap') : Holds heap'.children = Holds heap.children := by
  funext holder child
  rw [Holds, Holds, same.children]

/-- What looking for a subject does to the nodes: messages at or below the node become replies. -/
structure Marks (heap : Heap) (tree : Nat) (heap' : Heap) : Prop where
  links : SameLinks heap heap'
  others : ∀ other, ¬ ReflTransGen (Holds heap.children) tree other ∨ heap.msg other = none → heap'.node other = heap.node other
  baseSubject : ∀ other, (heap'.node other).baseSubject = (heap.node other).baseSubject

theorem Marks.refl (heap : Heap) (tree : Nat) : Marks heap tree heap := ⟨.refl heap, fun _ _ => rfl, fun _ => rfl⟩

theorem Marks.child {heap heap' heap'' : Heap} {tree child : Nat} (first : Marks heap tree heap') (held : child ∈ heap.children tree)
    (second : Marks heap' child heap'') : Marks heap tree heap'' := by
  refine ⟨first.links.trans second.links, fun other outside => ?_, fun other => (second.baseSubject other).trans (first.baseSubject other)⟩
  rw [second.others other ?_, first.others other outside]
  rcases outside with notBelow | dummy
  · refine Or.inl fun below => notBelow ?_
    rw [first.links.holds] at below
    exact .head held below
  · exact Or.inr (by rw [first.links.msg, dummy])

theorem getThreadSubject_marks (depth : Nat) (heap : Heap) (tree : Nat) :
    Marks heap tree (getThreadSubject services msgTab depth heap tree).1 := by
  induction depth generalizing heap tree with
  | zero => exact .refl heap tree
  | succ depth ih =>
      rw [getThreadSubject]
      cases found : (heap.msg tree).bind (message msgTab) with
      | some mail =>
          cases subject : mail.subject with
          | none => simpa only [found, subject] using Marks.refl heap tree
          | some subject =>
              have isMessage : heap.msg tree ≠ none := by
                intro dummy
                rw [dummy] at found
                cases found
              simp only [subject]
              split_ifs
              · refine ⟨.modify heap tree (fun _ => rfl) fun _ => rfl, fun other outside => ?_, fun other => ?_⟩
                · rw [Heap.modify_node]
                  split_ifs with same
                  · subst same
                    rcases outside with notBelow | dummy
                    · exact absurd .refl notBelow
                    · exact absurd dummy isMessage
                  · rfl
                · rw [Heap.modify_node]
                  split_ifs with same
                  · rw [same]
                  · rfl
              · exact .refl heap tree
      | none =>
          refine List.foldlRecOn (motive := fun found : Heap × Option (List UInt8) => Marks heap tree found.1) _ _ (.refl heap tree)
            fun found marked child held => ?_
          cases found.2 with
          | some _ => exact marked
          | none => exact marked.child held (ih found.1 child)

/-- The subject of a thread depends on the links only. -/
theorem getThreadSubject_congr (depth : Nat) {heap heap' : Heap} (same : SameLinks heap heap') (tree : Nat) :
    (getThreadSubject services msgTab depth heap' tree).2 = (getThreadSubject services msgTab depth heap tree).2 := by
  induction depth generalizing heap heap' tree with
  | zero => rfl
  | succ depth ih =>
      rw [getThreadSubject, getThreadSubject, same.msg, same.children]
      cases (heap.msg tree).bind (message msgTab) with
      | some mail => cases subject : mail.subject <;> simp only [subject]
      | none =>
          -- the walks through the children stand at the same links
          refine (List.foldl_rel (r := fun found' found : Heap × Option (List UInt8) =>
            SameLinks found.1 found'.1 ∧ found'.2 = found.2) (a := (heap', none)) (b := (heap, none)) ⟨same, rfl⟩ ?_).2
          rintro child - ⟨heap', found⟩ ⟨heap, _⟩ ⟨links, rfl⟩
          cases found with
          | some subject => exact ⟨links, rfl⟩
          | none =>
              have marks := @getThreadSubject_marks services msgTab depth heap child
              have marks' := @getThreadSubject_marks services msgTab depth heap' child
              exact ⟨(marks.links.symm.trans links).trans marks'.links, ih links child⟩

def subjectOf (services : Services) (msgTab : List (Option Mailmessage)) (heap : Heap) (tree : Nat) : Option (List UInt8) :=
  (getThreadSubject services msgTab heap.size heap tree).2.filter (· ≠ [])

def replyOf (services : Services) (msgTab : List (Option Mailmessage)) (heap : Heap) (tree : Nat) : Bool :=
  (((heap.msg tree).bind (message msgTab)).bind Mailmessage.subject).elim false fun subject => (services.extractSubject subject).2

theorem getThreadSubject_self {heap : Heap} {tree : Nat} (unmarked : (heap.node tree).isReply = false)
    (backed : ∀ msg, heap.msg tree = some msg → message msgTab msg ≠ none) (depth : Nat) :
    ((getThreadSubject services msgTab (depth + 1) heap tree).1.node tree).isReply = replyOf services msgTab heap tree := by
  rw [replyOf]
  cases found : (heap.msg tree).bind (message msgTab) with
  | some mail =>
      rw [getThreadSubject, found]
      cases subject : mail.subject with
      | none => simpa only [subject, Option.bind_some, Option.elim_none] using unmarked
      | some subject =>
          simp only [subject, Option.bind_some, Option.elim_some]
          split_ifs with isReply
          · rw [Heap.modify_node, if_pos rfl, isReply]
          · rw [unmarked]
            simpa using isReply
  | none =>
      have dummy : heap.msg tree = none := by
        cases isMessage : heap.msg tree with
        | none => rfl
        | some msg =>
            rw [isMessage, Option.bind_some] at found
            exact absurd found (backed msg isMessage)
      have marks := @getThreadSubject_marks services msgTab (depth + 1) heap tree
      rw [marks.others tree (Or.inr dummy), unmarked]
      rfl

/-- The state of step (5): what is at the top of the forest, before any subject is known. -/
structure Ready (msgTab : List (Option Mailmessage)) (heap : Heap) : Prop where
  forest : Forest heap.children
  inside : ∀ {holder child}, child ∈ heap.children holder → child < heap.size
  started : root < heap.size
  rootOrphan : Orphan heap.children root
  unallocated : ∀ {tree}, heap.size ≤ tree → heap.children tree = []
  /-- The dummies are at the top. -/
  dummies : ∀ holder child, holder ≠ root → child ∈ heap.children holder → heap.msg child ≠ none
  backed : ∀ tree msg, heap.msg tree = some msg → message msgTab msg ≠ none
  noSubject : ∀ tree, (heap.node tree).baseSubject = none
  unmarked : ∀ tree, (heap.node tree).isReply = false

/-- The positions that have been looked at. -/
structure Table (services : Services) (msgTab : List (Option Mailmessage)) (heap : Heap) (count : Nat) (state : SubjectState) : Prop where
  links : SameLinks heap state.heap
  done : ∀ q < count, ∀ tree, (heap.children root)[q]? = some tree →
    (state.heap.node tree).baseSubject = subjectOf services msgTab heap tree ∧
      ((subjectOf services msgTab heap tree).isSome → (state.heap.node tree).isReply = replyOf services msgTab heap tree)
  left : ∀ q, count ≤ q → ∀ tree, (heap.children root)[q]? = some tree →
    (state.heap.node tree).baseSubject = none ∧ (state.heap.node tree).isReply = false
  hash : ∀ subject p, state.subjectHash.lookup subject = some p ↔
    p < count ∧ (∃ tree, (heap.children root)[p]? = some tree ∧ subjectOf services msgTab heap tree = some subject) ∧
      ∀ q < p, ∀ tree, (heap.children root)[q]? = some tree → subjectOf services msgTab heap tree ≠ some subject

variable {heap : Heap} {count : Nat} {state : SubjectState}

theorem Ready.not_below (ready : Ready msgTab heap) {tree other : Nat} (top : tree ∈ heap.children root) (otherTop : other ∈ heap.children root)
    (below : ReflTransGen (Holds heap.children) tree other) : tree = other := by
  rcases ready.forest.eq_of_below_top ready.rootOrphan otherTop below with same | isRoot
  · exact same
  · rw [isRoot] at top
    exact absurd top (ready.rootOrphan root)

/-- The entry of a subject is never replaced, as the thread is compared with itself. -/
theorem populateSubject_eq (state : SubjectState) (tree cur : Nat) :
    populateSubject services msgTab state (tree, cur) =
      match (getThreadSubject services msgTab state.heap.size state.heap tree).2.filter (· ≠ []) with
      | none => { state with heap := (getThreadSubject services msgTab state.heap.size state.heap tree).1 }
      | some subject =>
          { heap := (getThreadSubject services msgTab state.heap.size state.heap tree).1.modify tree ({ · with baseSubject := some subject })
            subjectHash := if (state.subjectHash.lookup subject).isSome then state.subjectHash else (subject, cur) :: state.subjectHash } := by
  rw [populateSubject]
  cases got : getThreadSubject services msgTab state.heap.size state.heap tree with
  | mk heap found =>
      cases found with
      | none => rfl
      | some subject =>
          by_cases empty : subject = []
          · have none' : (some subject).filter (· ≠ []) = none := by simp [empty]
            simp only [none', if_pos empty]
          · have kept : (some subject).filter (· ≠ []) = some subject := by simp [empty]
            simp only [kept, if_neg empty]
            cases state.subjectHash.lookup subject with
            | none => rfl
            | some p =>
                simp only [Option.isSome_some, if_true]
                rw [if_neg]
                rintro ⟨isMessage, dummy | ⟨isReply, notReply⟩⟩
                · exact isMessage dummy
                · rw [isReply] at notReply
                  cases notReply

theorem populateSubject_table (ready : Ready msgTab heap) (table : Table services msgTab heap count state) {tree : Nat}
    (there : (heap.children root)[count]? = some tree) :
    Table services msgTab heap (count + 1) (populateSubject services msgTab state (tree, count)) := by
  have top := List.mem_of_getElem? there
  have marks := @getThreadSubject_marks services msgTab state.heap.size state.heap tree
  have isSubject : (getThreadSubject services msgTab state.heap.size state.heap tree).2.filter (· ≠ []) =
      subjectOf services msgTab heap tree := by
    rw [subjectOf, table.links.size, getThreadSubject_congr _ table.links]
  obtain ⟨depth, hasDepth⟩ := Nat.exists_eq_add_of_lt (lt_of_le_of_lt (Nat.zero_le _) (show root < state.heap.size by
    rw [table.links.size]
    exact ready.started))
  have reply : ((getThreadSubject services msgTab state.heap.size state.heap tree).1.node tree).isReply =
      replyOf services msgTab heap tree := by
    rw [show state.heap.size = depth + 1 by omega, getThreadSubject_self (table.left count (le_refl _) tree there).2]
    · rw [replyOf, replyOf, table.links.msg]
    · intro msg isMessage
      rw [table.links.msg] at isMessage
      exact ready.backed tree msg isMessage
  -- the other threads at the top are not touched
  have others : ∀ {other}, other ∈ heap.children root → other ≠ tree →
      (getThreadSubject services msgTab state.heap.size state.heap tree).1.node other = state.heap.node other := by
    intro other otherTop differs
    refine marks.others other (Or.inl fun below => differs ?_)
    rw [table.links.holds] at below
    exact (ready.not_below top otherTop below).symm
  have apart : ∀ {q other}, q ≠ count → (heap.children root)[q]? = some other → other ≠ tree := by
    intro q other differs otherThere same
    rw [same] at otherThere
    exact differs ((List.getElem?_inj (List.getElem?_eq_some_iff.mp otherThere).1 (ready.forest.nodup root)).mp (otherThere.trans there.symm))
  have entries := table.hash
  rw [populateSubject_eq, isSubject]
  cases subject : subjectOf services msgTab heap tree with
  | none =>
      refine ⟨table.links.trans marks.links, fun q before other otherThere => ?_, fun q late other otherThere => ?_, fun key p => ?_⟩
      · rcases Nat.lt_succ_iff_lt_or_eq.mp before with early | rfl
        · rw [others (List.mem_of_getElem? otherThere) (apart (Nat.ne_of_lt early) otherThere)]
          exact table.done q early other otherThere
        · rw [there] at otherThere
          cases otherThere
          rw [subject]
          exact ⟨(marks.baseSubject tree).trans (table.left q (le_refl _) tree there).1, fun impossible => by cases impossible⟩
      · rw [others (List.mem_of_getElem? otherThere) (apart (by omega) otherThere)]
        exact table.left q (by omega) other otherThere
      · rw [entries]
        constructor
        · rintro ⟨early, found, first⟩
          exact ⟨by omega, found, first⟩
        · rintro ⟨before, ⟨other, otherThere, otherSubject⟩, first⟩
          refine ⟨?_, ⟨other, otherThere, otherSubject⟩, first⟩
          rcases Nat.lt_succ_iff_lt_or_eq.mp before with early | rfl
          · exact early
          · rw [there] at otherThere
            cases otherThere
            rw [subject] at otherSubject
            cases otherSubject
  | some key =>
      have changed : ∀ other, ((getThreadSubject services msgTab state.heap.size state.heap tree).1.modify tree
          ({ · with baseSubject := some key })).node other =
            if other = tree then { (getThreadSubject services msgTab state.heap.size state.heap tree).1.node tree with baseSubject := some key }
            else (getThreadSubject services msgTab state.heap.size state.heap tree).1.node other := fun other =>
        Heap.modify_node _ _ _ _
      dsimp only
      have named : SameLinks (getThreadSubject services msgTab state.heap.size state.heap tree).1
          ((getThreadSubject services msgTab state.heap.size state.heap tree).1.modify tree ({ · with baseSubject := some key })) :=
        .modify _ tree (fun _ => rfl) fun _ => rfl
      refine ⟨(table.links.trans marks.links).trans named,
        fun q before other otherThere => ?_, fun q late other otherThere => ?_, fun key' p => ?_⟩
      · rcases Nat.lt_succ_iff_lt_or_eq.mp before with early | rfl
        · have differs := apart (Nat.ne_of_lt early) otherThere
          dsimp only
          rw [changed, if_neg differs, others (List.mem_of_getElem? otherThere) differs]
          exact table.done q early other otherThere
        · rw [there] at otherThere
          cases otherThere
          dsimp only
          rw [changed, if_pos rfl, subject]
          exact ⟨rfl, fun _ => reply⟩
      · have differs := apart (by omega) otherThere
        dsimp only
        rw [changed, if_neg differs, others (List.mem_of_getElem? otherThere) differs]
        exact table.left q (by omega) other otherThere
      · dsimp only
        cases known : state.subjectHash.lookup key with
        | some first =>
            obtain ⟨firstEarly, firstThere, _⟩ := (entries key first).mp known
            simp only [Option.isSome_some, if_true]
            rw [entries]
            constructor
            · rintro ⟨early, found, least⟩
              exact ⟨by omega, found, least⟩
            · rintro ⟨before, ⟨other, otherThere, otherSubject⟩, least⟩
              refine ⟨?_, ⟨other, otherThere, otherSubject⟩, least⟩
              rcases Nat.lt_succ_iff_lt_or_eq.mp before with early | rfl
              · exact early
              · rw [there] at otherThere
                cases otherThere
                rw [subject] at otherSubject
                cases otherSubject
                obtain ⟨firstTree, isFirst, firstSubject⟩ := firstThere
                exact absurd firstSubject (least first firstEarly firstTree isFirst)
        | none =>
            have unseen : ∀ q < count, ∀ other, (heap.children root)[q]? = some other → subjectOf services msgTab heap other ≠ some key := by
              intro q early other otherThere otherSubject
              classical
              have exists' : ∃ q, ∃ other, (heap.children root)[q]? = some other ∧ subjectOf services msgTab heap other = some key :=
                ⟨q, other, otherThere, otherSubject⟩
              have least := Nat.find_min' exists' ⟨other, otherThere, otherSubject⟩
              have entry := (entries key (Nat.find exists')).mpr ⟨by omega, Nat.find_spec exists',
                fun below isBelow found isFound isKey => Nat.find_min exists' isBelow ⟨found, isFound, isKey⟩⟩
              rw [known] at entry
              cases entry
            simp only [Option.isSome_none, Bool.false_eq_true, if_false]
            rw [List.lookup_cons]
            by_cases same : key' = key
            · subst same
              simp only [beq_self_eq_true, Option.some.injEq]
              constructor
              · rintro rfl
                exact ⟨by omega, ⟨tree, there, subject⟩, unseen⟩
              · rintro ⟨before, ⟨other, otherThere, otherSubject⟩, _⟩
                rcases Nat.lt_succ_iff_lt_or_eq.mp before with early | isCount
                · exact absurd otherSubject (unseen p early other otherThere)
                · exact isCount.symm
            · simp only [beq_eq_false_iff_ne.mpr same]
              rw [entries]
              constructor
              · rintro ⟨early, found, least⟩
                exact ⟨by omega, found, least⟩
              · rintro ⟨before, ⟨other, otherThere, otherSubject⟩, least⟩
                refine ⟨?_, ⟨other, otherThere, otherSubject⟩, least⟩
                rcases Nat.lt_succ_iff_lt_or_eq.mp before with early | rfl
                · exact early
                · rw [there] at otherThere
                  cases otherThere
                  rw [subject] at otherSubject
                  cases otherSubject
                  exact absurd rfl same

theorem populateSubjects_table (ready : Ready msgTab heap) :
    Table services msgTab heap (heap.children root).length (populateSubjects services msgTab heap) := by
  have begins : Table services msgTab heap 0 { heap, subjectHash := [] } := by
    refine ⟨.refl heap, fun q early => absurd early (Nat.not_lt_zero q), fun q _ tree _ => ⟨ready.noSubject tree, ready.unmarked tree⟩, ?_⟩
    intro subject p
    constructor
    · intro impossible
      cases impossible
    · rintro ⟨early, _⟩
      exact absurd early (Nat.not_lt_zero p)
  have walk : ∀ (list : List Nat) (count : Nat) (state : SubjectState), (heap.children root).drop count = list →
      Table services msgTab heap count state →
      Table services msgTab heap (count + list.length) ((list.zipIdx count).foldl (populateSubject services msgTab) state) := by
    intro list
    induction list with
    | nil => exact fun _ _ _ table => table
    | cons tree list ih =>
        intro count state rest table
        have there : (heap.children root)[count]? = some tree := by
          rw [← List.head?_drop, rest]
          rfl
        have next : (heap.children root).drop (count + 1) = list := by
          rw [← List.tail_drop, rest]
          rfl
        have stepped := ih (count + 1) _ next (populateSubject_table ready table there)
        rw [List.zipIdx_cons, List.foldl_cons, List.length_cons, show count + (list.length + 1) = count + 1 + list.length by omega]
        exact stepped
  have whole := walk (heap.children root) 0 _ rfl begins
  rwa [Nat.zero_add] at whole

end Subjects

end Etpan.Thread
