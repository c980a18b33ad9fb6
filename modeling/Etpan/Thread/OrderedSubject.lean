import Etpan.Data.Comparator
import Etpan.Thread.References
import Etpan.Data.Regroup

namespace Etpan.Thread

open Etpan.Data

/-! The comparison functions that `qsort` gets in `driver/tools/mailthread.c`. -/

/-- The comparison of two base subjects, of which NULL is the least. -/
def subjectCompare (subj1 subj2 : Option (List UInt8)) : Int :=
  match subj1, subj2 with
  | some subj1, some subj2 => strcmp subj1 subj2
  | none, none => 0
  | none, some _ => -1
  | some _, none => 1

section Compare

variable (msgTab : List (Option Mailmessage)) (heap : Heap)

/-- `tree_subj_time_comp`, for nodes that have a message.  The indices are cut to 32 bits
before they are subtracted, and so is the difference. -/
def treeSubjTimeComp (tree1 tree2 : Nat) : Int :=
  let r := subjectCompare (heap.node tree1).baseSubject (heap.node tree2).baseSubject
  if r ≠ 0 then r
  else
    let date1 := (heap.node tree1).date
    let date2 := (heap.node tree2).date
    if date1 = -1 ∨ date2 = -1 then
      ((treeGetIndex msgTab heap tree1).bmod (2 ^ 32) - (treeGetIndex msgTab heap tree2).bmod (2 ^ 32)).bmod (2 ^ 32)
    else (date1 - date2).bmod (2 ^ 32)

def treeDate (tree : Nat) : Option Int :=
  if treeGetDate heap tree = -1 then none else some (treeGetDate heap tree)

/-- What the comparison of two trees is about: their dates, or their indices when one has no date. -/
def treeDifference : Nat → Nat → Int := keyedDifference (treeDate heap) (treeGetIndex msgTab heap)

def treeSubjectCompare (tree1 tree2 : Nat) : Int :=
  subjectCompare (heap.node tree1).baseSubject (heap.node tree2).baseSubject

end Compare

variable {msgTab : List (Option Mailmessage)} {heap : Heap}

def subjectKey : Option (List UInt8) → WithBot (List Nat)
  | none => ⊥
  | some subj => octetNumbers subj

theorem subjectCompare_neg_iff (subj1 subj2 : Option (List UInt8)) :
    subjectCompare subj1 subj2 < 0 ↔ subjectKey subj1 < subjectKey subj2 := by
  cases subj1 with
  | none => cases subj2 <;> simp [subjectCompare, subjectKey, WithBot.bot_lt_coe]
  | some first =>
      cases subj2 with
      | none => simp [subjectCompare, subjectKey]
      | some second => exact (strcmp_neg_iff first second).trans WithBot.coe_lt_coe.symm

theorem subjectCompare_swap (subj1 subj2 : Option (List UInt8)) :
    subjectCompare subj2 subj1 = - subjectCompare subj1 subj2 := by
  cases subj1 with
  | none => cases subj2 <;> rfl
  | some first =>
      cases subj2 with
      | none => rfl
      | some second => exact strcmp_swap first second

theorem subjectCompare_eq_zero_iff (subj1 subj2 : Option (List UInt8)) :
    subjectCompare subj1 subj2 = 0 ↔ subj1 = subj2 := by
  cases subj1 <;> cases subj2 <;> simp [subjectCompare, strcmp_eq_zero_iff]

theorem orders_treeSubjectCompare (trees : Set Nat) : Orders (treeSubjectCompare heap) trees :=
  Orders.of_key (fun tree => subjectKey (heap.node tree).baseSubject)
    (fun _ _ => subjectCompare_neg_iff _ _)
    (fun tree1 tree2 => by
      rw [← subjectCompare_neg_iff, subjectCompare_swap (heap.node tree1).baseSubject, treeSubjectCompare]
      omega)

theorem treeDate_undated {tree : Nat} (undated : treeGetDate heap tree = -1) : treeDate heap tree = none :=
  if_pos undated

theorem treeDate_dated {tree : Nat} (dated : treeGetDate heap tree ≠ -1) :
    treeDate heap tree = some (treeGetDate heap tree) :=
  if_neg dated

theorem mailthreadTreeTimecomp_eq (tree1 tree2 : Nat) :
    mailthreadTreeTimecomp msgTab heap tree1 tree2 = (treeDifference msgTab heap tree1 tree2).bmod (2 ^ 32) := by
  rw [mailthreadTreeTimecomp, treeDifference]
  by_cases undated1 : treeGetDate heap tree1 = -1
  · rw [keyedDifference_undated (Or.inl (treeDate_undated undated1)), if_pos (Or.inl undated1)]
  · by_cases undated2 : treeGetDate heap tree2 = -1
    · rw [keyedDifference_undated (Or.inr (treeDate_undated undated2)), if_pos (Or.inr undated2)]
    · rw [keyedDifference_dated (treeDate_dated undated1) (treeDate_dated undated2), if_neg (not_or.mpr ⟨undated1, undated2⟩)]

theorem treeSubjTimeComp_eq {tree1 tree2 : Nat} (message1 : heap.msg tree1 ≠ none) (message2 : heap.msg tree2 ≠ none) :
    treeSubjTimeComp msgTab heap tree1 tree2 =
      lexCompare (treeSubjectCompare heap) (mailthreadTreeTimecomp msgTab heap) tree1 tree2 := by
  have own : ∀ {tree}, heap.msg tree ≠ none → treeGetDate heap tree = (heap.node tree).date := fun message =>
    if_pos message
  rw [treeSubjTimeComp, lexCompare, treeSubjectCompare, mailthreadTreeTimecomp, own message1, own message2]
  simp only [Int.bmod_sub_bmod, Int.sub_bmod_bmod]

/-- The two comparisons of the threading are orders of the given trees and agree with the
exact differences; the trees that are compared by subject have messages. -/
structure CompareAsIntegers (msgTab : List (Option Mailmessage)) (heap : Heap) (trees : Set Nat) : Prop where
  timecompOrders : Orders (mailthreadTreeTimecomp msgTab heap) trees
  timecompAgrees : Agree (mailthreadTreeTimecomp msgTab heap) (treeDifference msgTab heap) trees
  subjTimeCompOrders : Orders (treeSubjTimeComp msgTab heap) {tree ∈ trees | heap.msg tree ≠ none}
  subjTimeCompAgrees : Agree (treeSubjTimeComp msgTab heap)
    (lexCompare (treeSubjectCompare heap) (treeDifference msgTab heap)) {tree ∈ trees | heap.msg tree ≠ none}

/-- No difference of two dates or two indices changes its sign in 32 bits, and trees
without a date separate the others. -/
structure Comparable (msgTab : List (Option Mailmessage)) (heap : Heap) (trees : Set Nat) : Prop where
  keepsSign : ∀ tree1 ∈ trees, ∀ tree2 ∈ trees, KeepsSign 32 (treeDifference msgTab heap tree1 tree2)
  separates : Separates (treeDate heap) (treeGetIndex msgTab heap) trees

variable {trees : Set Nat}

theorem timecomp_agree_iff :
    Agree (mailthreadTreeTimecomp msgTab heap) (treeDifference msgTab heap) trees ↔
      ∀ tree1 ∈ trees, ∀ tree2 ∈ trees, KeepsSign 32 (treeDifference msgTab heap tree1 tree2) := by
  refine forall₄_congr fun tree1 _ tree2 _ => ?_
  rw [mailthreadTreeTimecomp_eq]
  exact bmod_sign_iff (by decide) _

theorem subjTimeComp_agree_lexCompare :
    Agree (treeSubjTimeComp msgTab heap) (lexCompare (treeSubjectCompare heap) (mailthreadTreeTimecomp msgTab heap))
      {tree ∈ trees | heap.msg tree ≠ none} :=
  fun _ message1 _ message2 => by rw [treeSubjTimeComp_eq message1.2 message2.2]

theorem compareAsIntegers_iff : CompareAsIntegers msgTab heap trees ↔ Comparable msgTab heap trees := by
  constructor
  · intro compare
    exact { keepsSign := timecomp_agree_iff.mp compare.timecompAgrees
            separates := (compare.timecompAgrees.orders_iff.mp compare.timecompOrders).separates }
  · intro comparable
    have agrees := timecomp_agree_iff.mpr comparable.keepsSign
    have orders := agrees.orders comparable.separates.orders
    have messages : {tree ∈ trees | heap.msg tree ≠ none} ⊆ trees := fun _ member => member.1
    refine ⟨orders, agrees, ?_, ?_⟩
    · refine subjTimeComp_agree_lexCompare.orders ((orders_lexCompare_iff (orders_treeSubjectCompare _)).mpr ?_)
      intro tree _
      exact orders.mono fun _ member => messages member.1
    · intro tree1 member1 tree2 member2
      rw [subjTimeComp_agree_lexCompare tree1 member1 tree2 member2]
      exact agree_lexCompare_iff.mpr (fun a inA b inB _ => agrees a (messages inA) b (messages inB))
        tree1 member1 tree2 member2

section Threads

def datedMail (origDate : Option Int) (msgIndex : Nat) : Mailmessage :=
  { hasFields := true, msgIndex, messageId := none, references := none, inReplyTo := none, subject := none, origDate }

def nodesOf (msgTab : List (Option Mailmessage)) : Heap :=
  { node := fun tree => { Node.blank with
      date := (message msgTab tree).elim (-1) getDate, msg := (message msgTab tree).map fun _ => tree }
    size := msgTab.length }

def farApart : List (Option Mailmessage) := [some (datedMail (some 0) 1), some (datedMail (some 2147483653) 2)]

def undatedBetween : List (Option Mailmessage) :=
  [some (datedMail (some 10) 1), some (datedMail none 2), some (datedMail (some 5) 3)]

theorem not_compareAsIntegers :
    ¬ CompareAsIntegers farApart (nodesOf farApart) {0, 1} ∧
      ¬ Orders (mailthreadTreeTimecomp undatedBetween (nodesOf undatedBetween)) {0, 1, 2} := by
  constructor
  · intro compare
    exact absurd (compare.timecompAgrees 0 (by simp) 1 (by simp)) (by decide)
  · intro orders
    exact absurd (orders.transitive 0 (by simp) 1 (by simp) 2 (by simp) (by decide) (by decide)) (by decide)

end Threads

end Etpan.Thread

namespace Etpan.Thread

open Etpan.Data

/-! ORDEREDSUBJECT threading, `driver/tools/mailthread.c`. -/

section Algorithm

variable (services : Services) (msgTab : List (Option Mailmessage))

/-- `get_extracted_subject` for a node that has the message. -/
def getExtractedSubject (heap : Heap) (mail : Mailmessage) (envTree : Nat) : Heap :=
  match mail.subject with
  | none => heap
  | some subject =>
      let extracted := services.extractSubject subject
      heap.modify envTree fun node =>
        { node with baseSubject := some extracted.1, isReply := node.isReply || extracted.2 }

def addThread (heap : Heap) (msg : Nat) : Heap :=
  match message msgTab msg with
  | none => heap
  | some mail =>
      if mail.hasFields then
        let (heap, envTree) := mailmessageTreeNew heap none (getDate mail) (some msg)
        getExtractedSubject services ((heap.setParent envTree (some root)).addChild root envTree) mail envTree
      else heap

def collectThreads : Heap :=
  let (heap, _) := mailmessageTreeNew .empty none (-1) none
  (List.range msgTab.length).foldl (addThread services msgTab) heap

/-- The test for one thread: two base subjects that are not NULL and for which `strcmp` is 0. -/
def sameSubject (heap : Heap) (envTree other : Nat) : Bool :=
  match (heap.node envTree).baseSubject, (heap.node other).baseSubject with
  | some subject, some otherSubject => strcmp subject otherSubject = 0
  | _, _ => false

/-- The loop that splits the sorted array into threads.  `none` stands for a run of more
than the given number of steps. -/
def splitThreads : Nat → Heap → Option Nat → Nat → Option Heap
  | 0, _, _, _ => none
  | steps + 1, heap, currentThread, cur =>
      match (heap.children root)[cur]? with
      | none => some heap
      | some curEnvTree =>
          match currentThread with
          | none => splitThreads steps heap (some curEnvTree) (cur + 1)
          | some current =>
              if sameSubject heap curEnvTree current = true then
                let heap := (heap.setParent curEnvTree (some current)).addChild current curEnvTree
                splitThreads steps (heap.setChildren root (carrayDelete (heap.children root) cur)) (some curEnvTree) cur
              else splitThreads steps heap (some curEnvTree) (cur + 1)

def mailBuildThreadOrderedsubject : Option Heap := do
  let collected := collectThreads services msgTab
  let sorted ← mailThreadSort services (treeSubjTimeComp msgTab) false (collected.size + 1) collected root
  let split ← splitThreads ((sorted.children root).length + 1) sorted none 0
  mailThreadSort services (services.compFunc.getD (mailthreadTreeTimecomp msgTab)) false (split.size + 1) split root

end Algorithm

def Heap.data (heap : Heap) (tree : Nat) : Node := { heap.node tree with parent := none, children := [] }

namespace Heap

variable (heap : Heap) (tree : Nat)

@[simp] theorem data_setChildren (array : List Nat) (other : Nat) : (heap.setChildren tree array).data other = heap.data other := by
  rw [data, setChildren, modify_node, data]
  split
  · next here => rw [here]
  · rfl

@[simp] theorem data_setParent (above : Option Nat) (other : Nat) : (heap.setParent tree above).data other = heap.data other := by
  rw [data, setParent, modify_node, data]
  split
  · next here => rw [here]
  · rfl

@[simp] theorem data_addChild (child other : Nat) : (heap.addChild tree child).data other = heap.data other := by
  rw [addChild, data_setChildren]

end Heap

variable {services : Services} {msgTab : List (Option Mailmessage)} {heap other : Heap}

theorem fields_of_data {tree : Nat} (same : heap.data tree = other.data tree) :
    (heap.node tree).date = (other.node tree).date ∧ (heap.node tree).msg = (other.node tree).msg ∧
      (heap.node tree).baseSubject = (other.node tree).baseSubject := by
  simp only [Heap.data, Node.mk.injEq] at same
  exact ⟨same.2.1, same.2.2.1, same.2.2.2.2.2.1⟩

theorem msg_of_data {tree : Nat} (same : heap.data tree = other.data tree) : heap.msg tree = other.msg tree :=
  (fields_of_data same).2.1

theorem sameSubject_of_data {a b : Nat} (sameA : heap.data a = other.data a) (sameB : heap.data b = other.data b) :
    sameSubject heap a b = sameSubject other a b := by
  rw [sameSubject, sameSubject, (fields_of_data sameA).2.2, (fields_of_data sameB).2.2]

theorem treeSubjTimeComp_of_data {a b : Nat} (sameA : heap.data a = other.data a) (sameB : heap.data b = other.data b) :
    treeSubjTimeComp msgTab heap a b = treeSubjTimeComp msgTab other a b := by
  obtain ⟨dateA, _, subjectA⟩ := fields_of_data sameA
  obtain ⟨dateB, _, subjectB⟩ := fields_of_data sameB
  have indexA : treeGetIndex msgTab heap a = treeGetIndex msgTab other a := by
    rw [treeGetIndex, treeGetIndex, msg_of_data sameA]
  have indexB : treeGetIndex msgTab heap b = treeGetIndex msgTab other b := by
    rw [treeGetIndex, treeGetIndex, msg_of_data sameB]
  simp only [treeSubjTimeComp, subjectA, subjectB, dateA, dateB, indexA, indexB]

theorem sameSubject_iff (a b : Nat) :
    sameSubject heap a b = true ↔
      ∃ subject, (heap.node a).baseSubject = some subject ∧ (heap.node b).baseSubject = some subject := by
  rw [sameSubject]
  cases (heap.node a).baseSubject with
  | none => simp
  | some subject =>
      cases (heap.node b).baseSubject with
      | none => simp
      | some otherSubject => simp [strcmp_eq_zero_iff, @eq_comm _ otherSubject]

theorem sameSubject_symm (a b : Nat) : sameSubject heap a b = sameSubject heap b a := by
  rw [Bool.eq_iff_iff, sameSubject_iff, sameSubject_iff]
  exact exists_congr fun subject => and_comm

theorem sameSubject_trans {a b c : Nat} (left : sameSubject heap a b = true) (right : sameSubject heap b c = true) :
    sameSubject heap a c = true := by
  rw [sameSubject_iff] at left right ⊢
  obtain ⟨subject, subjectA, subjectB⟩ := left
  obtain ⟨another, another_b, subjectC⟩ := right
  rw [subjectB] at another_b
  cases another_b
  exact ⟨subject, subjectA, subjectC⟩

theorem treeSubjectCompare_of_comp {a b : Nat} (below : treeSubjTimeComp msgTab heap a b ≤ 0) :
    treeSubjectCompare heap a b ≤ 0 := by
  rw [treeSubjTimeComp] at below
  rw [treeSubjectCompare]
  by_cases differ : subjectCompare (heap.node a).baseSubject (heap.node b).baseSubject ≠ 0
  · rwa [if_pos differ] at below
  · omega

theorem sameSubject_convex (array : List Nat) :
    Convex (sameSubject heap) (fun a b => treeSubjTimeComp msgTab heap a b ≤ 0) array := by
  intro a _ b _ c _ left right equal
  obtain ⟨subject, subjectA, subjectC⟩ := (sameSubject_iff a c).mp equal
  have orders := @orders_treeSubjectCompare heap Set.univ
  have ab := treeSubjectCompare_of_comp left
  have bc := treeSubjectCompare_of_comp right
  have ca : treeSubjectCompare heap c a = 0 := by
    rw [treeSubjectCompare, subjectCompare_eq_zero_iff, subjectA, subjectC]
  have ba := orders.transitive b trivial c trivial a trivial bc (le_of_eq ca)
  have opposite := orders.antisymmetric a trivial b trivial
  have tied : treeSubjectCompare heap a b = 0 := by omega
  have subjectB : (heap.node b).baseSubject = some subject :=
    ((subjectCompare_eq_zero_iff _ _).mp tied).symm.trans subjectA
  exact ⟨(sameSubject_iff a b).mpr ⟨subject, subjectA, subjectB⟩, (sameSubject_iff b c).mpr ⟨subject, subjectB, subjectC⟩⟩

end Etpan.Thread
