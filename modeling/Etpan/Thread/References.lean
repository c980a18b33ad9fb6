import Etpan.Thread.Heap

namespace Etpan.Thread

open Etpan.Data

/-! REFERENCES threading, `driver/tools/mailthread.c`. -/

structure Mailmessage where
  /-- `msg_fields` is not NULL. -/
  hasFields : Bool
  msgIndex : Nat
  messageId : Option (List UInt8)
  references : Option (List (List UInt8))
  inReplyTo : Option (List (List UInt8))
  subject : Option (List UInt8)
  /-- The time that `get_date` computes from the Date field. -/
  origDate : Option Int
deriving Repr, DecidableEq

/-- The functions that the threading calls and that are not modelled: `extract_subject`
(the base subject and whether it is a reply or forward), the generator of message
identifiers, `qsort` of the C library and the caller's comparison (NULL is `none`). -/
structure Services where
  extractSubject : List UInt8 → List UInt8 × Bool
  mailimfGetMessageId : Nat → List UInt8
  qsort : (Nat → Nat → Int) → List Nat → List Nat
  qsort_perm : ∀ compare array, (qsort compare array).Perm array
  compFunc : Option (Heap → Nat → Nat → Int)

section Algorithm

variable (services : Services) (msgTab : List (Option Mailmessage))

def message (msg : Nat) : Option Mailmessage := (msgTab[msg]?).join

def getDate (msg : Mailmessage) : Int := msg.origDate.getD (-1)

def root : Nat := 0

/-- The hash tables are lists of entries, the newest first. -/
structure LinkState where
  heap : Heap
  msgIdHash : List (List UInt8 × Nat)
  msgList : List Nat

def collectMessage (state : LinkState) (msg : Nat) : LinkState :=
  match message msgTab msg with
  | none => state
  | some mail =>
      if mail.hasFields then
        let msgid := match mail.messageId with
          | none => services.mailimfGetMessageId state.heap.size
          | some msgid =>
              if (state.msgIdHash.lookup msgid).isSome then services.mailimfGetMessageId state.heap.size else msgid
        let (heap, envTree) := mailmessageTreeNew state.heap (some msgid) (getDate mail) (some msg)
        { heap, msgIdHash := (msgid, envTree) :: state.msgIdHash, msgList := state.msgList ++ [envTree] }
      else state

def collectMessages : LinkState :=
  let (heap, _) := mailmessageTreeNew .empty none (-1) none
  (List.range msgTab.length).foldl (collectMessage services msgTab) { heap, msgIdHash := [], msgList := [] }

/-- `is_descendant`; its depth is less than the number of nodes. -/
def isDescendant (heap : Heap) : Nat → Nat → Nat → Bool
  | 0, _, _ => false
  | depth + 1, node, maybeChild =>
      (heap.children node).any fun tree =>
        tree == maybeChild || (!(heap.children tree).isEmpty && isDescendant heap depth tree maybeChild)

/-- A node that has no parent goes below another one, unless that is itself or below it. -/
def linkChild (heap : Heap) (child parent : Nat) : Heap :=
  if heap.parent child = none ∧ child ≠ parent ∧ isDescendant heap heap.size child parent = false then
    (heap.setParent child (some parent)).addChild parent child
  else heap

/-- The node of a reference, a new dummy when there is none. -/
def findReference (state : LinkState) (msgid : List UInt8) : LinkState × Nat :=
  match state.msgIdHash.lookup msgid with
  | some envCurTree => (state, envCurTree)
  | none =>
      let (heap, envCurTree) := mailmessageTreeNew state.heap (some msgid) (-1) none
      ({ heap, msgIdHash := (msgid, envCurTree) :: state.msgIdHash, msgList := state.msgList ++ [envCurTree] },
        envCurTree)

def linkReference (current : LinkState × Option Nat) (msgid : List UInt8) : LinkState × Option Nat :=
  let (state, envCurTree) := findReference current.1 msgid
  match current.2 with
  | none => (state, some envCurTree)
  | some lastEnvCurTree => ({ state with heap := linkChild state.heap envCurTree lastEnvCurTree }, some envCurTree)

/-- The references of a message, or what it replies to. -/
def getRef (mail : Mailmessage) : Option (List (List UInt8)) :=
  match mail.references with
  | some ref => some ref
  | none => mail.inReplyTo

def linkMessage (state : LinkState) (envTree : Nat) : LinkState :=
  match (state.heap.msg envTree).bind (message msgTab) with
  | none => state
  | some mail =>
      match getRef mail with
      | none => state
      | some ref =>
          match ref.foldl linkReference (state, none) with
          | (state, none) => state
          | (state, some lastEnvCurTree) => { state with heap := linkChild state.heap envTree lastEnvCurTree }

/-- Step (1).  The list grows while it is walked, but by dummies only, for which the
body does nothing. -/
def linkMessages (state : LinkState) : LinkState :=
  state.msgList.foldl (linkMessage msgTab) state

/-- Step (2). -/
def gatherRoot (heap : Heap) (envTree : Nat) : Heap :=
  if heap.parent envTree = none then (heap.addChild root envTree).setParent envTree (some root) else heap

def gatherRoots (state : LinkState) : Heap := state.msgList.foldl gatherRoot state.heap

/-- The loop that promotes the children of a dummy to the level of the dummy. -/
def promoteChildren (siblings envTree : Nat) : Nat → Heap → Heap
  | 0, heap => heap
  | count + 1, heap =>
      match heap.children envTree with
      | [] => heap
      | child :: _ =>
          let heap := (heap.addChild siblings child).setParent child (heap.parent envTree)
          promoteChildren siblings envTree count
            (heap.setChildren envTree (carrayDelete (heap.children envTree) 0))

/-- What `delete_dummy` does to a node after its children, and the next position.  An
array of siblings is given by the node that has it. -/
def deleteNode (heap : Heap) (siblings cur envTree : Nat) : Heap × Nat :=
  if heap.msg envTree = none then
    if (heap.children envTree).length = 0 then
      let heap := mailmessageTreeFree heap envTree
      (heap.setChildren siblings (carrayDelete (heap.children siblings) cur), cur)
    else if siblings ≠ root ∨ (heap.children envTree).length = 1 then
      let heap := promoteChildren siblings envTree (heap.children envTree).length heap
      let heap := mailmessageTreeFree heap envTree
      (heap.setChildren siblings (carrayDelete (heap.children siblings) cur), cur)
    else (heap, cur + 1)
  else (heap, cur + 1)

/-- The loop that calls `delete_dummy` on an array of siblings from `cur` on.  `none`
stands for a run of more than the given number of steps. -/
def deleteDummies : Nat → Heap → Nat → Nat → Option Heap
  | 0, _, _, _ => none
  | steps + 1, heap, siblings, cur =>
      match (heap.children siblings)[cur]? with
      | none => some heap
      | some envTree =>
          -- the same loop over the children of the node comes first
          match deleteDummies steps heap envTree 0 with
          | none => none
          | some heap =>
              let (heap, next) := deleteNode heap siblings cur envTree
              deleteDummies steps heap siblings next

def treeGetDate (heap : Heap) (tree : Nat) : Int :=
  if heap.msg tree ≠ none then (heap.node tree).date
  else match heap.children tree with
    | [] => -1
    | subtree :: _ => (heap.node subtree).date

def treeGetIndex (heap : Heap) (tree : Nat) : Int :=
  match (heap.msg tree).bind (message msgTab) with
  | none => 0
  | some mail => mail.msgIndex

def mailthreadTreeTimecomp (heap : Heap) (tree1 tree2 : Nat) : Int :=
  let date1 := treeGetDate heap tree1
  let date2 := treeGetDate heap tree2
  if date1 = -1 ∨ date2 = -1 then (treeGetIndex msgTab heap tree1 - treeGetIndex msgTab heap tree2).bmod (2 ^ 32)
  else (date1 - date2).bmod (2 ^ 32)

/-- `none` stands for a tree deeper than `depth`. -/
def mailThreadSort (compare : Heap → Nat → Nat → Int) (sortSub : Bool) : Nat → Heap → Nat → Option Heap
  | 0, _, _ => none
  | depth + 1, heap, tree =>
      let sorted := if sortSub then
        (heap.children tree).foldlM (fun heap subtree => mailThreadSort compare sortSub depth heap subtree) heap
        else some heap
      sorted.map fun heap => heap.setChildren tree (services.qsort (compare heap) (heap.children tree))

/-- The subject of a thread; the depth is less than the number of nodes. -/
def getThreadSubject : Nat → Heap → Nat → Heap × Option (List UInt8)
  | 0, heap, _ => (heap, none)
  | depth + 1, heap, tree =>
      match (heap.msg tree).bind (message msgTab) with
      | some mail =>
          match mail.subject with
          | none => (heap, none)
          | some subject =>
              let extracted := services.extractSubject subject
              (if extracted.2 then heap.modify tree ({ · with isReply := true }) else heap, some extracted.1)
      | none =>
          (heap.children tree).foldl (fun found child =>
            match found.2 with
            | some _ => found
            | none => getThreadSubject depth found.1 child) (heap, none)

structure SubjectState where
  heap : Heap
  subjectHash : List (List UInt8 × Nat)

/-- Step (5) (B) for one child of the root. -/
def populateSubject (state : SubjectState) (child : Nat × Nat) : SubjectState :=
  let (envTree, cur) := child
  match getThreadSubject services msgTab state.heap.size state.heap envTree with
  | (heap, none) => { state with heap }
  | (heap, some baseSubject) =>
      if baseSubject = [] then { state with heap }
      else
        let heap := heap.modify envTree ({ · with baseSubject := some baseSubject })
        match state.subjectHash.lookup baseSubject with
        | none => { heap, subjectHash := (baseSubject, cur) :: state.subjectHash }
        | some _ =>
            -- the source reads the current position here, not the one in the table
            let msgInTable := envTree
            let replace := heap.msg msgInTable ≠ none ∧
              (heap.msg envTree = none ∨ (heap.node msgInTable).isReply = true ∧ (heap.node envTree).isReply = false)
            { heap, subjectHash := if replace then (baseSubject, cur) :: state.subjectHash else state.subjectHash }

def populateSubjects (heap : Heap) : SubjectState :=
  (heap.children root).zipIdx.foldl (populateSubject services msgTab) { heap, subjectHash := [] }

/-- Step (5) (C).  The array of the root has NULL entries here, so it stands apart from
the node. -/
structure MergeState where
  heap : Heap
  rootlist : List (Option Nat)
  subjectHash : List (List UInt8 × Nat)

/-- The position of the thread that the one at `cur` is merged with. -/
def mergeTarget (state : MergeState) (cur : Nat) : Option (Nat × List UInt8 × Nat) := do
  let envTree ← (state.rootlist[cur]?).join
  let baseSubject ← (state.heap.node envTree).baseSubject
  if baseSubject = [] then none
  else
    let mainCur ← state.subjectHash.lookup baseSubject
    if mainCur = cur then none else some (envTree, baseSubject, mainCur)

def mergeDummies (heap : Heap) (envTree mainTree : Nat) : Heap :=
  let children := heap.children envTree
  let heap := heap.setChildren mainTree (heap.children mainTree ++ children)
  let heap := children.foldl (fun heap child => heap.setParent child (some mainTree)) heap
  mailmessageTreeFree (heap.setChildren envTree []) envTree

def nestThread (heap : Heap) (envTree mainTree : Nat) : Heap :=
  (heap.addChild mainTree envTree).setParent envTree (some mainTree)

/-- A new dummy over both threads, which gets no parent. -/
def wrapThreads (state : MergeState) (cur envTree : Nat) (baseSubject : List UInt8) (mainCur mainTree : Nat) :
    MergeState :=
  let (heap, newMainTree) := mailmessageTreeNew state.heap none (-1) none
  let heap := heap.modify newMainTree ({ · with baseSubject := (heap.node mainTree).baseSubject })
  let last := state.rootlist.length
  let heap := nestThread (nestThread heap mainTree newMainTree) envTree newMainTree
  { heap
    rootlist := ((state.rootlist ++ [some newMainTree]).set mainCur none).set cur none
    subjectHash := (baseSubject, last) :: state.subjectHash }

def mergeThread (state : MergeState) (cur envTree : Nat) (baseSubject : List UInt8) (mainCur : Nat) : MergeState :=
  let mainTree := ((state.rootlist[mainCur]?).join).getD 0
  if state.heap.msg envTree = none ∧ state.heap.msg mainTree = none then
    { state with heap := mergeDummies state.heap envTree mainTree, rootlist := state.rootlist.set cur none }
  else if state.heap.msg mainTree = none then
    { state with heap := nestThread state.heap envTree mainTree, rootlist := state.rootlist.set cur none }
  else if (state.heap.node envTree).isReply = true ∧ (state.heap.node mainTree).isReply = false then
    { state with heap := nestThread state.heap envTree mainTree, rootlist := state.rootlist.set cur none }
  else wrapThreads state cur envTree baseSubject mainCur mainTree

/-- `none` stands for a run of more than the given number of steps. -/
def mergeLoop : Nat → MergeState → Nat → Option MergeState
  | 0, _, _ => none
  | steps + 1, state, cur =>
      if cur < state.rootlist.length then
        match mergeTarget state cur with
        | none => mergeLoop steps state (cur + 1)
        | some (envTree, baseSubject, mainCur) =>
            mergeLoop steps (mergeThread state cur envTree baseSubject mainCur) cur
      else some state

/-- Step (5): threads with the same base subject are merged, and the array of the root
loses its NULL entries. -/
def mergeSubjects (heap : Heap) : Option Heap :=
  let populated := populateSubjects services msgTab heap
  let rootlist := (heap.children root).map some
  (mergeLoop (4 * rootlist.length + 1)
    { heap := populated.heap, rootlist, subjectHash := populated.subjectHash } 0).map fun state =>
      state.heap.setChildren root (state.rootlist.filterMap id)

/-- The trees after linking, after pruning, after the subject merge and at the end. -/
structure Threads where
  linked : Heap
  pruned : Heap
  merged : Heap
  result : Heap

def pruneSteps (size : Nat) : Nat := (2 * size + 2) * (size + 1)

def mailBuildThreadReferences (useSubject : Bool) : Option Threads := do
  let linked := gatherRoots (linkMessages msgTab (collectMessages services msgTab))
  let deleted ← deleteDummies (pruneSteps linked.size) linked root 0
  let pruned ← mailThreadSort services (mailthreadTreeTimecomp msgTab) false (deleted.size + 1) deleted root
  let merged ← if useSubject then mergeSubjects services msgTab pruned else some pruned
  let result ← mailThreadSort services (services.compFunc.getD (mailthreadTreeTimecomp msgTab)) true
    (merged.size + 1) merged root
  some { linked, pruned, merged, result }

end Algorithm

end Etpan.Thread
