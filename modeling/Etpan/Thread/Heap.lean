import Etpan.Data.Bytes
import Etpan.Data.Forest

namespace Etpan.Thread

open Etpan.Data

/-! The tree nodes of `driver/tools/mailthread_types.c`.

Nodes are numbered in the order in which they are allocated and a message is its
position in `msg_tab`.  Allocation does not fail here. -/

structure Node where
  msgid : Option (List UInt8)
  date : Int
  msg : Option Nat
  parent : Option Nat
  children : List Nat
  baseSubject : Option (List UInt8)
  isReply : Bool
deriving Repr, DecidableEq

def Node.blank : Node :=
  { msgid := none, date := -1, msg := none, parent := none, children := [], baseSubject := none, isReply := false }

structure Heap where
  node : Nat → Node
  size : Nat

namespace Heap

def empty : Heap := { node := fun _ => .blank, size := 0 }

def modify (heap : Heap) (tree : Nat) (change : Node → Node) : Heap :=
  { heap with node := Function.update heap.node tree (change (heap.node tree)) }

def children (heap : Heap) (tree : Nat) : List Nat := (heap.node tree).children

def parent (heap : Heap) (tree : Nat) : Option Nat := (heap.node tree).parent

def msg (heap : Heap) (tree : Nat) : Option Nat := (heap.node tree).msg

def setChildren (heap : Heap) (tree : Nat) (children : List Nat) : Heap :=
  heap.modify tree ({ · with children })

def setParent (heap : Heap) (tree : Nat) (parent : Option Nat) : Heap :=
  heap.modify tree ({ · with parent })

/-- `carray_add` to the child array of a node. -/
def addChild (heap : Heap) (tree child : Nat) : Heap :=
  heap.setChildren tree (heap.children tree ++ [child])

end Heap

def mailmessageTreeNew (heap : Heap) (msgid : Option (List UInt8)) (date : Int) (msg : Option Nat) : Heap × Nat :=
  ({ node := Function.update heap.node heap.size { Node.blank with msgid, date, msg }
     size := heap.size + 1 }, heap.size)

/-- A freed node keeps nothing. -/
def mailmessageTreeFree (heap : Heap) (tree : Nat) : Heap := heap.modify tree fun _ => .blank

/-- The last element takes the place of the deleted one. -/
def carrayDelete (array : List Nat) (indx : Nat) : List Nat :=
  (array.set indx ((array.getLast?).getD 0)).dropLast


namespace Heap

variable (heap : Heap) (tree : Nat)

@[simp] theorem modify_size (change : Node → Node) : (heap.modify tree change).size = heap.size := rfl

theorem modify_node (change : Node → Node) (other : Nat) :
    (heap.modify tree change).node other = if other = tree then change (heap.node tree) else heap.node other :=
  Function.update_apply heap.node tree _ other

@[simp] theorem setChildren_size (array : List Nat) : (heap.setChildren tree array).size = heap.size := rfl

@[simp] theorem setChildren_children (array : List Nat) (other : Nat) :
    (heap.setChildren tree array).children other = if other = tree then array else heap.children other := by
  rw [children, setChildren, modify_node, apply_ite Node.children]
  rfl

@[simp] theorem setChildren_parent (array : List Nat) (other : Nat) :
    (heap.setChildren tree array).parent other = heap.parent other := by
  rw [parent, setChildren, modify_node, parent]
  split
  · next here => rw [here]
  · rfl

@[simp] theorem setChildren_msg (array : List Nat) (other : Nat) :
    (heap.setChildren tree array).msg other = heap.msg other := by
  rw [msg, setChildren, modify_node, msg]
  split
  · next here => rw [here]
  · rfl

@[simp] theorem setParent_size (above : Option Nat) : (heap.setParent tree above).size = heap.size := rfl

@[simp] theorem setParent_children (above : Option Nat) (other : Nat) :
    (heap.setParent tree above).children other = heap.children other := by
  rw [children, setParent, modify_node, children]
  split
  · next here => rw [here]
  · rfl

@[simp] theorem setParent_parent (above : Option Nat) (other : Nat) :
    (heap.setParent tree above).parent other = if other = tree then above else heap.parent other := by
  rw [parent, setParent, modify_node, apply_ite Node.parent]
  rfl

@[simp] theorem setParent_msg (above : Option Nat) (other : Nat) :
    (heap.setParent tree above).msg other = heap.msg other := by
  rw [msg, setParent, modify_node, msg]
  split
  · next here => rw [here]
  · rfl

variable (child : Nat)

@[simp] theorem addChild_size : (heap.addChild tree child).size = heap.size := rfl

@[simp] theorem addChild_children (other : Nat) :
    (heap.addChild tree child).children other =
      if other = tree then heap.children tree ++ [child] else heap.children other := by
  rw [addChild, setChildren_children]

@[simp] theorem addChild_parent (other : Nat) : (heap.addChild tree child).parent other = heap.parent other := by
  rw [addChild, setChildren_parent]

@[simp] theorem addChild_msg (other : Nat) : (heap.addChild tree child).msg other = heap.msg other := by
  rw [addChild, setChildren_msg]

end Heap

section New

variable (heap : Heap) (msgid : Option (List UInt8)) (date : Int) (msg : Option Nat)

@[simp] theorem mailmessageTreeNew_tree : (mailmessageTreeNew heap msgid date msg).2 = heap.size := rfl

@[simp] theorem mailmessageTreeNew_size : (mailmessageTreeNew heap msgid date msg).1.size = heap.size + 1 := rfl

theorem mailmessageTreeNew_node (other : Nat) :
    (mailmessageTreeNew heap msgid date msg).1.node other =
      if other = heap.size then { Node.blank with msgid, date, msg } else heap.node other :=
  Function.update_apply heap.node heap.size _ other

@[simp] theorem mailmessageTreeNew_children (other : Nat) :
    (mailmessageTreeNew heap msgid date msg).1.children other =
      if other = heap.size then [] else heap.children other := by
  rw [Heap.children, mailmessageTreeNew_node, apply_ite Node.children]
  rfl

@[simp] theorem mailmessageTreeNew_parent (other : Nat) :
    (mailmessageTreeNew heap msgid date msg).1.parent other =
      if other = heap.size then none else heap.parent other := by
  rw [Heap.parent, mailmessageTreeNew_node, apply_ite Node.parent]
  rfl

@[simp] theorem mailmessageTreeNew_msg (other : Nat) :
    (mailmessageTreeNew heap msgid date msg).1.msg other = if other = heap.size then msg else heap.msg other := by
  rw [Heap.msg, mailmessageTreeNew_node, apply_ite Node.msg]
  rfl

end New

section Free

variable (heap : Heap) (tree : Nat)

@[simp] theorem mailmessageTreeFree_size : (mailmessageTreeFree heap tree).size = heap.size := rfl

theorem mailmessageTreeFree_node (other : Nat) :
    (mailmessageTreeFree heap tree).node other = if other = tree then Node.blank else heap.node other :=
  Heap.modify_node heap tree _ other

@[simp] theorem mailmessageTreeFree_children (other : Nat) :
    (mailmessageTreeFree heap tree).children other = if other = tree then [] else heap.children other := by
  rw [Heap.children, mailmessageTreeFree_node, apply_ite Node.children]
  rfl

@[simp] theorem mailmessageTreeFree_parent (other : Nat) :
    (mailmessageTreeFree heap tree).parent other = if other = tree then none else heap.parent other := by
  rw [Heap.parent, mailmessageTreeFree_node, apply_ite Node.parent]
  rfl

@[simp] theorem mailmessageTreeFree_msg (other : Nat) :
    (mailmessageTreeFree heap tree).msg other = if other = tree then none else heap.msg other := by
  rw [Heap.msg, mailmessageTreeFree_node, apply_ite Node.msg]
  rfl

end Free

theorem carrayDelete_perm {array : List Nat} {indx tree : Nat} (found : array[indx]? = some tree) :
    (tree :: carrayDelete array indx).Perm array := by
  obtain ⟨before, after, rfl, rfl⟩ : ∃ before after, array = before ++ tree :: after ∧ indx = before.length := by
    obtain ⟨inside, here⟩ := List.getElem?_eq_some_iff.mp found
    refine ⟨array.take indx, array.drop (indx + 1), ?_, by simp [inside.le]⟩
    rw [← here, List.cons_getElem_drop_succ, List.take_append_drop]
  rcases List.eq_nil_or_concat after with rfl | ⟨middle, last, rfl⟩
  · have deleted : carrayDelete (before ++ [tree]) before.length = before := by
      simp [carrayDelete]
    rw [deleted]
    exact (List.perm_append_singleton tree before).symm
  · have deleted : carrayDelete (before ++ tree :: middle.concat last) before.length = before ++ last :: middle := by
      have joined : before ++ tree :: middle.concat last = (before ++ tree :: middle) ++ [last] := by simp
      have set : ((before ++ tree :: middle) ++ [last]).set before.length last =
          (before ++ last :: middle) ++ [last] := by simp
      rw [carrayDelete, joined, List.getLast?_concat, Option.getD_some, set, List.dropLast_concat]
    rw [deleted]
    have moved : (last :: middle).Perm (middle.concat last) := by
      rw [List.concat_eq_append]
      exact (List.perm_append_singleton last middle).symm
    exact ((moved.append_left before).cons tree).trans List.perm_middle.symm

end Etpan.Thread
