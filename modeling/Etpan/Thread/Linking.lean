import Etpan.Thread.References

namespace Etpan.Thread

open Etpan.Data Relation

/-! Steps (1) and (2): the messages are linked to a forest below the root. -/

def HasFields (msgTab : List (Option Mailmessage)) (msg : Nat) : Prop :=
  ∃ mail, message msgTab msg = some mail ∧ mail.hasFields = true

/-- The child arrays form a forest and the messages that are present are each at one
node. -/
structure Sound (present : Nat → Prop) (heap : Heap) : Prop where
  forest : Forest heap.children
  inside : ∀ {holder child}, child ∈ heap.children holder → child < heap.size
  started : root < heap.size
  rootOrphan : Orphan heap.children root
  rootDummy : heap.msg root = none
  unallocated : ∀ {tree}, heap.size ≤ tree → heap.children tree = [] ∧ heap.parent tree = none ∧ heap.msg tree = none
  placed : ∀ {msg}, present msg → ∃ tree, heap.msg tree = some msg
  once : ∀ {first second msg}, heap.msg first = some msg → heap.msg second = some msg → first = second
  only : ∀ {tree msg}, heap.msg tree = some msg → present msg

/-- `node_parent` is the node whose array holds the child. -/
def ParentsAgree (heap : Heap) : Prop :=
  ∀ {holder child}, child ∈ heap.children holder → heap.parent child = some holder

section Sound

variable {present : Nat → Prop} {heap : Heap}

theorem Sound.inside_range (sound : Sound present heap) {holder child : Nat} (held : child ∈ heap.children holder) :
    child ∈ Finset.range heap.size :=
  Finset.mem_range.mpr (sound.inside held)

/-- The depth that `is_descendant` is given is enough. -/
theorem isDescendant_iff (sound : Sound present heap) (node maybeChild : Nat) :
    isDescendant heap heap.size node maybeChild = true ↔ TransGen (Holds heap.children) node maybeChild := by
  have correct : ∀ depth node, isDescendant heap depth node maybeChild = true →
      TransGen (Holds heap.children) node maybeChild := by
    intro depth
    induction depth with
    | zero => simp [isDescendant]
    | succ depth ih =>
        intro node found
        simp only [isDescendant, List.any_eq_true, Bool.or_eq_true, beq_iff_eq, Bool.and_eq_true] at found
        obtain ⟨tree, held, rfl | ⟨-, below⟩⟩ := found
        · exact .single held
        · exact .head held (ih tree below)
  have complete : ∀ depth node, Forest.height heap.children (Finset.range heap.size) node ≤ depth →
      TransGen (Holds heap.children) node maybeChild → isDescendant heap depth node maybeChild = true := by
    intro depth
    induction depth with
    | zero =>
        intro node low path
        obtain ⟨tree, held, -⟩ := TransGen.head'_iff.mp path
        have lower := sound.forest.height_lt sound.inside_range held
        omega
    | succ depth ih =>
        intro node low path
        obtain ⟨tree, held, rest⟩ := TransGen.head'_iff.mp path
        have lower := sound.forest.height_lt sound.inside_range held
        simp only [isDescendant, List.any_eq_true, Bool.or_eq_true, beq_iff_eq, Bool.and_eq_true]
        refine ⟨tree, held, ?_⟩
        rcases reflTransGen_iff_eq_or_transGen.mp rest with same | below
        · exact .inl same.symm
        · right
          obtain ⟨next, nextHeld, -⟩ := TransGen.head'_iff.mp below
          have some : (heap.children tree).isEmpty = false := by
            cases listed : heap.children tree with
            | nil =>
                rw [Holds, listed] at nextHeld
                contradiction
            | cons first others => rfl
          exact ⟨by simp [some], ih tree (by omega) below⟩
  constructor
  · exact correct heap.size node
  · apply complete
    have bounded : Forest.height heap.children (Finset.range heap.size) node ≤ (Finset.range heap.size).card :=
      Forest.height_le node
    simpa using bounded

theorem children_new (sound : Sound present heap) (msgid : Option (List UInt8)) (date : Int) (msg : Option Nat) :
    (mailmessageTreeNew heap msgid date msg).1.children = heap.children := by
  funext other
  rw [mailmessageTreeNew_children]
  split
  · next here => rw [here, (sound.unallocated (Nat.le_refl _)).1]
  · rfl

theorem Sound.new (sound : Sound present heap) (msgid : Option (List UInt8)) (date : Int) {msg : Option Nat}
    (fresh : ∀ number, msg = some number → ¬ present number) :
    Sound (fun number => present number ∨ msg = some number) (mailmessageTreeNew heap msgid date msg).1 := by
  have same := children_new sound msgid date msg
  constructor
  case forest =>
    rw [same]
    exact sound.forest
  case inside =>
    intro holder child held
    rw [same] at held
    have bounded := sound.inside held
    rw [mailmessageTreeNew_size]
    omega
  case started =>
    rw [mailmessageTreeNew_size]
    exact Nat.lt_succ_of_lt sound.started
  case rootOrphan =>
    rw [same]
    exact sound.rootOrphan
  case rootDummy =>
    rw [mailmessageTreeNew_msg, if_neg (Nat.ne_of_lt sound.started), sound.rootDummy]
  case unallocated =>
    intro tree outside
    rw [mailmessageTreeNew_size] at outside
    have other : tree ≠ heap.size := by omega
    have free := sound.unallocated (show heap.size ≤ tree by omega)
    rw [mailmessageTreeNew_children, mailmessageTreeNew_parent, mailmessageTreeNew_msg, if_neg other, if_neg other,
      if_neg other]
    exact free
  case placed =>
    rintro number (old | new)
    · obtain ⟨tree, here⟩ := sound.placed old
      have allocated : tree ≠ heap.size := by
        rintro rfl
        rw [(sound.unallocated (Nat.le_refl _)).2.2] at here
        contradiction
      exact ⟨tree, by rw [mailmessageTreeNew_msg, if_neg allocated, here]⟩
    · exact ⟨heap.size, by rw [mailmessageTreeNew_msg, if_pos rfl, new]⟩
  case once =>
    intro first second number inFirst inSecond
    rw [mailmessageTreeNew_msg] at inFirst inSecond
    split at inFirst
    · next isFirst =>
        split at inSecond
        · next isSecond => rw [isFirst, isSecond]
        · exact absurd (sound.only inSecond) (fresh number inFirst)
    · split at inSecond
      · exact absurd (sound.only inFirst) (fresh number inSecond)
      · exact sound.once inFirst inSecond
  case only =>
    intro tree number here
    rw [mailmessageTreeNew_msg] at here
    split at here
    · exact .inr here
    · exact .inl (sound.only here)

theorem Sound.relink (sound : Sound present heap) {heap' : Heap} (sameSize : heap'.size = heap.size)
    (sameMsg : ∀ tree, heap'.msg tree = heap.msg tree) (forest : Forest heap'.children)
    (inside : ∀ {holder child}, child ∈ heap'.children holder → child < heap.size)
    (rootOrphan : Orphan heap'.children root)
    (unallocated : ∀ {tree}, heap.size ≤ tree → heap'.children tree = [] ∧ heap'.parent tree = none) :
    Sound present heap' := by
  constructor
  case forest => exact forest
  case inside =>
    intro holder child held
    rw [sameSize]
    exact inside held
  case started =>
    rw [sameSize]
    exact sound.started
  case rootOrphan => exact rootOrphan
  case rootDummy => rw [sameMsg, sound.rootDummy]
  case unallocated =>
    intro tree outside
    rw [sameSize] at outside
    have free := unallocated outside
    exact ⟨free.1, free.2, by rw [sameMsg, (sound.unallocated outside).2.2]⟩
  case placed =>
    intro msg here
    obtain ⟨tree, at'⟩ := sound.placed here
    exact ⟨tree, by rw [sameMsg, at']⟩
  case once =>
    intro first second msg inFirst inSecond
    rw [sameMsg] at inFirst inSecond
    exact sound.once inFirst inSecond
  case only =>
    intro tree msg here
    rw [sameMsg] at here
    exact sound.only here

structure Attached (heap : Heap) (parent child : Nat) (heap' : Heap) : Prop where
  size : heap'.size = heap.size
  msg : ∀ tree, heap'.msg tree = heap.msg tree
  children : ∀ holder, heap'.children holder =
    if holder = parent then heap.children parent ++ [child] else heap.children holder
  parents : ∀ tree, heap'.parent tree = if tree = child then some parent else heap.parent tree

section Attached

variable {heap' : Heap} {parent child : Nat} (attached : Attached heap parent child heap')

include attached

theorem Attached.mem {holder node : Nat} :
    node ∈ heap'.children holder ↔ node ∈ heap.children holder ∨ holder = parent ∧ node = child := by
  rw [attached.children]
  split
  · next here => simp [here]
  · next other => simp [other]

theorem Attached.sound (sound : Sound present heap) (allocated : parent < heap.size)
    (childAllocated : child < heap.size) (notRoot : child ≠ root) (orphan : Orphan heap.children child)
    (notBelow : ¬ ReflTransGen (Holds heap.children) child parent) : Sound present heap' := by
  have grown : (heap'.children parent).Perm (child :: heap.children parent) := by
    rw [attached.children, if_pos rfl]
    exact List.perm_append_singleton child _
  have same : ∀ holder, holder ≠ parent → heap'.children holder = heap.children holder := by
    intro holder other
    rw [attached.children, if_neg other]
  apply sound.relink attached.size attached.msg (sound.forest.attach orphan notBelow grown same)
  case inside =>
    intro holder node held
    rcases attached.mem.mp held with old | ⟨-, rfl⟩
    · exact sound.inside old
    · exact childAllocated
  case rootOrphan =>
    intro holder held
    rcases attached.mem.mp held with old | ⟨-, isRoot⟩
    · exact sound.rootOrphan holder old
    · exact notRoot isRoot.symm
  case unallocated =>
    intro tree outside
    have free := sound.unallocated outside
    have notParent : tree ≠ parent := by omega
    have notChild : tree ≠ child := by omega
    exact ⟨by rw [same tree notParent, free.1], by rw [attached.parents, if_neg notChild, free.2.1]⟩

theorem Attached.agree (agree : ParentsAgree heap) (orphan : Orphan heap.children child) : ParentsAgree heap' := by
  intro holder node held
  rw [attached.parents]
  rcases attached.mem.mp held with old | ⟨rfl, rfl⟩
  · have notChild : node ≠ child := fun same => orphan holder (same ▸ old)
    rw [if_neg notChild]
    exact agree old
  · rw [if_pos rfl]

theorem Attached.held (held : ∀ {node holder}, heap.parent node = some holder → node ∈ heap.children holder)
    {node holder : Nat} (above : heap'.parent node = some holder) : node ∈ heap'.children holder := by
  rw [attached.parents] at above
  split at above
  · next isChild =>
      have same : parent = holder := by simpa using above
      exact attached.mem.mpr (.inr ⟨same.symm, isChild⟩)
  · exact attached.mem.mpr (.inl (held above))

end Attached

end Sound

/-- The state of step (1): a node has a parent exactly when it is held. -/
structure Linked (present : Nat → Prop) (state : LinkState) : Prop where
  sound : Sound present state.heap
  agree : ParentsAgree state.heap
  held : ∀ {child holder}, state.heap.parent child = some holder → child ∈ state.heap.children holder
  rootAlone : state.heap.children root = [] ∧ state.heap.parent root = none
  entries : ∀ {msgid tree}, state.msgIdHash.lookup msgid = some tree → root < tree ∧ tree < state.heap.size
  listed : ∀ {tree}, tree ∈ state.msgList ↔ root < tree ∧ tree < state.heap.size

section Linked

variable {present : Nat → Prop} {state : LinkState}

theorem orphan_of_parent {heap : Heap} (agree : ParentsAgree heap) {tree : Nat} (none' : heap.parent tree = none) :
    Orphan heap.children tree := by
  intro holder held
  rw [agree held] at none'
  contradiction

theorem Linked.linkChild (linked : Linked present state) {child parent : Nat}
    (childNode : root < child ∧ child < state.heap.size) (parentNode : root < parent ∧ parent < state.heap.size) :
    Linked present { state with heap := linkChild state.heap child parent } := by
  rw [Thread.linkChild]
  split
  case isFalse => exact linked
  case isTrue possible =>
    obtain ⟨single, different, notAbove⟩ := possible
    have orphan := orphan_of_parent linked.agree single
    have notBelow : ¬ ReflTransGen (Holds state.heap.children) child parent := by
      intro below
      rcases reflTransGen_iff_eq_or_transGen.mp below with same | path
      · exact different same.symm
      · rw [(isDescendant_iff linked.sound child parent).mpr path] at notAbove
        contradiction
    have attached : Attached state.heap parent child ((state.heap.setParent child (some parent)).addChild parent child) := by
      constructor
      case size => rfl
      case msg => simp
      case children => simp
      case parents => simp
    constructor
    case sound =>
      exact attached.sound linked.sound parentNode.2 childNode.2 (Nat.ne_of_gt childNode.1) orphan notBelow
    case agree => exact attached.agree linked.agree orphan
    case held => exact attached.held linked.held
    case rootAlone =>
      have notParent : root ≠ parent := Nat.ne_of_lt parentNode.1
      have notChild : root ≠ child := Nat.ne_of_lt childNode.1
      simpa [notParent, notChild] using linked.rootAlone
    case entries =>
      intro msgid tree found
      exact linked.entries found
    case listed =>
      intro tree
      exact linked.listed

theorem Linked.new (linked : Linked present state) (msgid : List UInt8) (date : Int) (msg : Option Nat)
    (fresh : ∀ number, msg = some number → ¬ present number) :
    Linked (fun number => present number ∨ msg = some number)
      { heap := (mailmessageTreeNew state.heap (some msgid) date msg).1
        msgIdHash := (msgid, state.heap.size) :: state.msgIdHash
        msgList := state.msgList ++ [state.heap.size] } := by
  have sound := linked.sound
  have notRoot : root ≠ state.heap.size := Nat.ne_of_lt sound.started
  constructor
  case sound => exact sound.new (some msgid) date fresh
  case agree =>
    intro holder child held
    simp only [children_new sound] at held
    have allocated : child ≠ state.heap.size := Nat.ne_of_lt (sound.inside held)
    rw [mailmessageTreeNew_parent, if_neg allocated]
    exact linked.agree held
  case held =>
    intro child holder above
    simp only [children_new sound]
    rw [mailmessageTreeNew_parent] at above
    split at above
    · contradiction
    · exact linked.held above
  case rootAlone =>
    simp only [children_new sound, mailmessageTreeNew_parent, if_neg notRoot]
    exact linked.rootAlone
  case entries =>
    intro found tree entry
    rw [mailmessageTreeNew_size]
    simp only [List.lookup_cons] at entry
    split at entry
    · have same : state.heap.size = tree := by simpa using entry
      rw [← same]
      exact ⟨sound.started, Nat.lt_succ_self _⟩
    · have old := linked.entries entry
      exact ⟨old.1, Nat.lt_succ_of_lt old.2⟩
  case listed =>
    intro tree
    have started := sound.started
    simp only [List.mem_append, List.mem_singleton, linked.listed, mailmessageTreeNew_size]
    constructor
    · rintro (old | rfl)
      · exact ⟨old.1, Nat.lt_succ_of_lt old.2⟩
      · exact ⟨started, Nat.lt_succ_self _⟩
    · intro bounds
      by_cases isNew : tree = state.heap.size
      · exact .inr isNew
      · exact .inl ⟨bounds.1, by omega⟩

theorem Linked.newDummy (linked : Linked present state) (msgid : List UInt8) :
    Linked present
      { heap := (mailmessageTreeNew state.heap (some msgid) (-1) none).1
        msgIdHash := (msgid, state.heap.size) :: state.msgIdHash
        msgList := state.msgList ++ [state.heap.size] } := by
  have added := linked.new msgid (-1) none (by simp)
  simpa using added

theorem findReference_linked (linked : Linked present state) (msgid : List UInt8) :
    Linked present (findReference state msgid).1 ∧ state.heap.size ≤ (findReference state msgid).1.heap.size ∧
      root < (findReference state msgid).2 ∧ (findReference state msgid).2 < (findReference state msgid).1.heap.size := by
  rw [findReference]
  cases found : state.msgIdHash.lookup msgid with
  | some envCurTree => exact ⟨linked, Nat.le_refl _, linked.entries found⟩
  | none =>
      refine ⟨linked.newDummy msgid, ?_, linked.sound.started, ?_⟩
      · simp
      · simp

/-- The node reached last by a walk over references is a node of the list. -/
def Reached (state : LinkState) (envCurTree : Option Nat) : Prop :=
  ∀ tree, envCurTree = some tree → root < tree ∧ tree < state.heap.size

theorem linkReference_linked {current : LinkState × Option Nat} (linked : Linked present current.1)
    (reached : Reached current.1 current.2) (msgid : List UInt8) :
    Linked present (linkReference current msgid).1 ∧
      current.1.heap.size ≤ (linkReference current msgid).1.heap.size ∧
      Reached (linkReference current msgid).1 (linkReference current msgid).2 := by
  obtain ⟨found, grown, node⟩ := findReference_linked linked msgid
  rw [linkReference]
  generalize findReference current.1 msgid = next at found grown node
  obtain ⟨state, envCurTree⟩ := next
  simp only at found grown node
  cases last : current.2 with
  | none =>
      refine ⟨found, grown, ?_⟩
      rintro tree ⟨⟩
      exact node
  | some lastEnvCurTree =>
      have lastNode := reached lastEnvCurTree last
      have sameSize : (Thread.linkChild state.heap envCurTree lastEnvCurTree).size = state.heap.size := by
        rw [Thread.linkChild]
        split <;> rfl
      refine ⟨found.linkChild node ⟨lastNode.1, lastNode.2.trans_le grown⟩, ?_, ?_⟩
      · simpa [sameSize] using grown
      · rintro tree ⟨⟩
        simpa [sameSize] using node

theorem linkReferences_linked (ref : List (List UInt8)) (current : LinkState × Option Nat)
    (linked : Linked present current.1) (reached : Reached current.1 current.2) :
    Linked present (ref.foldl linkReference current).1 ∧
      current.1.heap.size ≤ (ref.foldl linkReference current).1.heap.size ∧
      Reached (ref.foldl linkReference current).1 (ref.foldl linkReference current).2 := by
  induction ref generalizing current with
  | nil => exact ⟨linked, Nat.le_refl _, reached⟩
  | cons msgid ref ih =>
      obtain ⟨stepped, grown, next⟩ := linkReference_linked linked reached msgid
      obtain ⟨walked, further, last⟩ := ih _ stepped next
      exact ⟨walked, grown.trans further, last⟩

variable (msgTab : List (Option Mailmessage))

theorem linkMessage_linked (linked : Linked present state) {envTree : Nat}
    (node : root < envTree ∧ envTree < state.heap.size) :
    Linked present (linkMessage msgTab state envTree) ∧
      state.heap.size ≤ (linkMessage msgTab state envTree).heap.size := by
  have unchanged : Linked present state ∧ state.heap.size ≤ state.heap.size := ⟨linked, Nat.le_refl _⟩
  have start : Reached state none := by
    intro tree impossible
    contradiction
  rw [linkMessage]
  split
  · exact unchanged
  · split
    · exact unchanged
    · next ref _ =>
        obtain ⟨walked, grown, reached⟩ := linkReferences_linked ref (state, none) linked start
        split
        · next after walk =>
            rw [walk] at walked grown
            exact ⟨walked, grown⟩
        · next after lastEnvCurTree walk =>
            rw [walk] at walked grown reached
            have sameSize : (Thread.linkChild after.heap envTree lastEnvCurTree).size = after.heap.size := by
              rw [Thread.linkChild]
              split <;> rfl
            refine ⟨walked.linkChild ⟨node.1, node.2.trans_le grown⟩ (reached lastEnvCurTree rfl), ?_⟩
            simpa [sameSize] using grown

theorem linkMessages_linked (linked : Linked present state) : Linked present (linkMessages msgTab state) := by
  have walk : ∀ (list : List Nat) (state : LinkState), Linked present state →
      (∀ tree ∈ list, root < tree ∧ tree < state.heap.size) →
      Linked present (list.foldl (linkMessage msgTab) state) := by
    intro list
    induction list with
    | nil => exact fun state linked _ => linked
    | cons envTree list ih =>
        intro state linked nodes
        obtain ⟨stepped, grown⟩ := linkMessage_linked msgTab linked (nodes envTree (by simp))
        apply ih _ stepped
        intro tree member
        have node := nodes tree (by simp [member])
        exact ⟨node.1, node.2.trans_le grown⟩
  exact walk state.msgList state linked fun tree member => linked.listed.mp member

theorem Linked.congr {present' : Nat → Prop} (linked : Linked present state)
    (same : ∀ msg, present msg ↔ present' msg) : Linked present' state := by
  have equal : present = present' := by
    funext msg
    exact propext (same msg)
  exact equal ▸ linked

variable (services : Services)

theorem collectMessage_linked {count : Nat} (linked : Linked (fun msg => HasFields msgTab msg ∧ msg < count) state) :
    Linked (fun msg => HasFields msgTab msg ∧ msg < count + 1) (collectMessage services msgTab state count) := by
  -- a message without header fields changes nothing
  have skipped : ¬ HasFields msgTab count → Linked (fun msg => HasFields msgTab msg ∧ msg < count + 1) state := by
    intro without
    apply linked.congr
    intro msg
    constructor
    · exact fun old => ⟨old.1, Nat.lt_succ_of_lt old.2⟩
    · intro now
      have other : msg ≠ count := fun same => without (same ▸ now.1)
      exact ⟨now.1, by omega⟩
  rw [collectMessage]
  split
  · next missing =>
      apply skipped
      rintro ⟨mail, found, -⟩
      rw [missing] at found
      contradiction
  · next mail found =>
      split
      case isFalse without =>
        apply skipped
        rintro ⟨other, same, fields⟩
        rw [found] at same
        cases same
        exact without fields
      case isTrue fields =>
        have fresh : ∀ number, some count = some number → ¬ (HasFields msgTab number ∧ number < count) := by
          rintro number ⟨⟩
          omega
        apply (linked.new _ (getDate mail) (some count) fresh).congr
        intro msg
        constructor
        · rintro (old | ⟨⟨⟩⟩)
          · exact ⟨old.1, Nat.lt_succ_of_lt old.2⟩
          · exact ⟨⟨mail, found, fields⟩, Nat.lt_succ_self _⟩
        · intro now
          by_cases isNew : msg = count
          · exact .inr (by rw [isNew])
          · exact .inl ⟨now.1, by omega⟩

theorem collectMessages_linked : Linked (HasFields msgTab) (collectMessages services msgTab) := by
  have start : Linked (fun msg => HasFields msgTab msg ∧ msg < 0)
      { heap := (mailmessageTreeNew .empty none (-1) none).1, msgIdHash := [], msgList := [] } := by
    have noChildren : ∀ tree, (mailmessageTreeNew .empty none (-1) none).1.children tree = [] := by
      intro tree
      rw [mailmessageTreeNew_children]
      split <;> rfl
    have noMsg : ∀ tree, (mailmessageTreeNew .empty none (-1) none).1.msg tree = none := by
      intro tree
      rw [mailmessageTreeNew_msg]
      split <;> rfl
    have noParent : ∀ tree, (mailmessageTreeNew .empty none (-1) none).1.parent tree = none := by
      intro tree
      rw [mailmessageTreeNew_parent]
      split <;> rfl
    have noHolder : ∀ {holder child}, child ∉ (mailmessageTreeNew .empty none (-1) none).1.children holder := by
      intro holder child
      simp [noChildren]
    constructor
    case sound =>
      constructor
      case forest =>
        constructor
        case nodup => simp [noChildren]
        case unique => exact fun held => absurd held noHolder
        case acyclic =>
          intro tree cycle
          obtain ⟨child, held, -⟩ := TransGen.head'_iff.mp cycle
          exact noHolder held
      case inside => exact fun held => absurd held noHolder
      case started => decide
      case rootOrphan => exact fun _ => noHolder
      case rootDummy => exact noMsg root
      case unallocated => exact fun {tree} _ => ⟨noChildren tree, noParent tree, noMsg tree⟩
      case placed => simp
      case once => simp [noMsg]
      case only => simp [noMsg]
    case agree => exact fun held => absurd held noHolder
    case held => simp [noParent]
    case rootAlone => exact ⟨noChildren root, noParent root⟩
    case entries => simp
    case listed =>
      intro tree
      have single : (mailmessageTreeNew .empty none (-1) none).1.size = 1 := rfl
      simp only [List.not_mem_nil, false_iff, single, root]
      omega
  have walk : ∀ count, Linked (fun msg => HasFields msgTab msg ∧ msg < count)
      ((List.range count).foldl (collectMessage services msgTab)
        { heap := (mailmessageTreeNew .empty none (-1) none).1, msgIdHash := [], msgList := [] }) := by
    intro count
    induction count with
    | zero => exact start
    | succ count ih =>
        rw [List.range_succ, List.foldl_append]
        exact collectMessage_linked msgTab services ih
  apply (walk msgTab.length).congr
  intro msg
  constructor
  · exact fun now => now.1
  · intro fields
    refine ⟨fields, ?_⟩
    obtain ⟨mail, found, -⟩ := fields
    by_contra outside
    rw [message, List.getElem?_eq_none (by omega)] at found
    contradiction

end Linked

/-- All that carries a message or has children is below the root. -/
structure Rooted (present : Nat → Prop) (heap : Heap) : Prop where
  sound : Sound present heap
  below : ∀ {tree}, heap.msg tree ≠ none ∨ heap.children tree ≠ [] → tree = root ∨ ∃ above, tree ∈ heap.children above

section Gather

variable {present : Nat → Prop} {heap : Heap}

structure Gathered (present : Nat → Prop) (heap : Heap) : Prop where
  sound : Sound present heap
  agree : ParentsAgree heap
  held : ∀ {child holder}, heap.parent child = some holder → child ∈ heap.children holder
  rootParent : heap.parent root = none

theorem gatherRoot_gathered (gathered : Gathered present heap) {envTree : Nat}
    (node : root < envTree ∧ envTree < heap.size) :
    Gathered present (gatherRoot heap envTree) ∧ (gatherRoot heap envTree).size = heap.size ∧
      (gatherRoot heap envTree).parent envTree ≠ none ∧
      ∀ tree, heap.parent tree ≠ none → (gatherRoot heap envTree).parent tree ≠ none := by
  rw [gatherRoot]
  split
  case isFalse already => exact ⟨gathered, rfl, already, fun _ => id⟩
  case isTrue single =>
    have orphan := orphan_of_parent gathered.agree single
    have notRoot : envTree ≠ root := Nat.ne_of_gt node.1
    have notBelow : ¬ ReflTransGen (Holds heap.children) envTree root := by
      intro below
      exact notRoot (Forest.eq_of_below_orphan gathered.sound.rootOrphan below)
    have attached : Attached heap root envTree ((heap.addChild root envTree).setParent envTree (some root)) := by
      constructor
      case size => rfl
      case msg => simp
      case children => simp
      case parents => simp
    refine ⟨?_, rfl, by simp, ?_⟩
    · constructor
      case sound => exact attached.sound gathered.sound gathered.sound.started node.2 notRoot orphan notBelow
      case agree => exact attached.agree gathered.agree orphan
      case held => exact attached.held gathered.held
      case rootParent => simpa [Ne.symm notRoot] using gathered.rootParent
    · intro tree above
      simp only [Heap.setParent_parent, Heap.addChild_parent]
      split
      · simp
      · exact above

structure Threaded (present : Nat → Prop) (heap : Heap) : Prop where
  rooted : Rooted present heap
  agree : ParentsAgree heap
  rootParent : heap.parent root = none

theorem gatherRoots_threaded {state : LinkState} (linked : Linked present state) :
    Threaded present (gatherRoots state) := by
  have walk : ∀ (list : List Nat) (heap : Heap), Gathered present heap →
      (∀ tree ∈ list, root < tree ∧ tree < heap.size) →
      Gathered present (list.foldl gatherRoot heap) ∧ (list.foldl gatherRoot heap).size = heap.size ∧
        (∀ tree ∈ list, (list.foldl gatherRoot heap).parent tree ≠ none) ∧
        ∀ tree, heap.parent tree ≠ none → (list.foldl gatherRoot heap).parent tree ≠ none := by
    intro list
    induction list with
    | nil => exact fun heap gathered _ => ⟨gathered, rfl, by simp, fun _ => id⟩
    | cons envTree list ih =>
        intro heap gathered nodes
        obtain ⟨stepped, sameSize, parented, kept⟩ := gatherRoot_gathered gathered (nodes envTree (by simp))
        obtain ⟨walked, walkedSize, others, further⟩ := ih _ stepped fun tree member => by
          rw [sameSize]
          exact nodes tree (by simp [member])
        refine ⟨walked, walkedSize.trans sameSize, ?_, fun tree above => further tree (kept tree above)⟩
        intro tree member
        rcases List.mem_cons.mp member with rfl | later
        · exact further tree parented
        · exact others tree later
  obtain ⟨gathered, sameSize, parented, -⟩ := walk state.msgList state.heap
    ⟨linked.sound, linked.agree, linked.held, linked.rootAlone.2⟩ fun tree member => linked.listed.mp member
  refine ⟨⟨gathered.sound, ?_⟩, gathered.agree, gathered.rootParent⟩
  intro tree used
  by_cases isRoot : tree = root
  · exact .inl isRoot
  · right
    have allocated : tree < state.heap.size := by
      by_contra outside
      have free := gathered.sound.unallocated (show (gatherRoots state).size ≤ tree by
        rw [gatherRoots, sameSize]
        omega)
      rcases used with msg | children
      · exact msg free.2.2
      · exact children free.1
    have listed : tree ∈ state.msgList := linked.listed.mpr ⟨Nat.pos_of_ne_zero isRoot, allocated⟩
    obtain ⟨above, parent⟩ := Option.ne_none_iff_exists'.mp (parented tree listed)
    exact ⟨above, gathered.held parent⟩

theorem linked_threaded (services : Services) (msgTab : List (Option Mailmessage)) :
    Threaded (HasFields msgTab) (gatherRoots (linkMessages msgTab (collectMessages services msgTab))) :=
  gatherRoots_threaded (linkMessages_linked msgTab (collectMessages_linked msgTab services))

end Gather

end Etpan.Thread
