import Etpan.Data.Forest
import Etpan.Imf.StringWrite

namespace Etpan.Mime

open Etpan.Data Etpan.Imf Relation

/-! Section numbers of parts, `low-level/mime/mailmime_content.c`.

The nodes of a tree are pointers, and a node knows its parent. -/

inductive MimeKind where
  | none
  | single
  | multiple
  | message
deriving Repr, DecidableEq

/-- The fields of `struct mailmime` that make the tree. -/
structure MimeNode where
  mmType : MimeKind
  mmParent : Option Nat
  mmMpList : List Nat
  mmMsgMime : Option Nat
deriving Repr, DecidableEq

abbrev MimeHeap := Nat → MimeNode

/-- The value of an `int` that is passed a `uint32_t`. -/
def intOfUInt32 (number : UInt32) : Int := if number.toNat < 2 ^ 31 then number.toNat else (number.toNat : Int) - 2 ^ 32

/-- A negative index is taken for 0. -/
def clistNthData (list : List Nat) (indx : Int) : Option Nat := list[indx.toNat]?

section Section

variable (heap : MimeHeap)

/-- `none` stands for the access to a message part that is NULL. -/
def mailmimeGetSectionList : Nat → List UInt32 → Option (Except MailimfError Nat)
  | mime, [] => some (.ok mime)
  | mime, id :: rest =>
      match (heap mime).mmType with
      | .single => some (.error .inval)
      | .multiple =>
          match clistNthData (heap mime).mmMpList (intOfUInt32 (id - 1)) with
          | none => some (.error .inval)
          | some data => mailmimeGetSectionList data rest
      | .message =>
          match (heap mime).mmMsgMime with
          | none => none
          | some submime =>
              match (heap submime).mmType with
              | .multiple =>
                  match clistNthData (heap submime).mmMpList (intOfUInt32 (id - 1)) with
                  | none => some (.error .inval)
                  | some data => mailmimeGetSectionList data rest
              | _ => if id ≠ 1 then some (.error .inval) else mailmimeGetSectionList submime rest
      | .none => some (.error .inval)

def mailmimeGetSection (mime : Nat) (section' : List UInt32) : Option (Except MailimfError Nat) :=
  mailmimeGetSectionList heap mime section'

def partId (mime : Nat) : List Nat → UInt32 → UInt32
  | [], id => id
  | cur :: rest, id => if cur = mime then id else partId mime rest (id + 1)

/-- `none` stands for more calls in each other than the given number. -/
def mailmimeGetSectionId : Nat → Nat → Option (List UInt32)
  | 0, _ => none
  | calls + 1, mime =>
      match (heap mime).mmParent with
      | none => some []
      | some parent =>
          (mailmimeGetSectionId calls parent).map fun sectionId =>
            match (heap parent).mmType with
            | .multiple => sectionId ++ [partId mime (heap parent).mmMpList 1]
            | .message => if (heap mime).mmType = .single ∨ (heap mime).mmType = .message then sectionId ++ [1] else sectionId
            | _ => sectionId

def subparts (mime : Nat) : List Nat :=
  match (heap mime).mmType with
  | .multiple => (heap mime).mmMpList
  | .message => (heap mime).mmMsgMime.toList
  | _ => []

def InTree (root node : Nat) : Prop := ReflTransGen (Holds (subparts heap)) root node

/-- A tree of parts below a root: every part knows the one part that holds it.  The `count` of a
`clist` is an `int`. -/
structure MimeTree (root : Nat) : Prop where
  rootParent : (heap root).mmParent = none
  parentOf : ∀ {parent child}, InTree heap root parent → child ∈ subparts heap parent → (heap child).mmParent = some parent
  nodup : ∀ {node}, InTree heap root node → (subparts heap node).Nodup
  typed : ∀ {node}, InTree heap root node → (heap node).mmType ≠ .none
  countFits : ∀ {node}, InTree heap root node → (subparts heap node).length < 2 ^ 31

/-- A multipart that is the part of a message has no number. -/
def Numbered (node : Nat) : Prop :=
  ¬ ((heap node).mmType = .multiple ∧ ∃ parent, (heap node).mmParent = some parent ∧ (heap parent).mmType = .message)

end Section

section Find

theorem partId_eq {mime : Nat} {list : List Nat} {place : Nat} (nodup : list.Nodup) (there : list[place]? = some mime) (id : UInt32) :
    partId mime list id = id + UInt32.ofNat place := by
  induction list generalizing place id with
  | nil => cases there
  | cons cur rest ih =>
      rw [partId]
      cases place with
      | zero =>
          rw [if_pos (by simpa using there)]
          simp
      | succ place =>
          rw [List.getElem?_cons_succ] at there
          have differs : cur ≠ mime := by
            rintro rfl
            exact (List.nodup_cons.mp nodup).1 (List.mem_of_getElem? there)
          rw [if_neg differs, ih (List.nodup_cons.mp nodup).2 there]
          have step : UInt32.ofNat (place + 1) = 1 + UInt32.ofNat place := by
            rw [Nat.add_comm, UInt32.ofNat_add]
            rfl
          rw [step, UInt32.add_assoc]

theorem clistNthData_partId {mime : Nat} {list : List Nat} (nodup : list.Nodup) (member : mime ∈ list) (fits : list.length < 2 ^ 31) :
    clistNthData list (intOfUInt32 (partId mime list 1 - 1)) = some mime := by
  obtain ⟨place, there⟩ := List.getElem?_of_mem member
  have inside := (List.getElem?_eq_some_iff.mp there).1
  have back : partId mime list 1 - 1 = UInt32.ofNat place := by
    rw [partId_eq nodup there, UInt32.add_comm, UInt32.add_sub_cancel]
  have value : (UInt32.ofNat place).toNat = place := UInt32.toNat_ofNat_of_lt (by simp only [UInt32.size]; omega)
  rw [back, clistNthData, intOfUInt32, value, if_pos (by omega), Int.toNat_natCast, there]

variable {heap : MimeHeap} {root : Nat}

/-- What the numbers of a part leave of a section number is looked up in that part. -/
theorem mailmimeGetSectionId_spec (tree : MimeTree heap root) {node : Nat} (inTree : InTree heap root node) :
    ∃ depth sectionId, (∀ calls, depth < calls → mailmimeGetSectionId heap calls node = some sectionId) ∧
      ∀ rest, rest ≠ [] ∨ Numbered heap node → mailmimeGetSectionList heap root (sectionId ++ rest) = mailmimeGetSectionList heap node rest := by
  induction inTree with
  | refl =>
      refine ⟨0, [], fun calls some' => ?_, fun rest _ => rfl⟩
      obtain ⟨calls, rfl⟩ : ∃ fewer, calls = fewer + 1 := ⟨calls - 1, by omega⟩
      rw [mailmimeGetSectionId, tree.rootParent]
  | @tail parent node above held ih =>
      obtain ⟨depth, sectionId, computed, leads⟩ := ih
      have isParent := tree.parentOf above held
      have nodeInTree : InTree heap root node := above.tail held
      have unfolded : ∀ calls, depth + 1 < calls → mailmimeGetSectionId heap calls node =
          some (match (heap parent).mmType with
            | .multiple => sectionId ++ [partId node (heap parent).mmMpList 1]
            | .message => if (heap node).mmType = .single ∨ (heap node).mmType = .message then sectionId ++ [1] else sectionId
            | _ => sectionId) := by
        intro calls more
        obtain ⟨calls, rfl⟩ : ∃ fewer, calls = fewer + 1 := ⟨calls - 1, by omega⟩
        rw [mailmimeGetSectionId, isParent]
        simp only [computed calls (by omega), Option.map_some]
      refine ⟨depth + 1, _, unfolded, fun rest side => ?_⟩
      have member := held
      rw [Holds, subparts] at member
      cases kind : (heap parent).mmType with
      | none => exact absurd kind (tree.typed above)
      | single => simp [kind] at member
      | multiple =>
          have isList : subparts heap parent = (heap parent).mmMpList := by rw [subparts, kind]
          have found := clistNthData_partId (isList ▸ tree.nodup above) (isList ▸ show node ∈ subparts heap parent from held)
            (isList ▸ tree.countFits above)
          simp only
          rw [List.append_assoc, leads _ (.inl (by simp)), List.singleton_append, mailmimeGetSectionList, kind]
          simp only [found]
      | message =>
          rw [kind] at member
          have isMsg : (heap parent).mmMsgMime = some node := by simpa using member
          have kinds : (heap node).mmType ≠ .none := tree.typed nodeInTree
          simp only
          cases nodeKind : (heap node).mmType with
          | none => exact absurd nodeKind kinds
          | single =>
              rw [if_pos (.inl rfl), List.append_assoc, leads _ (.inl (by simp)), List.singleton_append, mailmimeGetSectionList, kind]
              simp only [isMsg, nodeKind, ne_eq, not_true_eq_false, if_false]
          | message =>
              rw [if_pos (.inr rfl), List.append_assoc, leads _ (.inl (by simp)), List.singleton_append, mailmimeGetSectionList, kind]
              simp only [isMsg, nodeKind, ne_eq, not_true_eq_false, if_false]
          | multiple =>
              -- the multipart has no number, and the next one is looked up from the message
              have nonempty : rest ≠ [] := side.resolve_right fun numbered => numbered ⟨nodeKind, parent, isParent, kind⟩
              obtain ⟨id, others, rfl⟩ := List.exists_cons_of_ne_nil nonempty
              rw [if_neg (by simp), leads _ (.inl nonempty), mailmimeGetSectionList, kind, mailmimeGetSectionList, nodeKind]
              simp only [isMsg, nodeKind]

theorem mailmimeGetSectionId_mono {calls : Nat} : ∀ {node : Nat} {sectionId : List UInt32},
    mailmimeGetSectionId heap calls node = some sectionId → ∀ more, calls ≤ more → mailmimeGetSectionId heap more node = some sectionId := by
  induction calls with
  | zero => exact fun impossible => by cases impossible
  | succ calls ih =>
      intro node sectionId computed more longer
      obtain ⟨more, rfl⟩ : ∃ fewer, more = fewer + 1 := ⟨more - 1, by omega⟩
      rw [mailmimeGetSectionId] at computed ⊢
      cases parent : (heap node).mmParent with
      | none => rwa [parent] at computed
      | some above =>
          rw [parent] at computed
          obtain ⟨aboveId, aboveComputed, result⟩ := Option.map_eq_some_iff.mp computed
          simp only [ih aboveComputed more (by omega), Option.map_some, result]

theorem mailmimeGetSection_of_sectionId (tree : MimeTree heap root) {node : Nat} (inTree : InTree heap root node) (numbered : Numbered heap node)
    {calls : Nat} {sectionId : List UInt32} (computed : mailmimeGetSectionId heap calls node = some sectionId) :
    mailmimeGetSection heap root sectionId = some (.ok node) := by
  obtain ⟨depth, found, always, leads⟩ := mailmimeGetSectionId_spec tree inTree
  have same := always (max calls (depth + 1)) (by omega)
  rw [mailmimeGetSectionId_mono computed _ (le_max_left _ _), Option.some.injEq] at same
  have back := leads [] (.inr numbered)
  rw [List.append_nil] at back
  rw [mailmimeGetSection, same, back, mailmimeGetSectionList]

end Find

/-- The section number of a part leads to that part, and to no other. -/
theorem mailmimeGetSection_sectionId {heap : MimeHeap} {root : Nat} (tree : MimeTree heap root) :
    (∀ node, InTree heap root node → Numbered heap node → ∃ depth sectionId,
      (∀ calls, depth < calls → mailmimeGetSectionId heap calls node = some sectionId) ∧
        mailmimeGetSection heap root sectionId = some (.ok node)) ∧
    ∀ first second, InTree heap root first → InTree heap root second → Numbered heap first → Numbered heap second → first ≠ second →
      ∀ calls others sectionId, mailmimeGetSectionId heap calls first = some sectionId →
        mailmimeGetSectionId heap others second ≠ some sectionId := by
  constructor
  · intro node inTree numbered
    obtain ⟨depth, sectionId, computed, _⟩ := mailmimeGetSectionId_spec tree inTree
    exact ⟨depth, sectionId, computed, mailmimeGetSection_of_sectionId tree inTree numbered (computed _ (Nat.lt_succ_self depth))⟩
  · intro first second firstIn secondIn firstNumbered secondNumbered differ calls others sectionId firstId secondId
    have toFirst := mailmimeGetSection_of_sectionId tree firstIn firstNumbered firstId
    have toSecond := mailmimeGetSection_of_sectionId tree secondIn secondNumbered secondId
    rw [toFirst, Option.some.injEq, Except.ok.injEq] at toSecond
    exact differ toSecond

def nestedHeap : MimeHeap
  | 0 => { mmType := .message, mmParent := none, mmMpList := [], mmMsgMime := some 1 }
  | 1 => { mmType := .multiple, mmParent := some 0, mmMpList := [2, 3], mmMsgMime := none }
  | 2 => { mmType := .single, mmParent := some 1, mmMpList := [], mmMsgMime := none }
  | _ => { mmType := .single, mmParent := some 1, mmMpList := [], mmMsgMime := none }

theorem mailmimeGetSection_sectionId_nested :
    ∃ depth sectionId, (∀ calls, depth < calls → mailmimeGetSectionId nestedHeap calls 3 = some sectionId) ∧
      mailmimeGetSection nestedHeap 0 sectionId = some (.ok 3) := by
  have subparts : ∀ node, subparts nestedHeap node = if node = 0 then [1] else if node = 1 then [2, 3] else []
    | 0 => rfl
    | 1 => rfl
    | 2 => rfl
    | _ + 3 => rfl
  have tree : MimeTree nestedHeap 0 := by
    constructor
    case rootParent => rfl
    case parentOf =>
      intro parent child _ held
      rw [subparts] at held
      split_ifs at held with isRoot isMultipart
      · have isChild : child = 1 := by simpa using held
        rw [isRoot, isChild]
        rfl
      · have isChild : child = 2 ∨ child = 3 := by simpa using held
        rcases isChild with rfl | rfl <;> rw [isMultipart] <;> rfl
      · cases held
    case nodup =>
      intro node _
      rw [subparts]
      split_ifs <;> decide
    case typed => rintro (_ | _ | _ | _) _ <;> simp [nestedHeap]
    case countFits =>
      intro node _
      rw [subparts]
      split_ifs <;> decide
  have inTree : InTree nestedHeap 0 3 := by
    refine .tail (.tail .refl (?_ : 1 ∈ _)) (?_ : 3 ∈ _)
    · rw [subparts]
      decide
    · rw [subparts]
      decide
  exact (mailmimeGetSection_sectionId tree).1 3 inTree fun both => absurd both.1 (by decide)

end Etpan.Mime
