import Etpan.Mime.Sections

namespace Etpan.Mime

open Etpan.Data Etpan.Imf Relation

/-! Building a tree of parts, `low-level/mime/mailmime_types_helper.c`.

A record of no type is memory that is not in use.  `mm_parent_type` is the type of the
parent, and `mm_multipart_pos` the last element of its list with the part. -/

def mailmimeNewEmpty (heap : MimeHeap) (address : Nat) (mmType : MimeKind) : MimeHeap :=
  Function.update heap address { mmType, mmParent := none, mmMpList := [], mmMsgMime := none }

def mailmimeFree (heap : MimeHeap) (mime : Nat) : MimeHeap := mailmimeNewEmpty heap mime .none

/-- `clist_delete` at `mm_multipart_pos`. -/
def deletePos (list : List Nat) (mime : Nat) : List Nat := (list.reverse.erase mime).reverse

def setParent (heap : MimeHeap) (part : Nat) (mmParent : Option Nat) : MimeHeap :=
  Function.update heap part { heap part with mmParent }

def mailmimeAddPart (heap : MimeHeap) (buildInfo part : Nat) : Except MailimfError MimeHeap :=
  match (heap buildInfo).mmType with
  | .message =>
      .ok (setParent (Function.update heap buildInfo { heap buildInfo with mmMsgMime := some part }) part (some buildInfo))
  | .multiple =>
      .ok (setParent (Function.update heap buildInfo { heap buildInfo with mmMpList := (heap buildInfo).mmMpList ++ [part] })
        part (some buildInfo))
  | _ => .error .inval

def mailmimeRemovePart (heap : MimeHeap) (mime : Nat) : MimeHeap :=
  match (heap mime).mmParent with
  | none => heap
  | some parent =>
      match (heap parent).mmType with
      | .message => setParent (Function.update heap parent { heap parent with mmMsgMime := none }) mime none
      | .multiple =>
          setParent (Function.update heap parent { heap parent with mmMpList := deletePos (heap parent).mmMpList mime }) mime none
      | _ => heap

/-- `mp` is where `mailmime_multiple_new` puts a new multipart. -/
def mailmimeSmartAddPart (heap : MimeHeap) (mp mime mimeSub : Nat) : Except MailimfError MimeHeap :=
  match (heap mime).mmType with
  | .single => .error .inval
  | .multiple => (mailmimeAddPart heap mime mimeSub).mapError fun _ => .memory
  | _ =>
      match (heap mime).mmMsgMime with
      | none => (mailmimeAddPart heap mime mimeSub).mapError fun _ => .memory
      | some savedSub =>
          if (heap savedSub).mmType = .multiple then mailmimeAddPart heap savedSub mimeSub
          else
            let heap := mailmimeRemovePart (mailmimeNewEmpty heap mp .multiple) savedSub
            ((mailmimeAddPart heap mime mp).bind fun heap => (mailmimeAddPart heap mp savedSub).bind fun heap =>
              mailmimeAddPart heap mp mimeSub).mapError fun _ => .memory

def mailmimeSmartRemovePart (heap : MimeHeap) (mime : Nat) : Except MailimfError MimeHeap :=
  match (heap mime).mmParent with
  | none => .error .inval
  | some _ =>
      match (heap mime).mmType with
      | .none => .error .inval
      | .single => .ok (mailmimeFree (mailmimeRemovePart heap mime) mime)
      | _ => if subparts heap mime ≠ [] then .error .inval else .ok (mailmimeFree (mailmimeRemovePart heap mime) mime)

/-- The parts and their parents agree, and every part that is held is in use. -/
structure LinkedParts (heap : MimeHeap) : Prop where
  forest : Forest (subparts heap)
  parent : ∀ {holder child}, child ∈ subparts heap holder ↔ (heap child).mmParent = some holder
  used : ∀ {holder child}, child ∈ subparts heap holder → (heap child).mmType ≠ .none

/-- A part can be added where it is not in a tree yet, and not below itself. -/
structure Attachable (heap : MimeHeap) (buildInfo part : Nat) : Prop where
  used : (heap part).mmType ≠ .none
  detached : (heap part).mmParent = none
  notBelow : ¬ InTree heap part buildInfo

section Steps

variable {heap heap' : MimeHeap}

structure Relinked (heap : MimeHeap) (holder part : Nat) (mmParent : Option Nat) (parts : List Nat) (heap' : MimeHeap) : Prop where
  parts : subparts heap' holder = parts
  same : ∀ other, other ≠ holder → subparts heap' other = subparts heap other
  parent : ∀ node, (heap' node).mmParent = if node = part then mmParent else (heap node).mmParent
  type : ∀ node, (heap' node).mmType = (heap node).mmType

theorem relinked_update {holder part : Nat} {mmParent : Option Nat} {changed : MimeNode} (apart : part ≠ holder)
    (type : changed.mmType = (heap holder).mmType) (parent : changed.mmParent = (heap holder).mmParent) :
    Relinked heap holder part mmParent (subparts (Function.update heap holder changed) holder)
      (setParent (Function.update heap holder changed) part mmParent) := by
  have types : ∀ node, (setParent (Function.update heap holder changed) part mmParent node).mmType = (heap node).mmType := by
    intro node
    rw [setParent]
    by_cases isPart : node = part
    · rw [isPart, Function.update_self, Function.update_of_ne apart]
    · rw [Function.update_of_ne isPart]
      by_cases isHolder : node = holder
      · rw [isHolder, Function.update_self, type]
      · rw [Function.update_of_ne isHolder]
  constructor
  case type => exact types
  case parts => rw [subparts, subparts, setParent, Function.update_of_ne apart.symm]
  case same =>
    intro other isOther
    rw [subparts, subparts, types]
    by_cases isPart : other = part
    · rw [setParent, isPart, Function.update_self, Function.update_of_ne apart]
    · rw [setParent, Function.update_of_ne isPart, Function.update_of_ne isOther]
  case parent =>
    intro node
    rw [setParent]
    split_ifs with isPart
    · rw [isPart, Function.update_self]
    · rw [Function.update_of_ne isPart]
      by_cases isHolder : node = holder
      · rw [isHolder, Function.update_self, parent]
      · rw [Function.update_of_ne isHolder]

def HasRoom (heap : MimeHeap) (buildInfo : Nat) : Prop :=
  (heap buildInfo).mmType = .multiple ∨ (heap buildInfo).mmType = .message ∧ (heap buildInfo).mmMsgMime = none

theorem mailmimeAddPart_relinked {buildInfo part : Nat} (apart : part ≠ buildInfo) (room : HasRoom heap buildInfo) :
    ∃ heap', mailmimeAddPart heap buildInfo part = .ok heap' ∧
      Relinked heap buildInfo part (some buildInfo) (subparts heap buildInfo ++ [part]) heap' := by
  rw [mailmimeAddPart]
  rcases room with kind | ⟨kind, nothing⟩
  · rw [kind]
    refine ⟨_, rfl, ?_⟩
    have parts : subparts heap buildInfo ++ [part] = subparts (Function.update heap buildInfo
        { heap buildInfo with mmMpList := (heap buildInfo).mmMpList ++ [part] }) buildInfo := by
      simp [subparts, kind]
    rw [parts]
    exact relinked_update apart rfl rfl
  · rw [kind]
    refine ⟨_, rfl, ?_⟩
    have parts : subparts heap buildInfo ++ [part] =
        subparts (Function.update heap buildInfo { heap buildInfo with mmMsgMime := some part }) buildInfo := by
      simp [subparts, kind, nothing]
    rw [parts]
    exact relinked_update apart rfl rfl

theorem deletePos_nodup {list : List Nat} (nodup : list.Nodup) (mime : Nat) : deletePos list mime = list.filter (· ≠ mime) := by
  rw [deletePos, (List.nodup_reverse.mpr nodup).erase_eq_filter, List.filter_reverse, List.reverse_reverse]
  refine List.filter_congr fun child _ => ?_
  by_cases same : child = mime <;> simp [same]

theorem LinkedParts.apart (linked : LinkedParts heap) {holder child : Nat} (held : child ∈ subparts heap holder) : child ≠ holder := by
  rintro rfl
  exact linked.forest.acyclic child (.single held)

theorem mailmimeRemovePart_relinked (linked : LinkedParts heap) {mime parent : Nat} (isParent : (heap mime).mmParent = some parent) :
    Relinked heap parent mime none ((subparts heap parent).filter (· ≠ mime)) (mailmimeRemovePart heap mime) := by
  have held := linked.parent.mpr isParent
  have apart := linked.apart held
  cases kind : (heap parent).mmType with
  | none | single => simp [subparts, kind] at held
  | multiple =>
      have list : subparts heap parent = (heap parent).mmMpList := by rw [subparts, kind]
      have parts : (subparts heap parent).filter (· ≠ mime) = subparts (Function.update heap parent
          { heap parent with mmMpList := deletePos (heap parent).mmMpList mime }) parent := by
        rw [list, ← deletePos_nodup (list ▸ linked.forest.nodup parent), subparts, Function.update_self, kind]
      have removed : mailmimeRemovePart heap mime = setParent (Function.update heap parent
          { heap parent with mmMpList := deletePos (heap parent).mmMpList mime }) mime none := by
        rw [mailmimeRemovePart, isParent]
        simp only [kind]
      rw [parts, removed]
      exact relinked_update apart rfl rfl
  | message =>
      have isMsg : (heap parent).mmMsgMime = some mime := by simpa [subparts, kind] using held
      have parts : (subparts heap parent).filter (· ≠ mime) =
          subparts (Function.update heap parent { heap parent with mmMsgMime := none }) parent := by
        simp [subparts, kind, isMsg]
      have removed : mailmimeRemovePart heap mime =
          setParent (Function.update heap parent { heap parent with mmMsgMime := none }) mime none := by
        rw [mailmimeRemovePart, isParent]
        simp only [kind]
      rw [parts, removed]
      exact relinked_update apart rfl rfl

theorem Relinked.added {buildInfo part : Nat} (added : Relinked heap buildInfo part (some buildInfo) (subparts heap buildInfo ++ [part]) heap')
    (linked : LinkedParts heap) (attachable : Attachable heap buildInfo part) : LinkedParts heap' := by
  have orphan : Orphan (subparts heap) part := by
    intro holder held
    have isParent := linked.parent.mp held
    rw [attachable.detached] at isParent
    cases isParent
  constructor
  case forest =>
    refine linked.forest.attach orphan attachable.notBelow ?_ added.same
    rw [added.parts]
    exact List.perm_append_singleton _ _
  case parent =>
    intro holder child
    rw [added.parent]
    by_cases isHolder : holder = buildInfo
    · rw [isHolder, added.parts, List.mem_append, List.mem_singleton, linked.parent]
      split_ifs with isPart <;> simp [isPart]
    · rw [added.same holder isHolder, linked.parent]
      split_ifs with isPart
      · rw [isPart, attachable.detached]
        simp [Ne.symm isHolder]
      · rfl
  case used =>
    intro holder child held
    rw [added.type]
    by_cases isHolder : holder = buildInfo
    · rw [isHolder, added.parts, List.mem_append, List.mem_singleton] at held
      rcases held with old | rfl
      · exact linked.used old
      · exact attachable.used
    · rw [added.same holder isHolder] at held
      exact linked.used held

theorem Relinked.removed {parent mime : Nat} (removed : Relinked heap parent mime none ((subparts heap parent).filter (· ≠ mime)) heap')
    (linked : LinkedParts heap) (isParent : (heap mime).mmParent = some parent) : LinkedParts heap' := by
  have fewer : ∀ holder, subparts heap' holder = (subparts heap holder).filter (· ≠ mime) := by
    intro holder
    by_cases isHolder : holder = parent
    · rw [isHolder, removed.parts]
    · rw [removed.same holder isHolder, List.filter_eq_self.mpr]
      intro child held
      have notMime : child ≠ mime := by
        rintro rfl
        exact isHolder (linked.forest.unique held (linked.parent.mpr isParent))
      simpa using notMime
  constructor
  case forest =>
    refine linked.forest.shrink (fun holder => ?_) fun holder => ?_
    · rw [fewer]
      exact (linked.forest.nodup holder).filter _
    · rw [fewer]
      exact List.filter_subset_self _
  case parent =>
    intro holder child
    rw [fewer, removed.parent, List.mem_filter, linked.parent]
    split_ifs with isMime <;> simp [isMime]
  case used =>
    intro holder child held
    rw [fewer] at held
    rw [removed.type]
    exact linked.used (List.mem_filter.mp held).1

theorem mailmimeRemovePart_linked (linked : LinkedParts heap) (mime : Nat) : LinkedParts (mailmimeRemovePart heap mime) := by
  cases isParent : (heap mime).mmParent with
  | none => rwa [mailmimeRemovePart, isParent]
  | some parent => exact (mailmimeRemovePart_relinked linked isParent).removed linked isParent

theorem newEmpty_other {address node : Nat} (other : node ≠ address) (mmType : MimeKind) :
    mailmimeNewEmpty heap address mmType node = heap node := Function.update_of_ne other _ _

theorem newEmpty_subparts {address : Nat} (empty : subparts heap address = []) (mmType : MimeKind) :
    subparts (mailmimeNewEmpty heap address mmType) = subparts heap := by
  funext holder
  by_cases isNew : holder = address
  · rw [isNew, empty, subparts, mailmimeNewEmpty, Function.update_self]
    cases mmType <;> rfl
  · rw [subparts, subparts, newEmpty_other isNew]

theorem LinkedParts.newEmpty (linked : LinkedParts heap) {address : Nat} (empty : subparts heap address = [])
    (detached : (heap address).mmParent = none) (mmType : MimeKind) : LinkedParts (mailmimeNewEmpty heap address mmType) := by
  have same := newEmpty_subparts empty mmType
  constructor
  case forest => rw [same]; exact linked.forest
  case parent =>
    intro holder child
    rw [same, linked.parent]
    by_cases isNew : child = address
    · rw [isNew, detached, mailmimeNewEmpty, Function.update_self]
    · rw [newEmpty_other isNew]
  case used =>
    intro holder child held
    rw [same] at held
    have other : child ≠ address := by
      rintro rfl
      rw [linked.parent, detached] at held
      cases held
    rw [newEmpty_other other]
    exact linked.used held

theorem LinkedParts.unused (linked : LinkedParts heap) {address : Nat} (free : (heap address).mmType = .none) :
    subparts heap address = [] ∧ (heap address).mmParent = none := by
  refine ⟨by rw [subparts, free], Option.eq_none_iff_forall_not_mem.mpr fun parent isParent => ?_⟩
  exact linked.used (linked.parent.mpr isParent) free

theorem Relinked.path_added {buildInfo part : Nat} (added : Relinked heap buildInfo part (some buildInfo) (subparts heap buildInfo ++ [part]) heap')
    {first last : Nat} (path : InTree heap' first last) :
    InTree heap first last ∨ InTree heap first buildInfo ∧ InTree heap part last := by
  rcases reflTransGen_iff_eq_or_transGen.mp path with rfl | further
  · exact .inl .refl
  · refine (Forest.transGen_attach (fun holder node held => ?_) further).imp_left TransGen.to_reflTransGen
    by_cases isHolder : holder = buildInfo
    · rw [isHolder, added.parts, List.mem_append, List.mem_singleton] at held
      rw [isHolder]
      exact held.imp_right fun isPart => ⟨rfl, isPart⟩
    · rw [added.same holder isHolder] at held
      exact .inl held

theorem LinkedParts.eq_of_detached (linked : LinkedParts heap) {above node : Nat} (detached : (heap node).mmParent = none)
    (path : InTree heap above node) : above = node := by
  refine Forest.eq_of_below_orphan (fun holder held => ?_) path
  rw [linked.parent.mp held] at detached
  cases detached

theorem InTree.mono (more : ∀ holder, subparts heap holder ⊆ subparts heap' holder) {above node : Nat} (path : InTree heap above node) :
    InTree heap' above node := ReflTransGen.mono (fun holder _ held => more holder held) _ _ path

/-- What the parts below a message or a multipart are after an addition, which may need a new multipart. -/
structure Joined (heap : MimeHeap) (mp mime mimeSub : Nat) (heap' : MimeHeap) : Prop where
  linked : LinkedParts heap'
  kept : ∀ {node}, InTree heap mime node ∨ InTree heap mimeSub node → InTree heap' mime node
  only : ∀ {node}, InTree heap' mime node → InTree heap mime node ∨ InTree heap mimeSub node ∨ node = mp

theorem Attachable.joined (mp : Nat) (linked : LinkedParts heap) {mime holder mimeSub : Nat} (attachable : Attachable heap holder mimeSub)
    (room : HasRoom heap holder) (inside : InTree heap mime holder) :
    ∃ heap', mailmimeAddPart heap holder mimeSub = .ok heap' ∧ Joined heap mp mime mimeSub heap' := by
  have apart : mimeSub ≠ holder := fun same => attachable.notBelow (same ▸ .refl)
  obtain ⟨heap', result, added⟩ := mailmimeAddPart_relinked apart room
  have more : ∀ other, subparts heap other ⊆ subparts heap' other := by
    intro other
    by_cases isHolder : other = holder
    · rw [isHolder, added.parts]
      exact List.subset_append_left _ _
    · rw [added.same other isHolder]
      exact List.Subset.refl _
  refine ⟨heap', result, added.added linked attachable, ?_, fun path => ?_⟩
  · rintro node (old | new)
    · exact old.mono more
    · have held : mimeSub ∈ subparts heap' holder := by simp [added.parts]
      exact ((inside.mono more).tail held).trans (new.mono more)
  · exact (added.path_added path).imp_right fun both => .inl both.2

/-- The new multipart is made, and the message lets go of its part. -/
structure Unwrapped (heap : MimeHeap) (mp mime savedSub : Nat) (bare : MimeHeap) : Prop where
  linked : LinkedParts bare
  isNew : (bare mp).mmType = .multiple ∧ (bare mp).mmParent = none
  empty : subparts bare mime = []
  same : ∀ holder, holder ≠ mime → subparts bare holder = subparts heap holder
  type : ∀ node, node ≠ mp → (bare node).mmType = (heap node).mmType
  parent : ∀ node, node ≠ mp → (bare node).mmParent = if node = savedSub then none else (heap node).mmParent

/-- The new multipart stands in the message, around the part that was there and the one that is added. -/
structure Wrapped (heap : MimeHeap) (mp mime mimeSub savedSub : Nat) (heap' : MimeHeap) : Prop where
  linked : LinkedParts heap'
  inMime : subparts heap' mime = [mp]
  inMp : subparts heap' mp = [savedSub, mimeSub]
  inOther : ∀ holder, holder ≠ mime → holder ≠ mp → subparts heap' holder = subparts heap holder

theorem LinkedParts.unwrapped (linked : LinkedParts heap) {mp mime savedSub : Nat} (free : (heap mp).mmType = .none)
    (isSub : subparts heap mime = [savedSub]) :
    Unwrapped heap mp mime savedSub (mailmimeRemovePart (mailmimeNewEmpty heap mp .multiple) savedSub) := by
  obtain ⟨mpEmpty, mpDetached⟩ := linked.unused free
  have held : savedSub ∈ subparts heap mime := by simp [isSub]
  have savedOld : savedSub ≠ mp := fun same => linked.used held (same ▸ free)
  have linkedNew := linked.newEmpty mpEmpty mpDetached .multiple
  have sameNew := newEmpty_subparts mpEmpty .multiple
  have parentNew : (mailmimeNewEmpty heap mp .multiple savedSub).mmParent = some mime := by
    rw [newEmpty_other savedOld, linked.parent.mp held]
  have removed := mailmimeRemovePart_relinked linkedNew parentNew
  constructor
  case linked => exact removed.removed linkedNew parentNew
  case isNew =>
    rw [removed.type, removed.parent, if_neg savedOld.symm, mailmimeNewEmpty, Function.update_self]
    exact ⟨rfl, rfl⟩
  case empty => rw [removed.parts, sameNew, isSub]; simp
  case same =>
    intro holder other
    rw [removed.same holder other, sameNew]
  case type =>
    intro node old
    rw [removed.type, newEmpty_other old]
  case parent =>
    intro node old
    rw [removed.parent, newEmpty_other old]

theorem Unwrapped.wrapped {bare : MimeHeap} {mp mime mimeSub savedSub : Nat} (unwrapped : Unwrapped heap mp mime savedSub bare)
    (linked : LinkedParts heap) (attachable : Attachable heap mime mimeSub) (free : (heap mp).mmType = .none)
    (kind : (heap mime).mmType = .message) (isSub : subparts heap mime = [savedSub]) :
    ∃ heap', ((mailmimeAddPart bare mime mp).bind fun heap => (mailmimeAddPart heap mp savedSub).bind fun heap =>
      mailmimeAddPart heap mp mimeSub) = .ok heap' ∧ Wrapped heap mp mime mimeSub savedSub heap' := by
  have held : savedSub ∈ subparts heap mime := by simp [isSub]
  have mpEmpty := (linked.unused free).1
  have mimeOld : mime ≠ mp := fun same => by rw [same, free] at kind; cases kind
  have savedOld : savedSub ≠ mp := fun same => linked.used held (same ▸ free)
  have subOld : mimeSub ≠ mp := fun same => attachable.used (same ▸ free)
  have subNotSaved : mimeSub ≠ savedSub := by
    rintro rfl
    have isParent := linked.parent.mp held
    rw [attachable.detached] at isParent
    cases isParent
  have bareKind : (bare mime).mmType = .message := by rw [unwrapped.type mime mimeOld, kind]
  have bareMp : subparts bare mp = [] := by rw [unwrapped.same mp mimeOld.symm, mpEmpty]
  have fewer : ∀ holder, subparts bare holder ⊆ subparts heap holder := by
    intro holder
    by_cases isMime : holder = mime
    · rw [isMime, unwrapped.empty]
      exact List.nil_subset _
    · rw [unwrapped.same holder isMime]
      exact List.Subset.refl _
  -- the multipart goes into the message
  have first : Attachable bare mime mp := by
    refine ⟨by simp [unwrapped.isNew.1], unwrapped.isNew.2, fun path => mimeOld.symm ?_⟩
    rcases ReflTransGen.cases_head path with same | ⟨next, member, -⟩
    · exact same
    · rw [Holds, bareMp] at member
      cases member
  obtain ⟨one, oneResult, oneAdded⟩ := mailmimeAddPart_relinked mimeOld.symm
    (.inr ⟨bareKind, by simpa [subparts, bareKind] using unwrapped.empty⟩ : HasRoom bare mime)
  have oneLinked := oneAdded.added unwrapped.linked first
  have aboveMp : ∀ {above}, above ≠ mp → InTree one above mp → InTree heap above mime := by
    intro above other path
    rcases oneAdded.path_added path with old | ⟨toMime, -⟩
    · exact absurd (unwrapped.linked.eq_of_detached unwrapped.isNew.2 old) other
    · exact toMime.mono fewer
  -- the part that was there goes into the multipart
  have second : Attachable one mp savedSub := by
    refine ⟨?_, ?_, fun path => ?_⟩
    · rw [oneAdded.type, unwrapped.type savedSub savedOld]
      exact linked.used held
    · rw [oneAdded.parent, if_neg savedOld, unwrapped.parent savedSub savedOld, if_pos rfl]
    · exact linked.forest.acyclic mime (.head' held (aboveMp savedOld path))
  obtain ⟨two, twoResult, twoAdded⟩ := mailmimeAddPart_relinked savedOld
    (.inl (by rw [oneAdded.type, unwrapped.isNew.1]) : HasRoom one mp)
  have twoLinked := twoAdded.added oneLinked second
  -- and the new one behind it
  have third : Attachable two mp mimeSub := by
    refine ⟨?_, ?_, fun path => attachable.notBelow (aboveMp subOld ?_)⟩
    · rw [twoAdded.type, oneAdded.type, unwrapped.type mimeSub subOld]
      exact attachable.used
    · rw [twoAdded.parent, if_neg subNotSaved, oneAdded.parent, if_neg subOld, unwrapped.parent mimeSub subOld, if_neg subNotSaved]
      exact attachable.detached
    · exact (twoAdded.path_added path).elim id And.left
  obtain ⟨three, threeResult, threeAdded⟩ := mailmimeAddPart_relinked subOld
    (.inl (by rw [twoAdded.type, oneAdded.type, unwrapped.isNew.1]) : HasRoom two mp)
  refine ⟨three, by rw [oneResult]; simp only [Except.bind, twoResult, threeResult], threeAdded.added twoLinked third, ?_, ?_, ?_⟩
  · rw [threeAdded.same mime mimeOld, twoAdded.same mime mimeOld, oneAdded.parts, unwrapped.empty, List.nil_append]
  · rw [threeAdded.parts, twoAdded.parts, oneAdded.same mp mimeOld.symm, bareMp]
    rfl
  · intro holder notMime notMp
    rw [threeAdded.same holder notMp, twoAdded.same holder notMp, oneAdded.same holder notMime, unwrapped.same holder notMime]

theorem Wrapped.joined {mp mime mimeSub savedSub : Nat} (wrapped : Wrapped heap mp mime mimeSub savedSub heap')
    (isSub : subparts heap mime = [savedSub]) (mpEmpty : subparts heap mp = []) : Joined heap mp mime mimeSub heap' := by
  have toMp : InTree heap' mime mp := .single (show mp ∈ subparts heap' mime by simp [wrapped.inMime])
  have toSub : ∀ {part}, part ∈ [savedSub, mimeSub] → InTree heap' mime part := fun member =>
    toMp.tail (show _ ∈ subparts heap' mp from wrapped.inMp ▸ member)
  refine ⟨wrapped.linked, ?_, fun path => ?_⟩
  · have down : ∀ {above node}, InTree heap' mime above → InTree heap above node → InTree heap' mime node := by
      intro above node reached path
      induction path with
      | refl => exact reached
      | @tail holder node _ held ih =>
          by_cases isMime : holder = mime
          · rw [Holds, isMime, isSub, List.mem_singleton] at held
            rw [held]
            exact toSub (by simp)
          · refine ih.tail (show node ∈ subparts heap' holder from ?_)
            rw [wrapped.inOther holder isMime fun same => by rw [Holds, same, mpEmpty] at held; cases held]
            exact held
    rintro node (old | new)
    · exact down .refl old
    · exact down (toSub (by simp)) new
  · induction path with
    | refl => exact .inl .refl
    | @tail holder node _ held ih =>
        by_cases isMime : holder = mime
        · rw [Holds, isMime, wrapped.inMime, List.mem_singleton] at held
          exact .inr (.inr held)
        · by_cases isMp : holder = mp
          · rw [Holds, isMp, wrapped.inMp, List.mem_cons, List.mem_singleton] at held
            rcases held with rfl | rfl
            · exact .inl (.single (show _ ∈ subparts heap mime by simp [isSub]))
            · exact .inr (.inl .refl)
          · rw [Holds, wrapped.inOther holder isMime isMp] at held
            rcases ih with old | new | new
            · exact .inl (old.tail held)
            · exact .inr (.inl (new.tail held))
            · exact absurd new isMp

/-- A part is added to what is no single part, and `mp` is memory that is not in use. -/
structure SmartAddable (heap : MimeHeap) (mp mime mimeSub : Nat) : Prop where
  attachable : Attachable heap mime mimeSub
  free : (heap mp).mmType = .none
  kind : (heap mime).mmType = .multiple ∨ (heap mime).mmType = .message

theorem mailmimeSmartAddPart_joined (linked : LinkedParts heap) {mp mime mimeSub : Nat} (addable : SmartAddable heap mp mime mimeSub) :
    ∃ heap', mailmimeSmartAddPart heap mp mime mimeSub = .ok heap' ∧ Joined heap mp mime mimeSub heap' := by
  obtain ⟨attachable, free, kind | kind⟩ := addable
  · obtain ⟨heap', result, joined⟩ := attachable.joined mp linked (.inl kind) .refl
    exact ⟨heap', by simp [mailmimeSmartAddPart, kind, result, Except.mapError], joined⟩
  · cases saved : (heap mime).mmMsgMime with
    | none =>
        obtain ⟨heap', result, joined⟩ := attachable.joined mp linked (.inr ⟨kind, saved⟩) .refl
        exact ⟨heap', by simp [mailmimeSmartAddPart, kind, saved, result, Except.mapError], joined⟩
    | some savedSub =>
        have held : savedSub ∈ subparts heap mime := by simp [subparts, kind, saved]
        by_cases multiple : (heap savedSub).mmType = .multiple
        · have inner : Attachable heap savedSub mimeSub := by
            refine ⟨attachable.used, attachable.detached, fun path => ?_⟩
            rcases ReflTransGen.cases_tail path with same | ⟨above, further, last⟩
            · have isParent := linked.parent.mp held
              rw [same, attachable.detached] at isParent
              cases isParent
            · rw [linked.forest.unique last held] at further
              exact attachable.notBelow further
          obtain ⟨heap', result, joined⟩ := inner.joined mp linked (.inl multiple) (.single held)
          exact ⟨heap', by simp [mailmimeSmartAddPart, kind, saved, multiple, result], joined⟩
        · have isSub : subparts heap mime = [savedSub] := by simp [subparts, kind, saved]
          obtain ⟨heap', result, wrapped⟩ := (linked.unwrapped free isSub).wrapped linked attachable free kind isSub
          refine ⟨heap', ?_, wrapped.joined isSub (linked.unused free).1⟩
          simp [mailmimeSmartAddPart, kind, saved, multiple, result, Except.mapError]

theorem mailmimeFree_linked (linked : LinkedParts heap) {mime : Nat} (empty : subparts heap mime = []) :
    LinkedParts (mailmimeFree (mailmimeRemovePart heap mime) mime) := by
  cases isParent : (heap mime).mmParent with
  | none =>
      rw [mailmimeRemovePart, isParent]
      exact linked.newEmpty empty isParent .none
  | some parent =>
      have removed := mailmimeRemovePart_relinked linked isParent
      refine (removed.removed linked isParent).newEmpty ?_ (by rw [removed.parent, if_pos rfl]) .none
      rw [removed.same mime (linked.apart (linked.parent.mpr isParent)), empty]

end Steps

inductive PartCall where
  | new (address : Nat) (mmType : MimeKind)
  | add (buildInfo part : Nat)
  | remove (mime : Nat)
  | smartAdd (mp mime mimeSub : Nat)
  | smartRemove (mime : Nat)

def PartCall.result (heap : MimeHeap) : PartCall → Except MailimfError MimeHeap
  | new address mmType => .ok (mailmimeNewEmpty heap address mmType)
  | add buildInfo part => mailmimeAddPart heap buildInfo part
  | remove mime => .ok (mailmimeRemovePart heap mime)
  | smartAdd mp mime mimeSub => mailmimeSmartAddPart heap mp mime mimeSub
  | smartRemove mime => mailmimeSmartRemovePart heap mime

def PartCall.run (heap : MimeHeap) (call : PartCall) : MimeHeap := (call.result heap).toOption.getD heap

/-- A part is added where it is in no tree, and not to a message that has its part; memory that is not in use is new. -/
def PartCall.Safe (heap : MimeHeap) : PartCall → Prop
  | new address mmType => (heap address).mmType = .none ∧ mmType ≠ .none
  | add buildInfo part => Attachable heap buildInfo part ∧ ((heap buildInfo).mmType = .message → (heap buildInfo).mmMsgMime = none)
  | smartAdd mp mime mimeSub => Attachable heap mime mimeSub ∧ (heap mp).mmType = .none ∧ (heap mime).mmType ≠ .none
  | _ => True

def SafeParts (heap : MimeHeap) : List PartCall → Prop
  | [] => True
  | call :: calls => call.Safe heap ∧ SafeParts (call.run heap) calls

theorem PartCall.run_linked {heap : MimeHeap} (linked : LinkedParts heap) (call : PartCall) (safe : call.Safe heap) :
    LinkedParts (call.run heap) := by
  cases call with
  | new address mmType =>
      obtain ⟨empty, detached⟩ := linked.unused safe.1
      exact linked.newEmpty empty detached mmType
  | remove mime => exact mailmimeRemovePart_linked linked mime
  | add buildInfo part =>
      obtain ⟨attachable, message⟩ := safe
      have apart : part ≠ buildInfo := fun same => attachable.notBelow (same ▸ .refl)
      rw [run, result]
      cases kind : (heap buildInfo).mmType with
      | none | single =>
          rw [mailmimeAddPart, kind]
          exact linked
      | multiple =>
          obtain ⟨heap', result, added⟩ := mailmimeAddPart_relinked apart (.inl kind)
          rw [result]
          exact added.added linked attachable
      | message =>
          obtain ⟨heap', result, added⟩ := mailmimeAddPart_relinked apart (.inr ⟨kind, message kind⟩)
          rw [result]
          exact added.added linked attachable
  | smartAdd mp mime mimeSub =>
      rw [run, result]
      cases kind : (heap mime).mmType with
      | none => exact absurd kind safe.2.2
      | single =>
          rw [mailmimeSmartAddPart, kind]
          exact linked
      | multiple =>
          obtain ⟨heap', result, joined⟩ := mailmimeSmartAddPart_joined linked ⟨safe.1, safe.2.1, .inl kind⟩
          rw [result]
          exact joined.linked
      | message =>
          obtain ⟨heap', result, joined⟩ := mailmimeSmartAddPart_joined linked ⟨safe.1, safe.2.1, .inr kind⟩
          rw [result]
          exact joined.linked
  | smartRemove mime =>
      rw [run, result, mailmimeSmartRemovePart]
      cases isParent : (heap mime).mmParent with
      | none => exact linked
      | some parent =>
          cases kind : (heap mime).mmType with
          | none => exact linked
          | single => exact mailmimeFree_linked linked (by rw [subparts, kind])
          | multiple | message =>
              by_cases empty : subparts heap mime = []
              · simp only [empty, ne_eq, not_true_eq_false, if_false]
                exact mailmimeFree_linked linked empty
              · simp only [ne_eq, empty, not_false_eq_true, if_true]
                exact linked

theorem partRun_linked {heap : MimeHeap} {calls : List PartCall} (linked : LinkedParts heap) (safe : SafeParts heap calls) :
    LinkedParts (calls.foldl PartCall.run heap) := by
  induction calls generalizing heap with
  | nil => exact linked
  | cons call calls ih => exact ih (call.run_linked linked safe.1) safe.2

def noParts : MimeHeap := fun _ => { mmType := .none, mmParent := none, mmMpList := [], mmMsgMime := none }

theorem noParts_linked : LinkedParts noParts := by
  have empty : ∀ {holder child}, child ∉ subparts noParts holder := fun held => by cases held
  constructor
  case forest =>
    refine ⟨fun _ => List.nodup_nil, fun held => absurd held empty, fun node cycle => ?_⟩
    obtain ⟨holder, -, held⟩ := TransGen.tail'_iff.mp cycle
    exact empty held
  case parent => exact fun {holder child} => ⟨fun held => absurd held empty, fun isParent => by cases isParent⟩
  case used => exact fun held => absurd held empty

theorem LinkedParts.mimeTree {heap : MimeHeap} (linked : LinkedParts heap) {root : Nat} (top : (heap root).mmParent = none)
    (used : (heap root).mmType ≠ .none) (fits : ∀ holder, (subparts heap holder).length < 2 ^ 31) : MimeTree heap root where
  rootParent := top
  parentOf _ held := linked.parent.mp held
  nodup _ := linked.forest.nodup _
  typed := by
    intro node inTree
    rcases ReflTransGen.cases_tail inTree with same | ⟨holder, -, held⟩
    · rwa [same]
    · exact linked.used held
  countFits _ := fits _

/-- After every run the parts are forests with the right parents and no freed part in them.  A part that is added to a
message or a multipart is below it with all its own parts, and so is all that was there; and the section number of
every part leads to it. -/
theorem partRun_sections {calls : List PartCall} (safe : SafeParts noParts calls) :
    let heap := calls.foldl PartCall.run noParts
    LinkedParts heap ∧
    (∀ mp mime mimeSub, SmartAddable heap mp mime mimeSub →
      ∃ heap', mailmimeSmartAddPart heap mp mime mimeSub = .ok heap' ∧ Joined heap mp mime mimeSub heap') ∧
    ∀ root node, (heap root).mmParent = none → (heap root).mmType ≠ .none → (∀ holder, (subparts heap holder).length < 2 ^ 31) →
      InTree heap root node → Numbered heap node → ∃ depth sectionId,
        (∀ calls, depth < calls → mailmimeGetSectionId heap calls node = some sectionId) ∧
          mailmimeGetSection heap root sectionId = some (.ok node) := by
  intro heap
  have linked := partRun_linked noParts_linked safe
  refine ⟨linked, fun _ _ _ => mailmimeSmartAddPart_joined linked, fun root node top used fits inTree numbered => ?_⟩
  have tree := linked.mimeTree top used fits
  obtain ⟨depth, sectionId, computed, -⟩ := mailmimeGetSectionId_spec tree inTree
  exact ⟨depth, sectionId, computed, mailmimeGetSection_of_sectionId tree inTree numbered (computed _ (Nat.lt_succ_self depth))⟩

def twoParts : List PartCall := [.new 1 .message, .new 2 .single, .smartAdd 9 1 2, .new 3 .single, .smartAdd 9 1 3]

theorem twoParts_safe : SafeParts noParts twoParts := by
  have alone : ∀ {heap : MimeHeap} {part buildInfo : Nat}, subparts heap part = [] → part ≠ buildInfo → ¬ InTree heap part buildInfo := by
    intro heap part buildInfo empty differ inTree
    rcases ReflTransGen.cases_head inTree with same | ⟨child, held, -⟩
    · exact differ same
    · rw [Holds, empty] at held
      cases held
  refine ⟨⟨rfl, by decide⟩, ⟨rfl, by decide⟩, ⟨?first, rfl, by decide⟩, ⟨rfl, by decide⟩, ⟨?second, rfl, by decide⟩, trivial⟩
  case first => exact ⟨by decide, rfl, alone rfl (by decide)⟩
  case second => exact ⟨by decide, rfl, alone rfl (by decide)⟩

theorem twoParts_fits (holder : Nat) : (subparts (twoParts.foldl PartCall.run noParts) holder).length < 2 ^ 31 := by
  by_cases isMessage : holder = 1
  · rw [isMessage]
    decide
  by_cases isNew : holder = 9
  · rw [isNew]
    decide
  have empty : subparts (twoParts.foldl PartCall.run noParts) holder = [] := by
    by_cases isFirst : holder = 2
    · rw [isFirst]
      rfl
    by_cases isSecond : holder = 3
    · rw [isSecond]
      rfl
    simp [twoParts, PartCall.run, PartCall.result, mailmimeNewEmpty, mailmimeSmartAddPart, mailmimeAddPart, mailmimeRemovePart,
      setParent, Function.update, Except.toOption, Except.mapError, Except.bind, subparts, noParts, isMessage, isNew, isFirst, isSecond]
  rw [empty]
  decide

theorem partRun_sections_twoParts :
    ∃ sectionId, mailmimeGetSection (twoParts.foldl PartCall.run noParts) 1 sectionId = some (.ok 3) := by
  have inTree : InTree (twoParts.foldl PartCall.run noParts) 1 3 := by
    refine (ReflTransGen.refl.tail (b := 1) (c := 9) ?_).tail ?_
    · show 9 ∈ subparts (twoParts.foldl PartCall.run noParts) 1
      decide
    · show 3 ∈ subparts (twoParts.foldl PartCall.run noParts) 9
      decide
  obtain ⟨_, sectionId, -, found⟩ :=
    (partRun_sections twoParts_safe).2.2 1 3 rfl (by decide) twoParts_fits inTree (by simp [Numbered]; decide)
  exact ⟨sectionId, found⟩

end Etpan.Mime
