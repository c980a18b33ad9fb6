import Etpan.Mbox.Folder

namespace Etpan.Mbox

open Etpan.Data

/-! What holds of the table and the hash table while messages are parsed into them. -/

theorem le_higherUid_left (uid maxUid : UInt32) : uid ≤ higherUid uid maxUid := by
  rw [higherUid]
  split_ifs with higher
  · exact UInt32.le_refl uid
  · exact UInt32.not_lt.mp higher

theorem le_higherUid_right (uid maxUid : UInt32) : maxUid ≤ higherUid uid maxUid := by
  rw [higherUid]
  split_ifs with higher
  · exact UInt32.le_of_lt higher
  · exact UInt32.le_refl maxUid

/-- The hash table has the numbered messages of the table, and the messages that wait for a
number are not before `firstIndex`. -/
structure Parsing.Valid (parsing : Parsing) : Prop where
  nodup : parsing.folder.mbTab.Nodup
  below : ∀ address ∈ parsing.folder.mbTab, address < parsing.folder.allocated
  indexed : ∀ index address, parsing.folder.mbTab[index]? = some address →
    (parsing.folder.info address).msgIndex = index
  hashed : ∀ uid address, parsing.folder.mbHash uid = some address ↔
    address ∈ parsing.folder.mbTab ∧ (parsing.folder.info address).msgUid = uid ∧ uid ≠ 0
  highest : ∀ address ∈ parsing.folder.mbTab, (parsing.folder.info address).msgUid ≤ parsing.maxUid
  waiting : ∀ address ∈ parsing.folder.mbTab, (parsing.folder.info address).msgUid = 0 →
    parsing.firstIndex ≤ (parsing.folder.info address).msgIndex
  firstIndex_le : parsing.firstIndex ≤ parsing.folder.mbTab.length

structure SameMessages (before after : MailmboxFolder) : Prop where
  tab : after.mbTab = before.mbTab
  allocated : after.allocated = before.allocated
  info : ∀ address, after.info address =
    { before.info address with msgUid := (after.info address).msgUid }

theorem SameMessages.refl (folder : MailmboxFolder) : SameMessages folder folder :=
  ⟨rfl, rfl, fun _ => rfl⟩

theorem SameMessages.trans {first second third : MailmboxFolder} (early : SameMessages first second)
    (late : SameMessages second third) : SameMessages first third where
  tab := late.tab.trans early.tab
  allocated := late.allocated.trans early.allocated
  info address := by rw [late.info address, early.info address]

theorem Parsing.Valid.noZero {parsing : Parsing} (valid : parsing.Valid) : parsing.folder.mbHash 0 = none := by
  cases known : parsing.folder.mbHash 0 with
  | none => rfl
  | some address => exact absurd rfl ((valid.hashed 0 address).mp known).2.2

theorem Parsing.Valid.release {parsing : Parsing} (valid : parsing.Valid) {uid : UInt32} {address : Nat}
    (known : parsing.folder.mbHash uid = some address) :
    Parsing.Valid { parsing with
      folder := (parsing.folder.hashSet uid none).infoSet address
        { parsing.folder.info address with msgUid := 0 }
      firstIndex := min (parsing.folder.info address).msgIndex parsing.firstIndex } := by
  obtain ⟨member, owner, nonzero⟩ := (valid.hashed uid address).mp known
  exact {
    nodup := valid.nodup
    below := valid.below
    indexed := by
      intro index other found
      by_cases same : other = address
      · subst same
        simpa [MailmboxFolder.infoSet, MailmboxFolder.hashSet] using valid.indexed index other found
      · simpa [MailmboxFolder.infoSet, MailmboxFolder.hashSet, same] using valid.indexed index other found
    hashed := by
      intro key other
      have hashed := valid.hashed key other
      by_cases sameKey : key = uid
      · subst sameKey
        by_cases same : other = address
        · simp [MailmboxFolder.infoSet, MailmboxFolder.hashSet, same, eq_comm]
        · have different : ¬ (parsing.folder.info other).msgUid = key ∨ other ∉ parsing.folder.mbTab := by
            by_contra both
            rw [not_or, not_not, not_not] at both
            have again := hashed.mpr ⟨both.2, both.1, nonzero⟩
            rw [known, Option.some.injEq] at again
            exact same again.symm
          simp only [MailmboxFolder.infoSet, MailmboxFolder.hashSet, Function.update_self, reduceCtorEq,
            Function.update_of_ne same, false_iff, not_and]
          intro listed owned
          rcases different with unowned | unlisted
          · exact absurd owned unowned
          · exact absurd listed unlisted
      · by_cases same : other = address
        · subst same
          simp only [MailmboxFolder.infoSet, MailmboxFolder.hashSet, Function.update_self,
            Function.update_of_ne sameKey, hashed, owner]
          constructor
          · rintro ⟨-, rfl, -⟩
            exact absurd rfl sameKey
          · rintro ⟨-, rfl, zero⟩
            exact absurd rfl zero
        · simpa only [MailmboxFolder.infoSet, MailmboxFolder.hashSet, Function.update_of_ne same,
            Function.update_of_ne sameKey] using hashed
    highest := by
      intro other listed
      by_cases same : other = address
      · subst same
        simp [MailmboxFolder.infoSet]
      · simpa [MailmboxFolder.infoSet, MailmboxFolder.hashSet, same] using valid.highest other listed
    waiting := by
      intro other listed zero
      by_cases same : other = address
      · subst same
        simp [MailmboxFolder.infoSet]
      · simp only [MailmboxFolder.infoSet, MailmboxFolder.hashSet, Function.update_of_ne same] at zero ⊢
        exact min_le_of_right_le (valid.waiting other listed zero)
    firstIndex_le := min_le_of_right_le valid.firstIndex_le }

structure Added (before after : MailmboxFolder) (place : MsgPlace) (uid : UInt32) : Prop where
  tab : after.mbTab = before.mbTab ++ [before.allocated]
  allocated : after.allocated = before.allocated + 1
  info : after.info = Function.update before.info before.allocated
    { mailmboxMsgInfoNew place uid with msgIndex := before.mbTab.length }
  hash : after.mbHash = if uid = 0 then before.mbHash
    else Function.update before.mbHash uid (some before.allocated)

theorem mailmboxMsgInfoUpdate_added {folder : MailmboxFolder} {uid : UInt32} (place : MsgPlace)
    (unknown : folder.mbHash uid = none) : Added folder (mailmboxMsgInfoUpdate folder place uid) place uid := by
  rw [mailmboxMsgInfoUpdate, unknown]
  by_cases zero : uid = 0
  · simp only [zero, if_true]
    exact ⟨rfl, rfl, rfl, rfl⟩
  · simp only [zero, if_false]
    exact ⟨rfl, rfl, rfl, by rw [if_neg zero]; rfl⟩

theorem Parsing.Valid.add {parsing : Parsing} (valid : parsing.Valid) {after : MailmboxFolder} {place : MsgPlace}
    {uid : UInt32} (added : Added parsing.folder after place uid) (unknown : parsing.folder.mbHash uid = none) :
    Parsing.Valid { parsing with folder := after, maxUid := higherUid uid parsing.maxUid } := by
  have unused : parsing.folder.allocated ∉ parsing.folder.mbTab := fun member =>
    lt_irrefl _ (valid.below _ member)
  have old : ∀ address ∈ parsing.folder.mbTab, after.info address = parsing.folder.info address := by
    intro address member
    rw [added.info, Function.update_of_ne]
    exact fun same => unused (same ▸ member)
  have new : after.info parsing.folder.allocated =
      { mailmboxMsgInfoNew place uid with msgIndex := parsing.folder.mbTab.length } := by
    rw [added.info, Function.update_self]
  have listed : ∀ address, address ∈ after.mbTab ↔
      address ∈ parsing.folder.mbTab ∨ address = parsing.folder.allocated := by
    intro address
    rw [added.tab, List.mem_append, List.mem_singleton]
  exact {
    nodup := by
      simp only [added.tab]
      exact List.nodup_append.mpr ⟨valid.nodup, List.nodup_singleton _, by
        intro address member other single same
        rw [List.mem_singleton.mp single] at same
        exact unused (same ▸ member)⟩
    below := by
      intro address member
      simp only [added.allocated]
      rcases (listed address).mp member with member | rfl
      · exact Nat.lt_succ_of_lt (valid.below address member)
      · exact Nat.lt_succ_self _
    indexed := by
      intro index address found
      simp only [added.tab, List.getElem?_append] at found
      split_ifs at found with early
      · have member := List.mem_of_getElem? found
        simpa only [old address member] using valid.indexed index address found
      · obtain ⟨zero, rfl⟩ : index - parsing.folder.mbTab.length = 0 ∧ address = parsing.folder.allocated := by
          rw [List.getElem?_singleton] at found
          split_ifs at found with zero
          exact ⟨zero, (Option.some.inj found).symm⟩
        simp only [new]
        omega
    hashed := by
      intro key address
      have hashed := valid.hashed key address
      rw [listed]
      by_cases fresh : address = parsing.folder.allocated
      · -- The new record is known under its UID and under no other.
        subst fresh
        have unlisted : parsing.folder.mbHash key ≠ some parsing.folder.allocated := fun known =>
          unused (hashed.mp known).1
        simp only [new, added.hash, mailmboxMsgInfoNew]
        by_cases zero : uid = 0
        · simp [zero, unlisted, eq_comm]
        · by_cases sameKey : key = uid
          · simp [sameKey, zero]
          · simp [zero, Function.update_of_ne sameKey, unlisted, Ne.symm sameKey]
      · have sameHash : after.mbHash key = some address ↔ parsing.folder.mbHash key = some address := by
          rw [added.hash]
          by_cases zero : uid = 0
          · rw [if_pos zero]
          · by_cases sameKey : key = uid
            · simp [zero, sameKey, unknown, Ne.symm fresh]
            · rw [if_neg zero, Function.update_of_ne sameKey]
        simp only [sameHash, hashed, fresh, or_false]
        refine and_congr_right fun member => ?_
        rw [old address member]
    highest := by
      intro address member
      rcases (listed address).mp member with member | rfl
      · simpa only [old address member] using UInt32.le_trans (valid.highest address member) (le_higherUid_right _ _)
      · simp only [new]
        exact le_higherUid_left uid _
    waiting := by
      intro address member zero
      rcases (listed address).mp member with member | rfl
      · simp only [old address member] at zero ⊢
        exact valid.waiting address member zero
      · simpa only [new] using valid.firstIndex_le
    firstIndex_le := by
      simp only [added.tab, List.length_append]
      exact Nat.le_add_right_of_le valid.firstIndex_le }

theorem claimUid_temporary {parsing : Parsing} {uid : UInt32} {address : Nat}
    (known : parsing.folder.mbHash uid = some address)
    (temporary : (parsing.folder.info address).msgWrittenUid = false) :
    parsing.claimUid uid = ({ parsing with
      folder := (parsing.folder.hashSet uid none).infoSet address
        { parsing.folder.info address with msgUid := 0 }
      firstIndex := min (parsing.folder.info address).msgIndex parsing.firstIndex }, uid) := by
  rw [Parsing.claimUid, known]
  exact if_neg (by rw [temporary]; decide)

theorem claimUid_written {parsing : Parsing} {uid : UInt32} {address : Nat}
    (known : parsing.folder.mbHash uid = some address)
    (written : (parsing.folder.info address).msgWrittenUid = true) : parsing.claimUid uid = (parsing, 0) := by
  rw [Parsing.claimUid, known]
  exact if_pos written

theorem claimUid_unknown {parsing : Parsing} {uid : UInt32} (unknown : parsing.folder.mbHash uid = none) :
    parsing.claimUid uid = (parsing, uid) := by
  rw [Parsing.claimUid, unknown]

theorem Parsing.Valid.claimUid {parsing : Parsing} (valid : parsing.Valid) (uid : UInt32) :
    (parsing.claimUid uid).1.Valid ∧
      (parsing.claimUid uid).1.folder.mbHash (parsing.claimUid uid).2 = none ∧
      SameMessages parsing.folder (parsing.claimUid uid).1.folder := by
  cases known : parsing.folder.mbHash uid with
  | none =>
      rw [claimUid_unknown known]
      exact ⟨valid, known, SameMessages.refl _⟩
  | some address =>
      cases written : (parsing.folder.info address).msgWrittenUid with
      | true =>
          rw [claimUid_written known written]
          exact ⟨valid, valid.noZero, SameMessages.refl _⟩
      | false =>
          rw [claimUid_temporary known written]
          refine ⟨valid.release known, by simp [MailmboxFolder.infoSet, MailmboxFolder.hashSet], ?_⟩
          refine ⟨rfl, rfl, fun other => ?_⟩
          by_cases same : other = address
          · simp [MailmboxFolder.infoSet, MailmboxFolder.hashSet, same]
          · simp [MailmboxFolder.infoSet, MailmboxFolder.hashSet, same]

theorem Parsing.Valid.message {parsing : Parsing} (valid : parsing.Valid) (found : MsgPlace × UInt32) :
    (parsing.message found).Valid := by
  obtain ⟨claimed, unknown, -⟩ := valid.claimUid found.2
  exact claimed.add (mailmboxMsgInfoUpdate_added found.1 unknown) unknown

theorem Parsing.Valid.messages {parsing : Parsing} (valid : parsing.Valid) (messages : List (MsgPlace × UInt32)) :
    (messages.foldl Parsing.message parsing).Valid := by
  induction messages generalizing parsing with
  | nil => exact valid
  | cons found messages ih => exact ih (valid.message found)

structure Counted (numbered : MailmboxFolder × UInt32) : Prop where
  hashed : ∀ uid address, numbered.1.mbHash uid = some address ↔
    address ∈ numbered.1.mbTab ∧ (numbered.1.info address).msgUid = uid ∧ uid ≠ 0
  highest : ∀ address ∈ numbered.1.mbTab, (numbered.1.info address).msgUid ≤ numbered.2

theorem attributeUid_sameMessages (numbered : MailmboxFolder × UInt32) (address : Nat) :
    SameMessages numbered.1 (attributeUid numbered address).1 := by
  rw [attributeUid]
  by_cases named : (numbered.1.info address).msgUid ≠ 0
  · simp only [named, if_true, ne_eq, not_false_eq_true]
    exact SameMessages.refl _
  · simp only [named, if_false]
    refine ⟨rfl, rfl, fun other => ?_⟩
    by_cases same : other = address
    · simp [MailmboxFolder.infoSet, MailmboxFolder.hashSet, same]
    · simp [MailmboxFolder.infoSet, MailmboxFolder.hashSet, same]

theorem attributeUid_of_named {numbered : MailmboxFolder × UInt32} {address : Nat}
    (named : (numbered.1.info address).msgUid ≠ 0) : attributeUid numbered address = numbered := by
  rw [attributeUid]
  simp only [named, ne_eq, not_false_eq_true, if_true]

theorem succ_ne_zero_of_lt {uid : UInt32} (room : uid.toNat + 1 < 2 ^ 32) :
    (uid + 1).toNat = uid.toNat + 1 ∧ uid + 1 ≠ 0 := by
  have value : (uid + 1).toNat = uid.toNat + 1 := by
    rw [UInt32.toNat_add, UInt32.toNat_one, Nat.mod_eq_of_lt room]
  refine ⟨value, fun zero => ?_⟩
  rw [zero, UInt32.toNat_zero] at value
  omega

theorem Counted.attributeUid {numbered : MailmboxFolder × UInt32} (counted : Counted numbered) {address : Nat}
    (member : address ∈ numbered.1.mbTab) (room : numbered.2.toNat + 1 < 2 ^ 32) :
    Counted (attributeUid numbered address) := by
  by_cases named : (numbered.1.info address).msgUid ≠ 0
  · rw [attributeUid_of_named named]
    exact counted
  · rw [not_not] at named
    obtain ⟨value, nonzero⟩ := succ_ne_zero_of_lt room
    have above : ∀ other ∈ numbered.1.mbTab, (numbered.1.info other).msgUid ≠ numbered.2 + 1 := by
      intro other listed same
      have bound := UInt32.le_iff_toNat_le.mp (counted.highest other listed)
      rw [same, value] at bound
      omega
    rw [Mbox.attributeUid]
    simp only [named, ne_eq, not_true_eq_false, if_false]
    exact {
      hashed := by
        intro uid other
        have hashed := counted.hashed uid other
        by_cases sameKey : uid = numbered.2 + 1
        · subst sameKey
          by_cases same : other = address
          · simp [MailmboxFolder.infoSet, MailmboxFolder.hashSet, same, member, nonzero]
          · simp only [MailmboxFolder.infoSet, MailmboxFolder.hashSet, Function.update_self, Option.some.injEq,
              Function.update_of_ne same, Ne.symm same, false_iff]
            exact fun ⟨listed, owned, _⟩ => above other listed owned
        · by_cases same : other = address
          · subst same
            simp only [MailmboxFolder.infoSet, MailmboxFolder.hashSet, Function.update_self,
              Function.update_of_ne sameKey, hashed, named]
            constructor
            · rintro ⟨-, rfl, zero⟩
              exact absurd rfl zero
            · rintro ⟨-, rfl, -⟩
              exact absurd rfl sameKey
          · simpa only [MailmboxFolder.infoSet, MailmboxFolder.hashSet, Function.update_of_ne same,
              Function.update_of_ne sameKey] using hashed
      highest := by
        intro other listed
        by_cases same : other = address
        · simp [MailmboxFolder.infoSet, MailmboxFolder.hashSet, same]
        · simp only [MailmboxFolder.infoSet, MailmboxFolder.hashSet, Function.update_of_ne same]
          have bound := UInt32.le_iff_toNat_le.mp (counted.highest other listed)
          rw [UInt32.le_iff_toNat_le, value]
          omega }

def numberInfos : UInt32 → List MailmboxMsgInfo → List MailmboxMsgInfo
  | _, [] => []
  | maxUid, info :: infos =>
      if info.msgUid ≠ 0 then info :: numberInfos maxUid infos
      else { info with msgUid := maxUid + 1 } :: numberInfos (maxUid + 1) infos

theorem attributeUid_frame (numbered : MailmboxFolder × UInt32) {address other : Nat} (different : other ≠ address) :
    (attributeUid numbered address).1.info other = numbered.1.info other := by
  rw [attributeUid]
  by_cases named : (numbered.1.info address).msgUid ≠ 0
  · simp only [named, if_true, ne_eq, not_false_eq_true]
  · simp only [named, if_false, MailmboxFolder.infoSet, MailmboxFolder.hashSet,
      Function.update_of_ne different]

theorem attributeUids_frame (addresses : List Nat) (numbered : MailmboxFolder × UInt32) {other : Nat}
    (outside : other ∉ addresses) :
    (addresses.foldl attributeUid numbered).1.info other = numbered.1.info other := by
  induction addresses generalizing numbered with
  | nil => rfl
  | cons address addresses ih =>
      rw [List.mem_cons, not_or] at outside
      rw [List.foldl_cons, ih _ outside.2, attributeUid_frame _ outside.1]

theorem attributeUids_sameMessages (addresses : List Nat) (numbered : MailmboxFolder × UInt32) :
    SameMessages numbered.1 (addresses.foldl attributeUid numbered).1 := by
  induction addresses generalizing numbered with
  | nil => exact SameMessages.refl _
  | cons address addresses ih => exact (attributeUid_sameMessages numbered address).trans (ih _)

theorem attributeUids_infos {addresses : List Nat} (nodup : addresses.Nodup) (numbered : MailmboxFolder × UInt32) :
    addresses.map (addresses.foldl attributeUid numbered).1.info =
      numberInfos numbered.2 (addresses.map numbered.1.info) := by
  induction addresses generalizing numbered with
  | nil => rfl
  | cons address addresses ih =>
      obtain ⟨outside, nodup⟩ := List.nodup_cons.mp nodup
      have others : addresses.map (attributeUid numbered address).1.info = addresses.map numbered.1.info :=
        List.map_congr_left fun other member => attributeUid_frame _ fun same => outside (same ▸ member)
      rw [List.map_cons, List.map_cons, List.foldl_cons, attributeUids_frame _ _ outside, ih nodup, others,
        numberInfos]
      by_cases named : (numbered.1.info address).msgUid ≠ 0
      · rw [attributeUid_of_named named, if_pos named]
      · simp only [attributeUid, named, if_false, MailmboxFolder.infoSet, MailmboxFolder.hashSet,
          Function.update_self]

def MailmboxFolder.waiting (folder : MailmboxFolder) (addresses : List Nat) : Nat :=
  addresses.countP fun address => (folder.info address).msgUid = 0

theorem Counted.attributeUids {addresses : List Nat} (nodup : addresses.Nodup) {numbered : MailmboxFolder × UInt32}
    (counted : Counted numbered) (listed : ∀ address ∈ addresses, address ∈ numbered.1.mbTab)
    (room : numbered.2.toNat + numbered.1.waiting addresses < 2 ^ 32) :
    Counted (addresses.foldl Mbox.attributeUid numbered) ∧
      (addresses.foldl Mbox.attributeUid numbered).2.toNat = numbered.2.toNat + numbered.1.waiting addresses ∧
      ∀ address ∈ addresses, ((addresses.foldl Mbox.attributeUid numbered).1.info address).msgUid ≠ 0 := by
  induction addresses generalizing numbered with
  | nil => exact ⟨counted, rfl, nofun⟩
  | cons address addresses ih =>
      obtain ⟨outside, nodup⟩ := List.nodup_cons.mp nodup
      have others : (Mbox.attributeUid numbered address).1.waiting addresses = numbered.1.waiting addresses := by
        apply List.countP_congr
        intro other member
        have different : other ≠ address := fun same => outside (same ▸ member)
        rw [attributeUid_frame _ different]
      have tab := (attributeUid_sameMessages numbered address).tab
      rw [MailmboxFolder.waiting, List.countP_cons, ← MailmboxFolder.waiting] at room ⊢
      by_cases named : (numbered.1.info address).msgUid ≠ 0
      · simp only [named, decide_false, Bool.false_eq_true, if_false, Nat.add_zero] at room ⊢
        rw [List.foldl_cons, attributeUid_of_named named]
        obtain ⟨result, value, nonzero⟩ := ih nodup counted (fun other member => listed other (.tail _ member)) room
        refine ⟨result, value, fun other member => ?_⟩
        rcases List.mem_cons.mp member with rfl | member
        · rw [attributeUids_frame _ _ outside]
          exact named
        · exact nonzero other member
      · rw [not_not] at named
        simp only [named, decide_true, if_true] at room ⊢
        have step : (Mbox.attributeUid numbered address).2 = numbered.2 + 1 ∧
            ((Mbox.attributeUid numbered address).1.info address).msgUid = numbered.2 + 1 := by
          simp [Mbox.attributeUid, named, MailmboxFolder.infoSet, MailmboxFolder.hashSet]
        obtain ⟨value_succ, succ_ne⟩ : (numbered.2 + 1).toNat = numbered.2.toNat + 1 ∧ numbered.2 + 1 ≠ 0 :=
          succ_ne_zero_of_lt (by omega)
        obtain ⟨result, value, nonzero⟩ := ih nodup
          (counted.attributeUid (listed address (.head _)) (by omega))
          (fun other member => tab ▸ listed other (.tail _ member))
          (by rw [step.1, others, value_succ]; omega)
        rw [step.1, others, value_succ] at value
        refine ⟨result, by rw [List.foldl_cons, value]; omega, fun other member => ?_⟩
        rcases List.mem_cons.mp member with rfl | member
        · rw [List.foldl_cons, attributeUids_frame _ _ outside, step.2]
          exact succ_ne
        · exact nonzero other member

/-- The record of a message behind `infos`: a UID that one of them has is not taken over. -/
def freshInfo (infos : List MailmboxMsgInfo) (found : MsgPlace × UInt32) : MailmboxMsgInfo :=
  { mailmboxMsgInfoNew found.1 (if found.2 ∈ infos.map (·.msgUid) then 0 else found.2) with
    msgIndex := infos.length }

def freshInfos (infos : List MailmboxMsgInfo) (messages : List (MsgPlace × UInt32)) : List MailmboxMsgInfo :=
  messages.foldl (fun infos found => infos ++ [freshInfo infos found]) infos

structure Parsing.Fresh (parsing : Parsing) : Prop extends parsing.Valid where
  written : ∀ address ∈ parsing.folder.mbTab, (parsing.folder.info address).msgUid ≠ 0 →
    (parsing.folder.info address).msgWrittenUid = true
  firstIndex_eq : parsing.firstIndex = 0

theorem Parsing.Fresh.claimUid {parsing : Parsing} (fresh : parsing.Fresh) (uid : UInt32) :
    parsing.claimUid uid = (parsing, if uid ∈ parsing.folder.infos.map (·.msgUid) then 0 else uid) := by
  cases known : parsing.folder.mbHash uid with
  | none =>
      rw [claimUid_unknown known]
      split_ifs with member
      · simp only [MailmboxFolder.infos, List.map_map, List.mem_map, Function.comp_apply] at member
        obtain ⟨address, listed, owned⟩ := member
        by_cases zero : uid = 0
        · rw [zero]
        · rw [(fresh.hashed uid address).mpr ⟨listed, owned, zero⟩] at known
          contradiction
      · rfl
  | some address =>
      obtain ⟨listed, owned, nonzero⟩ := (fresh.hashed uid address).mp known
      have written := fresh.written address listed (owned ▸ nonzero)
      rw [claimUid_written known written, if_pos]
      simp only [MailmboxFolder.infos, List.map_map, List.mem_map, Function.comp_apply]
      exact ⟨address, listed, owned⟩

theorem Added.infos {before after : MailmboxFolder} {place : MsgPlace} {uid : UInt32}
    (added : Added before after place uid) (below : ∀ address ∈ before.mbTab, address < before.allocated) :
    after.infos = before.infos ++ [{ mailmboxMsgInfoNew place uid with msgIndex := before.mbTab.length }] := by
  rw [MailmboxFolder.infos, MailmboxFolder.infos, added.tab, List.map_append, List.map_singleton, added.info,
    Function.update_self]
  congr 1
  apply List.map_congr_left
  intro address member
  rw [Function.update_of_ne (below address member).ne]

theorem Parsing.Fresh.message {parsing : Parsing} (fresh : parsing.Fresh) (found : MsgPlace × UInt32) :
    (parsing.message found).Fresh ∧
      (parsing.message found).folder.infos = parsing.folder.infos ++ [freshInfo parsing.folder.infos found] ∧
      (parsing.message found).maxUid = higherUid (freshInfo parsing.folder.infos found).msgUid parsing.maxUid := by
  obtain ⟨-, unknown, -⟩ := fresh.toValid.claimUid found.2
  have valid := fresh.toValid.message found
  rw [fresh.claimUid] at unknown
  rw [Parsing.message, fresh.claimUid] at valid ⊢
  have added := mailmboxMsgInfoUpdate_added found.1 unknown
  refine ⟨⟨valid, ?_, fresh.firstIndex_eq⟩, ?_, rfl⟩
  · intro address member named
    simp only [added.tab, List.mem_append, List.mem_singleton] at member
    rw [added.info] at named ⊢
    rcases member with member | rfl
    · have old : address ≠ parsing.folder.allocated := (fresh.below address member).ne
      rw [Function.update_of_ne old] at named ⊢
      exact fresh.written address member named
    · rw [Function.update_self] at named ⊢
      exact decide_eq_true named
  · simpa only [freshInfo, MailmboxFolder.infos, List.length_map] using added.infos fresh.below

def highestOf (writtenUid : UInt32) (infos : List MailmboxMsgInfo) : UInt32 :=
  infos.foldl (fun highest info => higherUid info.msgUid highest) writtenUid

theorem Parsing.Fresh.messages {parsing : Parsing} (fresh : parsing.Fresh) {writtenUid : UInt32}
    (highest : parsing.maxUid = highestOf writtenUid parsing.folder.infos) (messages : List (MsgPlace × UInt32)) :
    (messages.foldl Parsing.message parsing).Fresh ∧
      (messages.foldl Parsing.message parsing).folder.infos = freshInfos parsing.folder.infos messages ∧
      (messages.foldl Parsing.message parsing).maxUid =
        highestOf writtenUid (freshInfos parsing.folder.infos messages) := by
  induction messages generalizing parsing with
  | nil => exact ⟨fresh, rfl, highest⟩
  | cons found messages ih =>
      obtain ⟨behind, infos, maxUid⟩ := fresh.message found
      have continued : freshInfos parsing.folder.infos (found :: messages) =
          freshInfos (parsing.message found).folder.infos messages := by
        rw [infos]
        rfl
      rw [continued]
      apply ih behind
      rw [maxUid, highest, infos, highestOf, highestOf, List.foldl_append]
      rfl

structure SameFolder (before after : MailmboxFolder) : Prop where
  readOnly : after.mbReadOnly = before.mbReadOnly
  noUid : after.mbNoUid = before.mbNoUid
  changed : after.mbChanged = before.mbChanged
  mapping : after.mbMapping = before.mbMapping

theorem SameFolder.trans {first second third : MailmboxFolder} (early : SameFolder first second)
    (late : SameFolder second third) : SameFolder first third :=
  ⟨late.readOnly.trans early.readOnly, late.noUid.trans early.noUid, late.changed.trans early.changed,
    late.mapping.trans early.mapping⟩

theorem message_sameFolder (parsing : Parsing) (found : MsgPlace × UInt32) :
    SameFolder parsing.folder (parsing.message found).folder := by
  have claimed : SameFolder parsing.folder (parsing.claimUid found.2).1.folder := by
    rw [Parsing.claimUid]
    split
    · exact ⟨rfl, rfl, rfl, rfl⟩
    · dsimp only
      split_ifs <;> exact ⟨rfl, rfl, rfl, rfl⟩
  apply claimed.trans
  change SameFolder _ (mailmboxMsgInfoUpdate _ _ _)
  rw [mailmboxMsgInfoUpdate]
  split
  · split_ifs <;> exact ⟨rfl, rfl, rfl, rfl⟩
  · exact ⟨rfl, rfl, rfl, rfl⟩

theorem messages_sameFolder (parsing : Parsing) (messages : List (MsgPlace × UInt32)) :
    SameFolder parsing.folder (messages.foldl Parsing.message parsing).folder := by
  induction messages generalizing parsing with
  | nil => exact ⟨rfl, rfl, rfl, rfl⟩
  | cons found messages ih => exact (message_sameFolder parsing found).trans (ih _)

theorem attributeUids_sameFolder (addresses : List Nat) (numbered : MailmboxFolder × UInt32) :
    SameFolder numbered.1 (addresses.foldl attributeUid numbered).1 := by
  induction addresses generalizing numbered with
  | nil => exact ⟨rfl, rfl, rfl, rfl⟩
  | cons address addresses ih =>
      refine SameFolder.trans ?_ (ih _)
      rw [attributeUid]
      by_cases named : (numbered.1.info address).msgUid ≠ 0
      · simp only [named, if_true, ne_eq, not_false_eq_true]
        exact ⟨rfl, rfl, rfl, rfl⟩
      · simp only [named, if_false]
        exact ⟨rfl, rfl, rfl, rfl⟩

structure MailmboxFolder.Consistent (folder : MailmboxFolder) : Prop where
  nodup : folder.mbTab.Nodup
  below : ∀ address ∈ folder.mbTab, address < folder.allocated
  indexed : ∀ index address, folder.mbTab[index]? = some address → (folder.info address).msgIndex = index
  hashed : ∀ uid address, folder.mbHash uid = some address ↔
    address ∈ folder.mbTab ∧ (folder.info address).msgUid = uid
  nonzero : ∀ address ∈ folder.mbTab, (folder.info address).msgUid ≠ 0
  highest : ∀ address ∈ folder.mbTab, (folder.info address).msgUid ≤ folder.mbMaxUid

def Parsing.number (parsing : Parsing) : MailmboxFolder :=
  let numbered := (parsing.folder.mbTab.drop parsing.firstIndex).foldl attributeUid (parsing.folder, parsing.maxUid)
  { numbered.1 with mbWrittenUid := parsing.maxUid, mbMaxUid := numbered.2 }

theorem Parsing.Valid.named_of_early {parsing : Parsing} (valid : parsing.Valid) {address : Nat}
    (member : address ∈ parsing.folder.mbTab) (early : address ∉ parsing.folder.mbTab.drop parsing.firstIndex) :
    (parsing.folder.info address).msgUid ≠ 0 := by
  intro zero
  have late := valid.waiting address member zero
  obtain ⟨index, found⟩ := List.mem_iff_getElem?.mp member
  rw [valid.indexed index address found] at late
  apply early
  apply List.mem_of_getElem? (i := index - parsing.firstIndex)
  rw [List.getElem?_drop, Nat.add_sub_cancel' late, found]

theorem Parsing.Valid.consistent {parsing : Parsing} (valid : parsing.Valid)
    (room : parsing.maxUid.toNat + parsing.folder.waiting parsing.folder.mbTab < 2 ^ 32) :
    parsing.number.Consistent ∧ parsing.maxUid ≤ parsing.number.mbMaxUid := by
  have counted : Counted (parsing.folder, parsing.maxUid) := ⟨valid.hashed, valid.highest⟩
  have fewer : parsing.folder.waiting (parsing.folder.mbTab.drop parsing.firstIndex) ≤
      parsing.folder.waiting parsing.folder.mbTab :=
    List.Sublist.countP_le (List.drop_sublist _ _)
  have nodup : (parsing.folder.mbTab.drop parsing.firstIndex).Nodup :=
    valid.nodup.sublist (List.drop_sublist _ _)
  obtain ⟨result, value, nonzero⟩ := counted.attributeUids nodup (fun _ => List.mem_of_mem_drop) (by
    change parsing.maxUid.toNat + parsing.folder.waiting _ < 2 ^ 32
    omega)
  have same := attributeUids_sameMessages (parsing.folder.mbTab.drop parsing.firstIndex)
    (parsing.folder, parsing.maxUid)
  have named : ∀ address ∈ parsing.number.mbTab, (parsing.number.info address).msgUid ≠ 0 := by
    intro address member
    by_cases late : address ∈ parsing.folder.mbTab.drop parsing.firstIndex
    · exact nonzero address late
    · change ((List.foldl attributeUid _ _).1.info address).msgUid ≠ 0
      rw [attributeUids_frame _ _ late]
      exact valid.named_of_early (same.tab ▸ member) late
  refine ⟨?_, ?_⟩
  · exact {
      nodup := same.tab ▸ valid.nodup
      below := by
        intro address member
        rw [Parsing.number, same.tab] at member
        rw [Parsing.number, same.allocated]
        exact valid.below address member
      indexed := by
        intro index address found
        rw [Parsing.number, same.tab] at found
        rw [Parsing.number, same.info]
        exact valid.indexed index address found
      hashed := by
        intro uid address
        refine (result.hashed uid address).trans ⟨fun ⟨member, owned, _⟩ => ⟨member, owned⟩, ?_⟩
        exact fun ⟨member, owned⟩ => ⟨member, owned, owned ▸ named address member⟩
      nonzero := named
      highest := result.highest }
  · rw [UInt32.le_iff_toNat_le, Parsing.number, value]
    exact Nat.le_add_right _ _

theorem number_sameFolder (parsing : Parsing) : SameFolder parsing.folder parsing.number := by
  have same := attributeUids_sameFolder (parsing.folder.mbTab.drop parsing.firstIndex) (parsing.folder, parsing.maxUid)
  exact ⟨same.readOnly, same.noUid, same.changed, same.mapping⟩

theorem Parsing.Fresh.number_infos {parsing : Parsing} (fresh : parsing.Fresh) :
    parsing.number.infos = numberInfos parsing.maxUid parsing.folder.infos := by
  have same := attributeUids_sameMessages parsing.folder.mbTab (parsing.folder, parsing.maxUid)
  have numbered := attributeUids_infos fresh.nodup (parsing.folder, parsing.maxUid)
  rw [MailmboxFolder.infos, Parsing.number, fresh.firstIndex_eq, List.drop_zero]
  simp only [same.tab]
  exact numbered

theorem mailmboxParseAdditionnal_eq (folder : MailmboxFolder) (cur : Nat) :
    mailmboxParseAdditionnal folder cur = Parsing.number
      ((messagesFrom cur (folder.mbMapping.drop cur)).foldl Parsing.message
        ⟨(folder.removeStale cur).reindex, ((folder.removeStale cur).reindex).highestUid,
          ((folder.removeStale cur).reindex).mbTab.length⟩) := rfl

/-- The folder in which `mailmbox_parse` starts. -/
def emptied (folder : MailmboxFolder) : Parsing :=
  ⟨((flushUid folder).removeStale 0).reindex, folder.mbWrittenUid, 0⟩

theorem emptied_fresh (folder : MailmboxFolder) : (emptied folder).Fresh := by
  have noTab : (emptied folder).folder.mbTab = [] := rfl
  refine { nodup := ?_, below := ?_, indexed := ?_, hashed := ?_, highest := ?_, waiting := ?_,
           firstIndex_le := ?_, written := ?_, firstIndex_eq := rfl }
  all_goals simp only [noTab]
  · exact List.nodup_nil
  · nofun
  · nofun
  · intro uid address
    simp [emptied, flushUid, MailmboxFolder.removeStale, MailmboxFolder.reindex]
  · nofun
  · nofun
  · exact Nat.zero_le _
  · nofun

/-- The messages of the file, each under the UID of its headers if no earlier one has it. -/
def fileInfos (file : List UInt8) : List MailmboxMsgInfo := freshInfos [] (messagesFrom 0 file)

structure ParsedFolder (folder result : MailmboxFolder) : Prop where
  same : SameFolder folder result
  infos : result.infos =
    numberInfos (highestOf folder.mbWrittenUid (fileInfos folder.mbMapping)) (fileInfos folder.mbMapping)
  writtenUid : result.mbWrittenUid = highestOf folder.mbWrittenUid (fileInfos folder.mbMapping)

theorem mailmboxParse_eq (folder : MailmboxFolder) :
    mailmboxParse folder =
      ((messagesFrom 0 folder.mbMapping).foldl Parsing.message (emptied folder)).number := rfl

theorem emptied_messages (folder : MailmboxFolder) (messages : List (MsgPlace × UInt32)) :
    (messages.foldl Parsing.message (emptied folder)).Fresh ∧
      (messages.foldl Parsing.message (emptied folder)).folder.infos = freshInfos [] messages ∧
      (messages.foldl Parsing.message (emptied folder)).maxUid =
        highestOf folder.mbWrittenUid (freshInfos [] messages) := by
  have start : (emptied folder).maxUid = highestOf folder.mbWrittenUid (emptied folder).folder.infos := rfl
  exact (emptied_fresh folder).messages start messages

theorem mailmboxParse_parsed (folder : MailmboxFolder) : ParsedFolder folder (mailmboxParse folder) := by
  obtain ⟨fresh, infos, maxUid⟩ := emptied_messages folder (messagesFrom 0 folder.mbMapping)
  rw [mailmboxParse_eq]
  exact {
    same := by
      have start : SameFolder folder (emptied folder).folder := ⟨rfl, rfl, rfl, rfl⟩
      exact (start.trans (messages_sameFolder _ _)).trans (number_sameFolder _)
    infos := by rw [fresh.number_infos, maxUid, infos]; rfl
    writtenUid := maxUid }

theorem mailmboxParse_consistent {folder : MailmboxFolder}
    (room : (highestOf folder.mbWrittenUid (fileInfos folder.mbMapping)).toNat +
      (fileInfos folder.mbMapping).countP (fun info => info.msgUid = 0) < 2 ^ 32) :
    (mailmboxParse folder).Consistent := by
  obtain ⟨fresh, infos, maxUid⟩ := emptied_messages folder (messagesFrom 0 folder.mbMapping)
  rw [fileInfos, ← maxUid, ← infos, MailmboxFolder.infos, List.countP_map] at room
  exact (fresh.toValid.consistent room).1

end Etpan.Mbox
