import Etpan.Data.LittleEndian
import Etpan.DataTypes.Carray
import Etpan.DataTypes.Chash
import Mathlib.Data.List.Sort
import Etpan.Mime.Message

namespace Etpan.Cache

open Etpan.Data Etpan.DataTypes Carray Chash Etpan.Mime

/-! The flags store of driver/tools/generic_cache.c.

The messages are in an array, and a hash table tells the position of each in it.  The copies of a
message and of its flags are allocated. -/

structure MailFlags where
  flFlags : UInt32
  flExtension : List (List UInt8)
deriving Repr, DecidableEq

/-- `mailmessage`, without the session and the driver. -/
structure Mailmessage where
  msgIndex : UInt32
  msgUid : Option (List UInt8)
  msgCached : Bool
  msgSize : UInt64
  msgFlags : Option MailFlags
deriving Repr, DecidableEq

def mailFlagsDup (flags : MailFlags) : MailFlags :=
  { flFlags := flags.flFlags, flExtension := flags.flExtension.foldl (fun list ext => list ++ [ext]) [] }

def mailmessageBuild (msg : Mailmessage) : Mailmessage :=
  { msgIndex := msg.msgIndex, msgUid := msg.msgUid, msgCached := msg.msgCached, msgSize := msg.msgSize
    msgFlags := msg.msgFlags.map mailFlagsDup }

/-- The four octets of an unsigned int, as a key or a value of a hash table. -/
def uintDatum (value : UInt32) : Chashdatum where
  data := littleEndian 4 value
  bounded := by
    rw [littleEndian_length]
    omega

def uintOf (datum : Chashdatum) : UInt32 := readLittleEndian 0 0 datum.data

structure MailFlagsStore where
  flsTab : Carray Mailmessage
  flsHash : Chash

inductive MailError where
  | noError
  | memory
deriving Repr, DecidableEq

/-- `none` where the array cannot be allocated. -/
def mailFlagsStoreNew (slots : Option (Slots Mailmessage)) : Option MailFlagsStore :=
  (carrayNew 128 true slots).map fun tab => { flsTab := tab, flsHash := chashNew 128 }

def MailFlagsStore.messages (store : MailFlagsStore) : List (Option Mailmessage) :=
  store.flsTab.array.take store.flsTab.len.toNat

def mailFlagsStoreClear (store : MailFlagsStore) : MailFlagsStore :=
  let hash := store.messages.foldl
    (fun hash msg => match msg with
      | some msg => (chashDelete hash (uintDatum msg.msgIndex)).2
      | none => hash) store.flsHash
  { flsTab := (carraySetSize store.flsTab 0 none).2, flsHash := hash }

/-- `slots` is what an allocation of the table would give. -/
def mailFlagsStoreSet (store : MailFlagsStore) (msg : Mailmessage) (slots : Option (Slots Mailmessage)) :
    MailError × MailFlagsStore :=
  match msg.msgFlags with
  | none => (.noError, store)
  | some _ =>
      let newMsg := mailmessageBuild msg
      let key := uintDatum newMsg.msgIndex
      match chashGet store.flsHash key with
      | some value =>
          let indx := uintOf value
          (.noError, { flsTab := carraySet store.flsTab indx newMsg, flsHash := (chashSet store.flsHash key (uintDatum indx)).2 })
      | none =>
          match carraySetSize store.flsTab (store.flsTab.len + 1) slots with
          | (false, tab) => (.memory, { store with flsTab := tab })
          | (true, tab) =>
              let indx := tab.len - 1
              (.noError, { flsTab := carraySet tab indx newMsg, flsHash := (chashSet store.flsHash key (uintDatum indx)).2 })

/-- The difference of the unsigned indices is returned as an int. -/
def msgIndexCompare (msg1 msg2 : Option Mailmessage) : Int32 :=
  match msg1, msg2 with
  | some msg1, some msg2 => (msg1.msgIndex - msg2.msgIndex).toInt32
  | _, _ => 0

def mailFlagsStoreSort (store : MailFlagsStore) : MailFlagsStore :=
  let sorted := store.messages.insertionSort fun msg1 msg2 => msgIndexCompare msg1 msg2 ≤ 0
  { store with flsTab := { store.flsTab with array := sorted ++ store.flsTab.array.drop store.flsTab.len.toNat } }

def mailFlagsStoreGet (store : MailFlagsStore) (indx : UInt32) : Option MailFlags :=
  match chashGet store.flsHash (uintDatum indx) with
  | none => none
  | some value =>
      match carrayGet store.flsTab (uintOf value) with
      | none => none
      | some msg => msg.msgFlags.map mailFlagsDup

/-! `mail_flags_compare` of driver/tools/generic_cache.c. -/

def mailFlagsCompare (flags1 flags2 : MailFlags) : Int32 :=
  if flags1.flExtension.length ≠ flags2.flExtension.length then -1
  else if flags1.flExtension.all fun flag1 => flags2.flExtension.any fun flag2 => sameCaseless flag1 flag2 then
    (flags1.flFlags - flags2.flFlags).toInt32
  else -1

def MailFlags.keywords (flags : MailFlags) : Finset (List UInt8) := (flags.flExtension.map fun keyword => keyword.map tolower).toFinset

def SameFlags (flags1 flags2 : MailFlags) : Prop := flags1.flFlags = flags2.flFlags ∧ flags1.keywords = flags2.keywords

/-- Where the first keywords are among the second ones, the lists are as long as each other when they have as
many different keywords. -/
def CountsTell (flags1 flags2 : MailFlags) : Prop :=
  flags1.flFlags = flags2.flFlags → flags1.keywords ⊆ flags2.keywords →
    (flags1.flExtension.length = flags2.flExtension.length ↔ flags1.keywords.card = flags2.keywords.card)

variable {flags1 flags2 : MailFlags}

theorem mem_keywords {flags : MailFlags} {word : List UInt8} : word ∈ flags.keywords ↔ ∃ keyword ∈ flags.flExtension, keyword.map tolower = word := by
  rw [MailFlags.keywords, List.mem_toFinset, List.mem_map]

theorem all_any_iff : (flags1.flExtension.all fun flag1 => flags2.flExtension.any fun flag2 => sameCaseless flag1 flag2) = true ↔
    flags1.keywords ⊆ flags2.keywords := by
  simp only [List.all_eq_true, List.any_eq_true, sameCaseless_iff]
  constructor
  · intro found word member
    obtain ⟨keyword, inFirst, same⟩ := mem_keywords.mp member
    obtain ⟨other, inSecond, alike⟩ := found keyword inFirst
    exact mem_keywords.mpr ⟨other, inSecond, alike.symm.trans same⟩
  · intro among keyword inFirst
    obtain ⟨other, inSecond, alike⟩ := mem_keywords.mp (among (mem_keywords.mpr ⟨keyword, inFirst, rfl⟩))
    exact ⟨other, inSecond, alike.symm⟩

theorem toInt32_sub_eq_zero (mask1 mask2 : UInt32) : (mask1 - mask2).toInt32 = 0 ↔ mask1 = mask2 := by
  constructor
  · intro zero
    have difference : mask1 - mask2 = 0 := congrArg Int32.toUInt32 zero
    rw [UInt32.sub_eq_iff_eq_add, UInt32.zero_add] at difference
    exact difference
  · intro same
    rw [same, UInt32.sub_self]
    rfl

theorem mailFlagsCompare_eq_zero : mailFlagsCompare flags1 flags2 = 0 ↔
    flags1.flExtension.length = flags2.flExtension.length ∧ flags1.keywords ⊆ flags2.keywords ∧ flags1.flFlags = flags2.flFlags := by
  have notZero : ¬ (-1 : Int32) = 0 := by decide
  rw [mailFlagsCompare]
  by_cases sameLength : flags1.flExtension.length = flags2.flExtension.length
  · rw [if_neg (not_not.mpr sameLength)]
    by_cases among : flags1.keywords ⊆ flags2.keywords
    · rw [if_pos (all_any_iff.mpr among), toInt32_sub_eq_zero]
      exact ⟨fun same => ⟨sameLength, among, same⟩, fun all => all.2.2⟩
    · rw [if_neg (mt all_any_iff.mp among)]
      exact ⟨fun zero => absurd zero notZero, fun all => absurd all.2.1 among⟩
  · rw [if_pos sameLength]
    exact ⟨fun zero => absurd zero notZero, fun all => absurd all.1 sameLength⟩

theorem keywords_eq_iff (among : flags1.keywords ⊆ flags2.keywords) : flags1.keywords = flags2.keywords ↔ flags1.keywords.card = flags2.keywords.card :=
  ⟨congrArg Finset.card, fun sameCard => Finset.eq_of_subset_of_card_le among (Nat.le_of_eq sameCard.symm)⟩

/-- Comparing decides equality of the two flags exactly where the counts tell. -/
theorem mailFlagsCompare_iff : (mailFlagsCompare flags1 flags2 = 0 ↔ SameFlags flags1 flags2) ↔ CountsTell flags1 flags2 := by
  rw [mailFlagsCompare_eq_zero, SameFlags]
  constructor
  · intro decides sameMask among
    constructor
    · intro sameLength
      exact congrArg Finset.card (decides.mp ⟨sameLength, among, sameMask⟩).2
    · intro sameCard
      exact (decides.mpr ⟨sameMask, (keywords_eq_iff among).mpr sameCard⟩).1
  · intro tells
    constructor
    · rintro ⟨sameLength, among, sameMask⟩
      exact ⟨sameMask, (keywords_eq_iff among).mpr ((tells sameMask among).mp sameLength)⟩
    · rintro ⟨sameMask, sameKeywords⟩
      have among : flags1.keywords ⊆ flags2.keywords := Eq.subset sameKeywords
      exact ⟨(tells sameMask among).mpr (congrArg Finset.card sameKeywords), among, sameMask⟩

/-- 0 says that the flags are the same where the counts tell, and only there; among flags for which they tell it
is an equivalence. -/
theorem mailFlagsCompare_decides (flags1 flags2 : MailFlags) (values : Set MailFlags) :
    ((mailFlagsCompare flags1 flags2 = 0 ↔ SameFlags flags1 flags2) ↔ CountsTell flags1 flags2) ∧
      ((∀ flags1 ∈ values, ∀ flags2 ∈ values, CountsTell flags1 flags2) →
        Equivalence fun flags1 flags2 : values => mailFlagsCompare flags1 flags2 = 0) := by
  refine ⟨mailFlagsCompare_iff, fun tell => ?_⟩
  have same : ∀ flags1 flags2 : values, mailFlagsCompare flags1 flags2 = 0 ↔ SameFlags flags1 flags2 := fun flags1 flags2 =>
    mailFlagsCompare_iff.mpr (tell flags1 flags1.property flags2 flags2.property)
  constructor
  · intro flags
    exact (same flags flags).mpr ⟨rfl, rfl⟩
  · intro flags1 flags2 zero
    obtain ⟨mask, keywords⟩ := (same flags1 flags2).mp zero
    exact (same flags2 flags1).mpr ⟨mask.symm, keywords.symm⟩
  · intro flags1 flags2 flags3 first second
    obtain ⟨mask1, keywords1⟩ := (same flags1 flags2).mp first
    obtain ⟨mask2, keywords2⟩ := (same flags2 flags3).mp second
    exact (same flags1 flags3).mpr ⟨mask1.trans mask2, keywords1.trans keywords2⟩

/-- A repeated keyword hides the other one. -/
theorem mailFlagsCompare_repeated :
    ¬ (mailFlagsCompare ⟨0, [asciiText "a", asciiText "a"]⟩ ⟨0, [asciiText "a", asciiText "b"]⟩ = 0 ↔
      SameFlags ⟨0, [asciiText "a", asciiText "a"]⟩ ⟨0, [asciiText "a", asciiText "b"]⟩) := by
  intro decides
  have zero : mailFlagsCompare ⟨0, [asciiText "a", asciiText "a"]⟩ ⟨0, [asciiText "a", asciiText "b"]⟩ = 0 := by decide
  have second : asciiText "b" ∈ MailFlags.keywords ⟨0, [asciiText "a", asciiText "b"]⟩ := by decide
  rw [← (decides.mp zero).2] at second
  revert second
  decide

end Etpan.Cache
