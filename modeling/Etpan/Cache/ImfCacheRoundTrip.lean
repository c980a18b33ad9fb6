import Etpan.Cache.ImfCache

namespace Etpan.Cache

open Etpan.Data

/-! Header fields are read back from the cache, and cut ones never. -/

def Returned (failure : Failure) : Prop := failure ≠ .overrun

theorem mailSerializeRead_reads (text : List UInt8) : Reads Returned (mailSerializeRead text.length) text text where
  whole := fun front rest => by
    have enough : ¬ front.length + text.length > (front ++ (text ++ rest)).length := by
      simp only [List.length_append]
      omega
    rw [mailSerializeRead, if_neg enough, List.drop_left, List.take_left]
  cut := fun front part short different => by
    have shorter : part.length < text.length := lt_of_le_of_ne short.length_le fun same => different (short.eq_of_length same)
    refine ⟨.stream, ?_, by simp [Returned]⟩
    rw [mailSerializeRead, if_pos]
    rw [List.length_append]
    omega

theorem intReadLoop_reads (octets : List UInt8) (value i : UInt32) :
    Reads Returned (intReadLoop octets.length value i) octets (readLittleEndian value i octets) := by
  induction octets generalizing value i with
  | nil => exact Reads.pure value
  | cons ch rest ih => exact (mailSerializeRead_reads [ch]).bind (ih _ _)

theorem mailimfCacheIntRead_reads (value : UInt32) : Reads Returned mailimfCacheIntRead (mailimfCacheIntWrite value) value := by
  have reads := intReadLoop_reads (littleEndian 4 value) 0 0
  rwa [littleEndian_length, readLittleEndian_littleEndian] at reads

/-- A string for which a block of its size in 32 bits can be had. -/
def Storable (str : Option CString) : Prop := ∀ text ∈ str, text.val.length + 1 < 2 ^ 32

theorem toCString_of_nulFree (str : CString) : toCString str.val = str := Subtype.ext (cString_eq_self str.property)

theorem toCString_length_le (block : List UInt8) : (toCString block).val.length ≤ block.length :=
  (List.takeWhile_prefix _).length_le

theorem blockRead_reads {size : Nat} {text : List UInt8} (fits : text.length ≤ size) :
    Reads Returned (blockRead size text.length) text text where
  whole := fun front rest => by
    rw [blockRead, (mailSerializeRead_reads text).whole]
    simp only
    rw [if_pos fits]
  cut := fun front part short different => by
    obtain ⟨e, failed, -⟩ := (mailSerializeRead_reads text).cut front part short different
    exact ⟨.file, by rw [blockRead, failed], by simp [Returned]⟩

theorem blockRead_ok {size length position position' : Nat} {bytes block : List UInt8}
    (read : blockRead size length bytes position = .ok (block, position')) : block.length ≤ length ∧ length ≤ size := by
  unfold blockRead at read
  split at read
  · cases read
  · next result found =>
    split at read
    · next fits =>
      cases read
      unfold mailSerializeRead at found
      split at found
      · cases found
      · cases found
        exact ⟨List.length_take_le _ _, fits⟩
    · cases read

theorem string_reads {str : Option CString} (storable : Storable str) :
    Reads Returned mailimfCacheStringRead (mailimfCacheStringWrite str) str := by
  unfold mailimfCacheStringRead
  cases str with
  | none =>
      rw [mailimfCacheStringWrite, ← List.append_nil (mailimfCacheIntWrite _)]
      refine (mailimfCacheIntRead_reads _).bind ?_
      rw [if_pos rfl]
      exact Reads.pure none
  | some text =>
      have bounded := storable text rfl
      have number : (UInt32.ofNat text.val.length).toNat = text.val.length := by
        rw [UInt32.toNat_ofNat', Nat.mod_eq_of_lt (by omega)]
      have one : (1 : UInt32).toNat = 1 := rfl
      have room : text.val.length ≤ (UInt32.ofNat text.val.length + 1).toNat := by
        rw [UInt32.toNat_add, number, one, Nat.mod_eq_of_lt bounded]
        omega
      refine (mailimfCacheIntRead_reads _).bind ?_
      rw [if_neg (by decide)]
      refine (mailimfCacheIntRead_reads _).bind ?_
      rw [number]
      have copied := (blockRead_reads room).make fun block => some (toCString block)
      rwa [toCString_of_nulFree] at copied

theorem string_misreads {str : Option CString} (bad : ¬ Storable str) :
    Misreads mailimfCacheStringRead (mailimfCacheStringWrite str) str := by
  unfold mailimfCacheStringRead
  cases str with
  | none => exact absurd (fun text impossible => (nomatch impossible)) bad
  | some text =>
      have long : ¬ text.val.length + 1 < 2 ^ 32 := fun bounded => bad fun text' same => by
        cases same
        exact bounded
      refine .bind_right (mailimfCacheIntRead_reads _) ?_
      rw [if_neg (by decide)]
      refine .bind_right (mailimfCacheIntRead_reads _) ?_
      intro front rest position found
      obtain ⟨block, middle, copied, spelled⟩ := Deserializer.bind_ok.mp found
      obtain ⟨short, room⟩ := blockRead_ok copied
      have same : toCString block = text := Option.some.inj (Prod.mk.inj (Except.ok.inj spelled)).1
      have shorter := toCString_length_le block
      rw [same] at shorter
      have one : (1 : UInt32).toNat = 1 := rfl
      rw [UInt32.toNat_add, one] at room
      have bounded := (UInt32.ofNat text.val.length).toNat_lt
      -- the length is 2^32 - 1, and its block has no octet
      omega

theorem string_codec : Codec Returned mailimfCacheStringWrite mailimfCacheStringRead Storable :=
  ⟨fun _ => string_reads, fun _ => string_misreads⟩

section Lists

variable {α : Type} {itemWrite : α → List UInt8} {itemRead : CacheRead α} {good : α → Prop}

def Counted (good : α → Prop) (list : List α) : Prop := list.length < 2 ^ 32 ∧ ∀ item ∈ list, good item

theorem counted_codec (codec : Codec Returned itemWrite itemRead good) :
    Codec Returned (countedWrite itemWrite) (countedRead itemRead) (Counted good) where
  reads := fun list ⟨bounded, all⟩ => by
    have number : (UInt32.ofNat list.length).toNat = list.length := by
      rw [UInt32.toNat_ofNat', Nat.mod_eq_of_lt bounded]
    refine (mailimfCacheIntRead_reads _).bind ?_
    rw [number]
    exact (codec.many list.length).reads list ⟨rfl, all⟩
  misreads := fun list bad => by
    refine .bind_right (mailimfCacheIntRead_reads _) ((codec.many _).misreads list ?_)
    rintro ⟨counted, all⟩
    refine bad ⟨?_, all⟩
    rw [counted]
    exact UInt32.toNat_lt _

def Listed (good : α → Prop) (list : Option (List α)) : Prop := ∀ items ∈ list, Counted good items

theorem list_codec (codec : Codec Returned itemWrite itemRead good) :
    Codec Returned (listWrite itemWrite) (listRead itemRead) (Listed good) where
  reads := fun list isListed => by
    unfold listRead
    cases list with
    | none =>
        rw [listWrite, ← List.append_nil (mailimfCacheIntWrite _)]
        refine (mailimfCacheIntRead_reads _).bind ?_
        rw [if_pos rfl]
        exact Reads.pure none
    | some items =>
        refine (mailimfCacheIntRead_reads _).bind ?_
        rw [if_neg (by decide)]
        exact ((counted_codec codec).reads items (isListed items rfl)).make some
  misreads := fun list bad => by
    unfold listRead
    cases list with
    | none => exact absurd (fun items impossible => (nomatch impossible)) bad
    | some items =>
        refine .bind_right (mailimfCacheIntRead_reads _) ?_
        rw [if_neg (by decide)]
        have badItems : ¬ Counted good items := fun isCounted => bad fun items' same => by
          cases same
          exact isCounted
        exact ((counted_codec codec).misreads items badItems).make fun other same => Option.some.inj same

end Lists

def Mailbox.Storable (mb : Mailbox) : Prop := Cache.Storable mb.mbDisplayName ∧ Cache.Storable mb.mbAddrSpec

theorem mailbox_codec : Codec Returned mailimfCacheMailboxWrite mailimfCacheMailboxRead Mailbox.Storable := by
  have addrSpec : Codec Returned mailimfCacheStringWrite (mailimfCacheStringRead.orFail outOfMemory) Storable :=
    string_codec.orFail fun e isReturned => by cases e <;> simp [Returned, outOfMemory] at isReturned ⊢
  exact string_codec.pair addrSpec (fun _ => rfl) (fun _ _ => rfl) (fun _ _ => rfl)

theorem mailboxList_codec : Codec Returned mailimfCacheMailboxListWrite mailimfCacheMailboxListRead (Listed Mailbox.Storable) :=
  list_codec mailbox_codec

def Group.Storable (group : Group) : Prop := Cache.Storable group.grpDisplayName ∧ Listed Mailbox.Storable group.grpMbList

theorem group_codec : Codec Returned mailimfCacheGroupWrite mailimfCacheGroupRead Group.Storable :=
  string_codec.pair mailboxList_codec (fun _ => rfl) (fun _ _ => rfl) (fun _ _ => rfl)

def Address.Storable : Address → Prop
  | .adMailbox mailbox => mailbox.Storable
  | .adGroup group => group.Storable
  | .other _ => True

theorem address_codec : Codec Returned mailimfCacheAddressWrite mailimfCacheAddressRead Address.Storable where
  reads := fun address storable => by
    unfold mailimfCacheAddressRead
    cases address with
    | adMailbox mailbox =>
        refine (mailimfCacheIntRead_reads _).bind ?_
        rw [dif_pos rfl]
        exact (mailbox_codec.reads mailbox storable).make _
    | adGroup group =>
        refine (mailimfCacheIntRead_reads _).bind ?_
        rw [dif_neg (by decide), dif_pos rfl]
        exact (group_codec.reads group storable).make _
    | other adType =>
        rw [mailimfCacheAddressWrite, ← List.append_nil (mailimfCacheIntWrite _)]
        refine (mailimfCacheIntRead_reads _).bind ?_
        rw [dif_neg adType.property.1, dif_neg adType.property.2]
        exact Reads.pure _
  misreads := fun address bad => by
    unfold mailimfCacheAddressRead
    cases address with
    | adMailbox mailbox =>
        refine .bind_right (mailimfCacheIntRead_reads _) ?_
        rw [dif_pos rfl]
        exact (mailbox_codec.misreads mailbox bad).make fun other same => Address.adMailbox.inj same
    | adGroup group =>
        refine .bind_right (mailimfCacheIntRead_reads _) ?_
        rw [dif_neg (by decide), dif_pos rfl]
        exact (group_codec.misreads group bad).make fun other same => Address.adGroup.inj same
    | other adType => exact absurd trivial bad

theorem addressList_codec : Codec Returned mailimfCacheAddressListWrite mailimfCacheAddressListRead (Listed Address.Storable) :=
  list_codec address_codec

theorem msgIdList_codec : Codec Returned mailimfCacheMsgIdListWrite mailimfCacheMsgIdListRead (Counted Storable) :=
  counted_codec string_codec

theorem dateTime_reads (date : DateTime) : Reads Returned mailimfCacheDateTimeRead (mailimfCacheDateTimeWrite date) date := by
  refine (mailimfCacheIntRead_reads _).bind ?_
  refine (mailimfCacheIntRead_reads _).bind ?_
  refine (mailimfCacheIntRead_reads _).bind ?_
  refine (mailimfCacheIntRead_reads _).bind ?_
  refine (mailimfCacheIntRead_reads _).bind ?_
  refine (mailimfCacheIntRead_reads _).bind ?_
  exact (mailimfCacheIntRead_reads _).make fun zone => DateTime.mk _ _ _ _ _ _ zone.toInt32

def Field.Storable : Field → Prop
  | .fldOrigDate _ => True
  | .fldFrom mbList => Listed Mailbox.Storable mbList
  | .fldSender mb => mb.Storable
  | .fldReplyTo addrList | .fldTo addrList | .fldCc addrList | .fldBcc addrList => Listed Address.Storable addrList
  | .fldMessageId value => Cache.Storable value
  | .fldInReplyTo midList | .fldReferences midList => Counted Cache.Storable midList
  | .fldSubject value => Cache.Storable (some value)
  | .other _ => False

theorem subject_codec :
    Codec Returned (fun value => mailimfCacheStringWrite (some value)) mailimfCacheSubjectRead fun value => Storable (some value) where
  reads := fun value storable => (string_codec.reads (some value) storable).make fun str : Option CString => str.getD emptyString
  misreads := fun value bad => by
    have apart (other : Option CString) (same : other.getD emptyString = value) : other = some value := by
      cases other with
      | none =>
          subst same
          exact absurd (fun text isEmpty => by cases isEmpty; decide) bad
      | some text => exact congrArg some same
    exact (string_codec.misreads (some value) bad).make apart

theorem field_reads (field : Field) (storable : field.Storable) :
    Reads Returned mailimfCacheFieldRead (mailimfCacheFieldWrite field) field := by
  cases field with
  | fldOrigDate date => exact (mailimfCacheIntRead_reads _).bind ((dateTime_reads date).make Field.fldOrigDate)
  | fldFrom mbList => exact (mailimfCacheIntRead_reads _).bind ((mailboxList_codec.reads mbList storable).make Field.fldFrom)
  | fldSender mb => exact (mailimfCacheIntRead_reads _).bind ((mailbox_codec.reads mb storable).make Field.fldSender)
  | fldReplyTo addrList => exact (mailimfCacheIntRead_reads _).bind ((addressList_codec.reads addrList storable).make Field.fldReplyTo)
  | fldTo addrList => exact (mailimfCacheIntRead_reads _).bind ((addressList_codec.reads addrList storable).make Field.fldTo)
  | fldCc addrList => exact (mailimfCacheIntRead_reads _).bind ((addressList_codec.reads addrList storable).make Field.fldCc)
  | fldBcc addrList => exact (mailimfCacheIntRead_reads _).bind ((addressList_codec.reads addrList storable).make Field.fldBcc)
  | fldMessageId value => exact (mailimfCacheIntRead_reads _).bind ((string_codec.reads value storable).make Field.fldMessageId)
  | fldInReplyTo midList => exact (mailimfCacheIntRead_reads _).bind ((msgIdList_codec.reads midList storable).make Field.fldInReplyTo)
  | fldReferences midList => exact (mailimfCacheIntRead_reads _).bind ((msgIdList_codec.reads midList storable).make Field.fldReferences)
  | fldSubject value => exact (mailimfCacheIntRead_reads _).bind ((subject_codec.reads value storable).make Field.fldSubject)
  | other fldType => exact storable.elim

theorem field_misreads (field : Field) (bad : ¬ field.Storable) :
    Misreads mailimfCacheFieldRead (mailimfCacheFieldWrite field) field := by
  cases field with
  | fldOrigDate date => exact absurd trivial bad
  | fldFrom mbList =>
      exact .bind_right (mailimfCacheIntRead_reads _) ((mailboxList_codec.misreads mbList bad).make fun _ => Field.fldFrom.inj)
  | fldSender mb =>
      exact .bind_right (mailimfCacheIntRead_reads _) ((mailbox_codec.misreads mb bad).make fun _ => Field.fldSender.inj)
  | fldReplyTo addrList =>
      exact .bind_right (mailimfCacheIntRead_reads _) ((addressList_codec.misreads addrList bad).make fun _ => Field.fldReplyTo.inj)
  | fldTo addrList =>
      exact .bind_right (mailimfCacheIntRead_reads _) ((addressList_codec.misreads addrList bad).make fun _ => Field.fldTo.inj)
  | fldCc addrList =>
      exact .bind_right (mailimfCacheIntRead_reads _) ((addressList_codec.misreads addrList bad).make fun _ => Field.fldCc.inj)
  | fldBcc addrList =>
      exact .bind_right (mailimfCacheIntRead_reads _) ((addressList_codec.misreads addrList bad).make fun _ => Field.fldBcc.inj)
  | fldMessageId value =>
      exact .bind_right (mailimfCacheIntRead_reads _) ((string_codec.misreads value bad).make fun _ => Field.fldMessageId.inj)
  | fldInReplyTo midList =>
      exact .bind_right (mailimfCacheIntRead_reads _) ((msgIdList_codec.misreads midList bad).make fun _ => Field.fldInReplyTo.inj)
  | fldReferences midList =>
      exact .bind_right (mailimfCacheIntRead_reads _) ((msgIdList_codec.misreads midList bad).make fun _ => Field.fldReferences.inj)
  | fldSubject value =>
      exact .bind_right (mailimfCacheIntRead_reads _) ((subject_codec.misreads value bad).make fun _ => Field.fldSubject.inj)
  | other fldType =>
      rw [mailimfCacheFieldWrite, ← List.append_nil (mailimfCacheIntWrite _)]
      refine .bind_right (mailimfCacheIntRead_reads _) ?_
      have isOther {type : UInt32} (envelope : IsEnvelopeType type) : fldType.val ≠ type := fun same => fldType.property (same ▸ envelope)
      rw [if_neg (isOther (by decide)), if_neg (isOther (by decide)), if_neg (isOther (by decide)), if_neg (isOther (by decide)),
        if_neg (isOther (by decide)), if_neg (isOther (by decide)), if_neg (isOther (by decide)), if_neg (isOther (by decide)),
        if_neg (isOther (by decide)), if_neg (isOther (by decide)), if_neg (isOther (by decide))]
      rintro front rest position ⟨⟩

/-- The fields are read back from behind any octets, and every cut of them is an error that is returned. -/
structure RoundTrips (fields : List Field) : Prop where
  whole : ∀ front, mailimfCacheFieldsRead (front ++ mailimfCacheFieldsWrite fields) front.length =
    .ok (fields, (front ++ mailimfCacheFieldsWrite fields).length)
  cut : ∀ front part, part <+: mailimfCacheFieldsWrite fields → part ≠ mailimfCacheFieldsWrite fields →
    ∃ failure, mailimfCacheFieldsRead (front ++ part) front.length = .error failure ∧ Returned failure

theorem fields_codec : Codec Returned mailimfCacheFieldsWrite mailimfCacheFieldsRead (Counted Field.Storable) :=
  counted_codec ⟨field_reads, field_misreads⟩

theorem RoundTrips.counted {fields : List Field} (roundTrips : RoundTrips fields) : Counted Field.Storable fields := by
  by_contra bad
  have read := roundTrips.whole []
  have misread := fields_codec.misreads fields bad [] []
  rw [List.append_nil] at misread
  exact misread _ read

def longString (length : Nat) : CString :=
  ⟨List.replicate length 97, fun byte member => by rw [List.eq_of_mem_replicate member]; decide⟩

theorem longString_not_roundTrips {length : Nat} (long : 2 ^ 32 ≤ length + 1) :
    ¬ RoundTrips [.fldMessageId (some (longString length))] := by
  intro roundTrips
  have storable : Storable (some (longString length)) := roundTrips.counted.2 _ List.mem_cons_self
  have short := storable _ rfl
  have spelled : (longString length).val.length = length := List.length_replicate
  omega

end Etpan.Cache
