import Mathlib.Data.Set.Image
import Etpan.Imap.CommandSend

namespace Etpan.Imap

open Etpan.Data

/-! The flags that the driver keeps of a FETCH answer and the flags that it stores:
`driver/implementation/imap/imapdriver_tools.c`. -/

inductive FlagFetch where
  | recent
  | other (flFlag : Flag)
deriving Repr, DecidableEq

def mailFlagNew : UInt32 := 1
def mailFlagSeen : UInt32 := 2
def mailFlagFlagged : UInt32 := 4
def mailFlagDeleted : UInt32 := 8
def mailFlagAnswered : UInt32 := 16
def mailFlagForwarded : UInt32 := 32

structure MailFlags where
  flFlags : UInt32
  flExtension : List (List UInt8)
deriving Repr, DecidableEq

def mailFlagsNewEmpty : MailFlags := { flFlags := mailFlagNew, flExtension := [] }

def hasFlag (flFlags mask : UInt32) : Bool := flFlags &&& mask != 0

def MailFlags.raise (flags : MailFlags) (mask : UInt32) : MailFlags := { flags with flFlags := flags.flFlags ||| mask }

def MailFlags.append (flags : MailFlags) (keyword : List UInt8) : MailFlags :=
  { flags with flExtension := flags.flExtension ++ [keyword] }

def spelledLike (text : String) (keyword : List UInt8) : Bool := keyword.map tolower = (asciiText text).map tolower

def addFlagFetch (flags : MailFlags) : FlagFetch → MailFlags
  | .recent => flags.raise mailFlagNew
  | .other .answered => flags.raise mailFlagAnswered
  | .other .flagged => flags.raise mailFlagFlagged
  | .other .deleted => flags.raise mailFlagDeleted
  | .other .seen => flags.raise mailFlagSeen
  | .other .draft => flags.append (asciiText "Draft")
  | .other (.keyword flKeyword) =>
      if spelledLike "$Forwarded" flKeyword then flags.raise mailFlagForwarded else flags.append flKeyword
  | .other (.extension _) => flags

def imapFlagsToFlags (attList : List FlagFetch) : MailFlags :=
  let flags := attList.foldl addFlagFetch { mailFlagsNewEmpty with flFlags := 0 }
  if hasFlag flags.flFlags mailFlagSeen && hasFlag flags.flFlags mailFlagNew then
    { flags with flFlags := flags.flFlags &&& ~~~mailFlagNew }
  else flags

def extensionFlag (flagStr : List UInt8) : Flag := if spelledLike "Draft" flagStr then .draft else .keyword flagStr

def imapFlagsToImapFlags (flags : MailFlags) : List Flag :=
  (if hasFlag flags.flFlags mailFlagDeleted then [Flag.deleted] else []) ++
    (if hasFlag flags.flFlags mailFlagFlagged then [Flag.flagged] else []) ++
    (if hasFlag flags.flFlags mailFlagSeen then [Flag.seen] else []) ++
    (if hasFlag flags.flFlags mailFlagAnswered then [Flag.answered] else []) ++
    (if hasFlag flags.flFlags mailFlagForwarded then [Flag.keyword (asciiText "$Forwarded")] else []) ++
    flags.flExtension.map extensionFlag

def mailimapStoreAttFlagsNewSetFlagsSilent (flFlagList : List Flag) : StoreAttFlags := { flSign := 0, flSilent := true, flFlagList }

def flagsToImapFlags (flags : MailFlags) : StoreAttFlags := mailimapStoreAttFlagsNewSetFlagsSilent (imapFlagsToImapFlags flags)

/-! ### The bits and the strings that a list leaves behind -/

theorem hasFlag_or (left right mask : UInt32) : hasFlag (left ||| right) mask = (hasFlag left mask || hasFlag right mask) := by
  have split : (left ||| right) &&& mask = (left &&& mask) ||| (right &&& mask) := by
    apply UInt32.toBitVec_inj.mp
    simp only [UInt32.toBitVec_and, UInt32.toBitVec_or]
    ext bit
    simp only [BitVec.getElem_and, BitVec.getElem_or, Bool.and_or_distrib_right]
  have zero : ∀ one other : UInt32, (one ||| other = 0) ↔ one = 0 ∧ other = 0 := fun one other => UInt32.or_eq_zero_iff
  rw [hasFlag, split, Bool.eq_iff_iff]
  simp only [bne_iff_ne, ne_eq, zero, hasFlag, Bool.or_eq_true, not_and_or]

def raisedBits : FlagFetch → UInt32
  | .recent => mailFlagNew
  | .other .answered => mailFlagAnswered
  | .other .flagged => mailFlagFlagged
  | .other .deleted => mailFlagDeleted
  | .other .seen => mailFlagSeen
  | .other (.keyword flKeyword) => if spelledLike "$Forwarded" flKeyword then mailFlagForwarded else 0
  | .other .draft | .other (.extension _) => 0

def keptString : FlagFetch → Option (List UInt8)
  | .other .draft => some (asciiText "Draft")
  | .other (.keyword flKeyword) => if spelledLike "$Forwarded" flKeyword then none else some flKeyword
  | _ => none

theorem addFlagFetch_eq (flags : MailFlags) (fetched : FlagFetch) :
    addFlagFetch flags fetched =
      { flFlags := flags.flFlags ||| raisedBits fetched, flExtension := flags.flExtension ++ (keptString fetched).toList } := by
  cases fetched with
  | recent => simp [addFlagFetch, MailFlags.raise, raisedBits, keptString]
  | other flag =>
      cases flag with
      | keyword flKeyword =>
          by_cases forwarded : spelledLike "$Forwarded" flKeyword = true <;>
            simp [addFlagFetch, MailFlags.raise, MailFlags.append, raisedBits, keptString, forwarded]
      | answered | flagged | deleted | seen | draft | extension =>
          simp [addFlagFetch, MailFlags.raise, MailFlags.append, raisedBits, keptString]

theorem foldl_flags (attList : List FlagFetch) (flags : MailFlags) (mask : UInt32) :
    hasFlag (attList.foldl addFlagFetch flags).flFlags mask =
      (hasFlag flags.flFlags mask || attList.any fun fetched => hasFlag (raisedBits fetched) mask) := by
  induction attList generalizing flags with
  | nil => simp
  | cons fetched attList ih => rw [List.foldl_cons, ih, addFlagFetch_eq, hasFlag_or, List.any_cons, Bool.or_assoc]

theorem foldl_extension (attList : List FlagFetch) (flags : MailFlags) :
    (attList.foldl addFlagFetch flags).flExtension = flags.flExtension ++ attList.filterMap keptString := by
  induction attList generalizing flags with
  | nil => simp
  | cons fetched attList ih =>
      rw [List.foldl_cons, ih, addFlagFetch_eq]
      cases kept : keptString fetched <;> simp [kept]

theorem imapFlagsToFlags_extension (attList : List FlagFetch) :
    (imapFlagsToFlags attList).flExtension = attList.filterMap keptString := by
  rw [imapFlagsToFlags]
  split <;> simp [foldl_extension, mailFlagsNewEmpty]

theorem imapFlagsToFlags_flags (attList : List FlagFetch) {mask : UInt32} (stays : ~~~mailFlagNew &&& mask = mask) :
    hasFlag (imapFlagsToFlags attList).flFlags mask = attList.any fun fetched => hasFlag (raisedBits fetched) mask := by
  have gathered := foldl_flags attList { mailFlagsNewEmpty with flFlags := 0 } mask
  have none_ : hasFlag 0 mask = false := by simp [hasFlag]
  rw [none_, Bool.false_or] at gathered
  rw [← gathered, imapFlagsToFlags]
  dsimp only
  split
  · simp only [hasFlag, UInt32.and_assoc, stays]
  · rfl

def Flag.forwarded : Flag → Bool
  | .keyword flKeyword => spelledLike "$Forwarded" flKeyword
  | _ => false

def Flag.draftWord : Flag → Bool
  | .keyword flKeyword => spelledLike "Draft" flKeyword
  | _ => false

def Flag.isExtension : Flag → Bool
  | .extension _ => true
  | _ => false

theorem not_draft_of_forwarded {keyword : List UInt8} (forwarded : spelledLike "$Forwarded" keyword = true) :
    spelledLike "Draft" keyword = false := by
  rw [spelledLike, decide_eq_true_eq] at forwarded
  rw [spelledLike, forwarded]
  decide

def cycled : FlagFetch → Option Flag
  | .recent | .other (.extension _) => none
  | .other (.keyword flKeyword) =>
      if spelledLike "$Forwarded" flKeyword then some (.keyword (asciiText "$Forwarded"))
      else if spelledLike "Draft" flKeyword then some .draft
      else some (.keyword flKeyword)
  | .other flag => some flag

theorem mem_ite_singleton {α : Type} {condition : Prop} [Decidable condition] {value member : α} :
    member ∈ (if condition then [value] else []) ↔ condition ∧ member = value := by
  split <;> simp_all

theorem raised_iff (attList : List FlagFetch) {mask : UInt32} (stays : ~~~mailFlagNew &&& mask = mask) :
    hasFlag (imapFlagsToFlags attList).flFlags mask = true ↔ ∃ fetched ∈ attList, hasFlag (raisedBits fetched) mask = true := by
  rw [imapFlagsToFlags_flags attList stays, List.any_eq_true]

theorem cycled_iff (fetched : FlagFetch) (flag : Flag) :
    cycled fetched = some flag ↔
      (hasFlag (raisedBits fetched) mailFlagDeleted = true ∧ flag = .deleted) ∨
      (hasFlag (raisedBits fetched) mailFlagFlagged = true ∧ flag = .flagged) ∨
      (hasFlag (raisedBits fetched) mailFlagSeen = true ∧ flag = .seen) ∨
      (hasFlag (raisedBits fetched) mailFlagAnswered = true ∧ flag = .answered) ∨
      (hasFlag (raisedBits fetched) mailFlagForwarded = true ∧ flag = .keyword (asciiText "$Forwarded")) ∨
      ∃ text, keptString fetched = some text ∧ extensionFlag text = flag := by
  cases fetched with
  | recent => simp +decide [cycled, keptString]
  | other shown =>
      cases shown with
      | keyword flKeyword =>
          by_cases forwarded : spelledLike "$Forwarded" flKeyword = true
          · simp +decide [cycled, raisedBits, keptString, forwarded, eq_comm]
          · by_cases draft : spelledLike "Draft" flKeyword = true <;>
              simp +decide [cycled, raisedBits, keptString, extensionFlag, forwarded, draft]
      | draft => simp +decide [cycled, keptString, extensionFlag]
      | answered | flagged | deleted | seen | extension => simp +decide [cycled, raisedBits, keptString, eq_comm]

theorem mem_imapFlags (attList : List FlagFetch) (flag : Flag) :
    flag ∈ imapFlagsToImapFlags (imapFlagsToFlags attList) ↔ ∃ fetched ∈ attList, cycled fetched = some flag := by
  simp only [imapFlagsToImapFlags, List.mem_append, mem_ite_singleton, List.mem_map, imapFlagsToFlags_extension,
    List.mem_filterMap, @raised_iff attList mailFlagDeleted (by decide),
    @raised_iff attList mailFlagFlagged (by decide), @raised_iff attList mailFlagSeen (by decide),
    @raised_iff attList mailFlagAnswered (by decide), @raised_iff attList mailFlagForwarded (by decide), cycled_iff]
  constructor
  · rintro (((((h | h) | h) | h) | h) | ⟨text, ⟨fetched, member, kept⟩, back⟩)
    · obtain ⟨⟨fetched, member, raised⟩, same⟩ := h
      exact ⟨fetched, member, .inl ⟨raised, same⟩⟩
    · obtain ⟨⟨fetched, member, raised⟩, same⟩ := h
      exact ⟨fetched, member, .inr (.inl ⟨raised, same⟩)⟩
    · obtain ⟨⟨fetched, member, raised⟩, same⟩ := h
      exact ⟨fetched, member, .inr (.inr (.inl ⟨raised, same⟩))⟩
    · obtain ⟨⟨fetched, member, raised⟩, same⟩ := h
      exact ⟨fetched, member, .inr (.inr (.inr (.inl ⟨raised, same⟩)))⟩
    · obtain ⟨⟨fetched, member, raised⟩, same⟩ := h
      exact ⟨fetched, member, .inr (.inr (.inr (.inr (.inl ⟨raised, same⟩))))⟩
    · exact ⟨fetched, member, .inr (.inr (.inr (.inr (.inr ⟨text, kept, back⟩))))⟩
  · rintro ⟨fetched, member, h | h | h | h | h | ⟨text, kept, back⟩⟩
    · exact .inl (.inl (.inl (.inl (.inl ⟨⟨fetched, member, h.1⟩, h.2⟩))))
    · exact .inl (.inl (.inl (.inl (.inr ⟨⟨fetched, member, h.1⟩, h.2⟩))))
    · exact .inl (.inl (.inl (.inr ⟨⟨fetched, member, h.1⟩, h.2⟩)))
    · exact .inl (.inl (.inr ⟨⟨fetched, member, h.1⟩, h.2⟩))
    · exact .inl (.inr ⟨⟨fetched, member, h.1⟩, h.2⟩)
    · exact .inr ⟨text, ⟨fetched, member, kept⟩, back⟩

def Flag.folded : Flag → Flag
  | .keyword flKeyword => .keyword (flKeyword.map tolower)
  | .extension flExtension => .extension (flExtension.map tolower)
  | flag => flag

def Flag.Kept (flag : Flag) : Prop := flag.isExtension = false ∧ flag.draftWord = false

def Flag.Spelled (flag : Flag) : Prop := flag.forwarded = true → flag = .keyword (asciiText "$Forwarded")

theorem cycled_self (flag : Flag) : cycled (.other flag) = some flag ↔ flag.Kept ∧ flag.Spelled := by
  cases flag with
  | keyword flKeyword =>
      by_cases forwarded : spelledLike "$Forwarded" flKeyword = true
      · have noDraft := not_draft_of_forwarded forwarded
        simp [cycled, Flag.Kept, Flag.Spelled, Flag.isExtension, Flag.draftWord, Flag.forwarded, forwarded, noDraft, eq_comm]
      · by_cases draft : spelledLike "Draft" flKeyword = true <;>
          simp [cycled, Flag.Kept, Flag.Spelled, Flag.isExtension, Flag.draftWord, Flag.forwarded, forwarded, draft]
  | answered | flagged | deleted | seen | draft | extension =>
      simp [cycled, Flag.Kept, Flag.Spelled, Flag.isExtension, Flag.draftWord, Flag.forwarded]

theorem cycled_fixed {fetched : FlagFetch} {flag : Flag} (back : cycled fetched = some flag) : cycled (.other flag) = some flag := by
  cases fetched with
  | recent => cases back
  | other shown =>
      cases shown with
      | keyword flKeyword =>
          simp only [cycled] at back
          split at back
          · cases back
            decide
          · next plain =>
            split at back
            · cases back
              rfl
            · next noDraft =>
              cases back
              simp [cycled, plain, noDraft]
      | extension => cases back
      | answered | flagged | deleted | seen | draft =>
          cases back
          rfl

theorem spelledLike_congr {text : String} {left right : List UInt8} (same : left.map tolower = right.map tolower) :
    spelledLike text left = spelledLike text right := by
  rw [spelledLike, spelledLike, same]

theorem cycled_folded {flag : Flag} (kept : flag.Kept) : ∃ back, cycled (.other flag) = some back ∧ back.folded = flag.folded := by
  by_cases spelled : flag.Spelled
  · exact ⟨flag, (cycled_self flag).mpr ⟨kept, spelled⟩, rfl⟩
  · simp only [Flag.Spelled, Classical.not_imp] at spelled
    cases flag with
    | keyword flKeyword =>
        have forwarded : spelledLike "$Forwarded" flKeyword = true := spelled.1
        refine ⟨.keyword (asciiText "$Forwarded"), by simp only [cycled, if_pos forwarded], ?_⟩
        rw [spelledLike, decide_eq_true_eq] at forwarded
        rw [Flag.folded, Flag.folded, forwarded]
    | answered | flagged | deleted | seen | draft | extension => cases spelled.1

theorem kept_congr {left right : Flag} (same : left.folded = right.folded) (kept : left.Kept) : right.Kept := by
  cases left with
  | keyword leftWord =>
      cases right with
      | keyword rightWord =>
          have words : leftWord.map tolower = rightWord.map tolower := Flag.keyword.inj same
          exact ⟨rfl, (spelledLike_congr words.symm).trans kept.2⟩
      | answered | flagged | deleted | seen | draft | extension => cases same
  | extension => cases kept.1
  | answered | flagged | deleted | seen | draft =>
      cases right with
      | keyword | extension => cases same
      | answered | flagged | deleted | seen | draft => exact ⟨rfl, rfl⟩

/-- The flags of a FETCH answer but `\Recent` are what is stored again exactly when none of them is an
extension flag and no keyword is spelled like `Draft`; they also keep their spelling exactly when every
keyword like `$Forwarded` is spelled so. A keyword is stored again exactly when it is none of these. -/
theorem flagsToImapFlags_imapFlagsToFlags (attList : List FlagFetch) :
    ((∀ flag, flag ∈ (flagsToImapFlags (imapFlagsToFlags attList)).flFlagList ↔ .other flag ∈ attList) ↔
      ∀ flag, .other flag ∈ attList → flag.Kept ∧ flag.Spelled) ∧
    (Flag.folded '' {flag | flag ∈ (flagsToImapFlags (imapFlagsToFlags attList)).flFlagList} =
        Flag.folded '' {flag | .other flag ∈ attList} ↔
      ∀ flag, .other flag ∈ attList → flag.Kept) ∧
    (∀ keyword, .other (.keyword keyword) ∈ attList →
      (.keyword keyword ∈ (flagsToImapFlags (imapFlagsToFlags attList)).flFlagList ↔
        (Flag.keyword keyword).Kept ∧ (Flag.keyword keyword).Spelled)) := by
  have stored : ∀ flag, flag ∈ (flagsToImapFlags (imapFlagsToFlags attList)).flFlagList ↔
      ∃ fetched ∈ attList, cycled fetched = some flag := mem_imapFlags attList
  have restored : ∀ flag, .other flag ∈ attList →
      (flag ∈ (flagsToImapFlags (imapFlagsToFlags attList)).flFlagList ↔ flag.Kept ∧ flag.Spelled) := by
    intro flag member
    rw [stored, ← cycled_self]
    exact ⟨fun ⟨_, _, back⟩ => cycled_fixed back, fun back => ⟨_, member, back⟩⟩
  refine ⟨⟨fun same flag member => (restored flag member).mp ((same flag).mpr member), fun kept flag => ?_⟩, ?_,
    fun keyword => restored _⟩
  · refine ⟨fun back => ?_, fun member => (restored flag member).mpr (kept flag member)⟩
    obtain ⟨fetched, member, back⟩ := (stored flag).mp back
    cases fetched with
    | recent => cases back
    | other shown =>
        rw [(cycled_self shown).mpr (kept shown member)] at back
        cases back
        exact member
  · constructor
    · intro same flag member
      obtain ⟨back, isStored, folded⟩ := same.ge ⟨flag, member, rfl⟩
      obtain ⟨_, _, cycle⟩ := (stored back).mp isStored
      exact kept_congr folded ((cycled_self back).mp (cycled_fixed cycle)).1
    · intro kept
      apply Set.Subset.antisymm
      · rintro _ ⟨flag, isStored, rfl⟩
        obtain ⟨fetched, member, cycle⟩ := (stored flag).mp isStored
        cases fetched with
        | recent => cases cycle
        | other shown =>
            obtain ⟨back, again, folded⟩ := cycled_folded (kept shown member)
            rw [again] at cycle
            cases cycle
            exact ⟨shown, member, folded.symm⟩
      · rintro _ ⟨flag, member, rfl⟩
        obtain ⟨back, cycle, folded⟩ := cycled_folded (kept flag member)
        exact ⟨back, (stored back).mpr ⟨_, member, cycle⟩, folded⟩

/-- The keyword `Draft` is stored as the system flag. -/
theorem flagsToImapFlags_draft :
    ¬∀ flag, flag ∈ (flagsToImapFlags (imapFlagsToFlags [.other (.keyword (asciiText "Draft"))])).flFlagList ↔
      FlagFetch.other flag ∈ [FlagFetch.other (.keyword (asciiText "Draft"))] := by
  intro same
  exact absurd ((same .draft).mp (by decide)) (by decide)

end Etpan.Imap
