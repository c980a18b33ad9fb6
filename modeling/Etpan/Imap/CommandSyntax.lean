import Etpan.Imap.CommandSend

namespace Etpan.Imap

open Computability Etpan.Data

/-! The commands of `condstore.c` and `qresync.c` against the syntax that the sources quote. -/

theorem mem_SP {word : List UInt8} : word ∈ Grammar.SP ↔ word = [ascii ' '] :=
  mem_symbol rfl rfl

theorem mem_comma {word : List UInt8} : word ∈ terminal "," ↔ word = [ascii ','] :=
  mem_symbol rfl rfl

theorem mem_cparenth {word : List UInt8} : word ∈ terminal ")" ↔ word = [ascii ')'] :=
  mem_symbol rfl rfl

theorem stopsAt_SP_mul {others : Language UInt8} : ∀ word ∈ Grammar.SP * others, StopsAt (fun byte => byte = ascii ' ') word := by
  intro word isWord
  obtain ⟨space, isSpace, other, -, rfl⟩ := Language.mem_mul.mp isWord
  rw [mem_SP.mp isSpace]
  simp

theorem asciiText_SP : asciiText " " = [ascii ' '] := rfl

theorem mailimapTokenSend_plain (text : String) (plain : (asciiText text).all Grammar.isTextChar = true) :
    (mailimapTokenSend (asciiText text)).text = asciiText text := by
  have spec : ∀ byte ∈ asciiText text, byte ≠ 0 ∧ byte ≠ CR ∧ byte ≠ LF ∧ byte < 128 := fun byte member =>
    isTextChar_iff.mp (List.all_eq_true.mp plain byte member)
  exact mailimapTokenSend_text (fun byte member => (spec byte member).1) fun byte member =>
    ⟨(spec byte member).2.1, (spec byte member).2.2.1⟩

def isSetChar (byte : UInt8) : Bool := isDigit byte || byte = ascii '*' || byte = ascii ':' || byte = ascii ','

theorem isSetChar_spec (byte : UInt8) :
    (isSetChar (tolower byte) = true → isSetChar byte = true) ∧ (isDigit byte = true → isSetChar byte = true) ∧
      (Grammar.isDigitNz byte = true → isSetChar byte = true) := by
  revert byte
  exact forall_octet (by decide +kernel)

theorem set_over : Over isSetChar Grammar.set := by
  have caseless := fun byte => (isSetChar_spec byte).1
  have digit : Over isSetChar (octet isDigit) := over_octet fun byte => (isSetChar_spec byte).2.1
  have nzDigit : Over isSetChar (octet Grammar.isDigitNz) := over_octet fun byte => (isSetChar_spec byte).2.2
  have sequenceNum : Over isSetChar Grammar.sequenceNum :=
    .add (.mul nzDigit (.kstar digit)) (over_terminal caseless rfl)
  have colon : Over isSetChar (terminal ":") := over_terminal caseless rfl
  have comma : Over isSetChar (terminal ",") := over_terminal caseless rfl
  have setItem : Over isSetChar Grammar.setItem := .add sequenceNum (.mul sequenceNum (.mul colon sequenceNum))
  exact .mul setItem (.kstar (.mul comma setItem))

theorem nil_mem_mul {first second : Language UInt8} (nonempty : [] ∉ first) : [] ∉ first * second := by
  intro isWord
  obtain ⟨front, isFront, back, -, same⟩ := Language.mem_mul.mp isWord
  rw [(List.append_eq_nil_iff.mp same).1] at isFront
  exact nonempty isFront

theorem nil_mem_terminal {text : String} (spelled : asciiText text ≠ []) : [] ∉ terminal text := by
  intro isWord
  have lengths := terminal_length isWord
  exact spelled (List.length_eq_zero_iff.mp lengths.symm)

theorem nil_mem_octet {isMember : UInt8 → Bool} : [] ∉ octet isMember := by
  rintro ⟨byte, -, same⟩
  cases same

theorem set_nonempty : [] ∉ Grammar.set := by
  have sequenceNum : [] ∉ Grammar.sequenceNum := by
    rintro (isNumber | isStar)
    · exact nil_mem_mul nil_mem_octet isNumber
    · exact nil_mem_terminal (by decide) isStar
  apply nil_mem_mul
  rintro (single | interval)
  · exact sequenceNum single
  · exact nil_mem_mul sequenceNum interval

theorem decimal_mem_nzNumber {number : Nat} (nonzero : number ≠ 0) : decimal number ∈ Grammar.nzNumber := by
  have digitNz : ∀ value < 10, value ≠ 0 → Grammar.isDigitNz (decimalDigit value) = true := by decide
  fun_induction decimal number with
  | case1 number small =>
      exact Language.append_mem_mul (mem_octet (digitNz number small nonzero)) (Language.nil_mem_kstar _)
  | case2 number large ih =>
      obtain ⟨first, isFirst, others, areOthers, same⟩ := Language.mem_mul.mp (ih (by omega))
      have last := (decimalDigit_spec (number % 10) (Nat.mod_lt _ (by decide))).1
      rw [← same, List.append_assoc]
      refine Language.append_mem_mul isFirst (mem_octets.mpr fun byte member => ?_)
      rcases List.mem_append.mp member with early | isLast
      · exact mem_octets.mp areOthers byte early
      · rw [List.mem_singleton.mp isLast]
        exact last

theorem sequenceNumText_mem (sequenceNum : UInt32) : sequenceNumText sequenceNum ∈ Grammar.sequenceNum := by
  rw [sequenceNumText, Grammar.sequenceNum, Language.mem_add]
  by_cases zero : sequenceNum = 0
  · rw [if_pos zero]
    exact .inr (mem_terminal "*")
  · rw [if_neg zero]
    exact .inl (decimal_mem_nzNumber fun none => zero (UInt32.toNat_inj.mp none))

theorem setItemText_mem (item : SetItem) : setItemText item ∈ Grammar.setItem := by
  rw [setItemText, Grammar.setItem, Language.mem_add]
  split_ifs
  · exact .inl (sequenceNumText_mem item.setFirst)
  · exact .inr (Language.append_mem_mul (sequenceNumText_mem item.setFirst)
      (Language.append_mem_mul (mem_terminal ":") (sequenceNumText_mem item.setLast)))

theorem setText_mem {set : NumberSet} (nonempty : set ≠ []) : setText set ∈ Grammar.set :=
  joined_mem_separated (fun _ => mem_comma) nonempty fun item _ => setItemText_mem item

theorem setText_mul {set : NumberSet} {byte : UInt8} {rest : List UInt8} {others : Language UInt8}
    (outside : isSetChar byte = false)
    (othersStop : ∀ other ∈ others, StopsAt (fun byte => !isSetChar byte) other) :
    setText set ++ byte :: rest ∈ Grammar.set * others ↔ set ≠ [] ∧ byte :: rest ∈ others := by
  cases set with
  | nil =>
      constructor
      · intro isWord
        rw [set_over.head_mul set_nonempty isWord] at outside
        cases outside
      · rintro ⟨nonempty, -⟩
        exact absurd rfl nonempty
  | cons item set =>
      rw [(delimited_class set_over).mem_mul (setText_mem (by simp)) (by simpa using outside) othersStop]
      simp

def Flag.text : Flag → List UInt8
  | .answered => asciiText "\\Answered"
  | .flagged => asciiText "\\Flagged"
  | .deleted => asciiText "\\Deleted"
  | .seen => asciiText "\\Seen"
  | .draft => asciiText "\\Draft"
  | .keyword flKeyword => cString flKeyword
  | .extension flExtension => ascii '\\' :: cString flExtension

def Flag.Sendable (flag : Flag) : Prop := flag.text ∈ separated Grammar.SP Grammar.flag

def isFlagChar (byte : UInt8) : Bool := Grammar.isAtomChar byte || byte = ascii '\\'

theorem isFlagChar_spec (byte : UInt8) :
    (isFlagChar (tolower byte) = true → isFlagChar byte = true) ∧ (Grammar.isAtomChar byte = true → isFlagChar byte = true) ∧
      ((isFlagChar byte || byte = ascii ' ') = true → byte ≠ CR ∧ byte ≠ LF) := by
  revert byte
  exact forall_octet (by decide +kernel)

theorem flag_over : Over isFlagChar Grammar.flag := by
  have caseless := fun byte => (isFlagChar_spec byte).1
  have atomChar : Over isFlagChar (octet Grammar.isAtomChar) := over_octet fun byte => (isFlagChar_spec byte).2.1
  have atom : Over isFlagChar Grammar.atom := .mul atomChar (.kstar atomChar)
  refine .add (.add (.add (.add (.add (.add ?_ ?_) ?_) ?_) ?_) atom) (.mul ?_ atom)
  all_goals exact over_terminal caseless rfl

theorem flag_nonempty : [] ∉ Grammar.flag := by
  have atom : [] ∉ Grammar.atom := nil_mem_mul nil_mem_octet
  rintro ((((((isFlag | isFlag) | isFlag) | isFlag) | isFlag) | isFlag) | isFlag)
  · exact nil_mem_terminal (by decide) isFlag
  · exact nil_mem_terminal (by decide) isFlag
  · exact nil_mem_terminal (by decide) isFlag
  · exact nil_mem_terminal (by decide) isFlag
  · exact nil_mem_terminal (by decide) isFlag
  · exact atom isFlag
  · exact nil_mem_mul (nil_mem_terminal (by decide)) isFlag

theorem flag_free : ∀ word ∈ Grammar.flag, ascii ' ' ∉ word := by
  intro word isFlag space
  have outside := flag_over word isFlag (ascii ' ') space
  revert outside
  decide

theorem flags_breakFree {text : List UInt8} (flags : text ∈ separated Grammar.SP Grammar.flag) : BreakFree text := by
  have isOver : Over (fun byte => isFlagChar byte || byte = ascii ' ') (separated Grammar.SP Grammar.flag) := by
    have flag : Over (fun byte => isFlagChar byte || byte = ascii ' ') Grammar.flag := by
      intro word isFlag byte member
      change (isFlagChar byte || _) = true
      rw [flag_over word isFlag byte member, Bool.true_or]
    have space : Over (fun byte => isFlagChar byte || byte = ascii ' ') Grammar.SP := by
      intro word isSpace byte member
      rw [mem_SP.mp isSpace, List.mem_singleton] at member
      simp [member]
    exact .mul flag (.kstar (.mul space flag))
  exact fun byte member => (isFlagChar_spec byte).2.2 (isOver text flags byte member)

theorem breakFree_of_crlfBreaks {text : List UInt8} (free : BreakFree (crlfBreaks text)) : BreakFree text := by
  induction text with
  | nil => exact free
  | cons byte rest ih =>
      rw [crlfBreaks, crlfBreaksFrom] at free
      split_ifs at free with isLF never isCR
      · cases never
      · exact absurd rfl (free CR List.mem_cons_self).1
      · exact absurd rfl (free CR List.mem_cons_self).1
      · exact .cons isCR isLF (ih fun other member => free other (List.mem_cons_of_mem _ member))

theorem crlfBreaks_mem_flags {text : List UInt8} :
    crlfBreaks text ∈ separated Grammar.SP Grammar.flag ↔ text ∈ separated Grammar.SP Grammar.flag := by
  constructor
  · intro flags
    have free := breakFree_of_crlfBreaks (flags_breakFree flags)
    rwa [crlfBreaks_breakFree free] at flags
  · intro flags
    rwa [crlfBreaks_breakFree (flags_breakFree flags)]

theorem mailimapFlagSend_text (flag : Flag) : (mailimapFlagSend flag).text = crlfBreaks flag.text := by
  cases flag with
  | keyword flKeyword => exact mailimapSizedTokenSend_text _
  | extension flExtension =>
      have tail := mailimapSizedTokenSend_text (cString flExtension)
      rw [mailimapFlagSend, mailimapFlagExtensionSend, Sending.text_append, mailimapAtomSend, mailimapTokenSend, tail]
      rfl
  | _ => exact mailimapSizedTokenSend_text _

/-- The flags of a list can be sent, or its text is empty although it has a flag. -/
def FlagsSendable (flags : List Flag) : Prop :=
  (∀ flag ∈ flags, flag.Sendable) ∨ ∃ flKeyword, flags = [.keyword flKeyword] ∧ cString flKeyword = []

def flagsText (flags : List Flag) : List UInt8 := joined (ascii ' ') (fun flag => crlfBreaks flag.text) flags

theorem crlfBreaks_eq_nil {text : List UInt8} (empty : crlfBreaks text = []) : text = [] := by
  have free : BreakFree text := breakFree_of_crlfBreaks (by rw [empty]; exact fun byte member => by cases member)
  rwa [crlfBreaks_breakFree free] at empty

theorem flagsText_mem (flags : List Flag) :
    flagsText flags ∈ 1 + separated Grammar.SP Grammar.flag ↔ FlagsSendable flags := by
  cases flags with
  | nil => exact ⟨fun _ => .inl (by simp), fun _ => .inl rfl⟩
  | cons flag flags =>
      have items : flagsText (flag :: flags) ∈ separated Grammar.SP Grammar.flag ↔ ∀ other ∈ flag :: flags, other.Sendable := by
        rw [flagsText, joined_mem_separated_iff (fun _ => mem_SP) flag_free (by simp)]
        simp only [crlfBreaks_mem_flags, Flag.Sendable]
      rw [Language.mem_add, items, FlagsSendable, or_comm, Language.mem_one]
      refine or_congr_right ⟨fun empty => ?_, ?_⟩
      · obtain ⟨first, rest⟩ := List.append_eq_nil_iff.mp empty
        have alone : flags = [] := by
          cases flags with
          | nil => rfl
          | cons other flags => cases rest
        have none := crlfBreaks_eq_nil first
        cases flag with
        | keyword flKeyword => exact ⟨flKeyword, by rw [alone], none⟩
        | _ => exact absurd none (by simp [Flag.text, asciiText])
      · rintro ⟨flKeyword, same, none⟩
        obtain ⟨rfl, rfl⟩ := List.cons.inj same
        simp [flagsText, joined, Flag.text, none, crlfBreaks, crlfBreaksFrom]

theorem mailimapFlagListSend_text (flags : List Flag) :
    (mailimapFlagListSend flags).text = asciiText "(" ++ (flagsText flags ++ [ascii ')']) := by
  have list : (mailimapStructSpacedListSend flags mailimapFlagSend).text = flagsText flags := by
    rw [mailimapStructSpacedListSend, mailimapStructListSend_text, flagsText]
    exact congrArg (fun write => joined (ascii ' ') write flags) (funext mailimapFlagSend_text)
  rw [mailimapFlagListSend, Sending.text_append, Sending.text_append, list, List.append_assoc]
  rfl

theorem mailimapFlagListSend_mem (flags : List Flag) :
    (mailimapFlagListSend flags).text ∈ Grammar.flagList + separated Grammar.SP Grammar.flag ↔ FlagsSendable flags := by
  rw [mailimapFlagListSend_text, Language.mem_add, Grammar.flagList, terminal_mul, concat_mem_mul (fun _ => mem_cparenth),
    flagsText_mem]
  refine or_iff_left fun bare => ?_
  have outside := flag_over.head_mul flag_nonempty bare
  revert outside
  decide

theorem mailimapStoreAttFlagsSend_text (storeFlags : StoreAttFlags) :
    (mailimapStoreAttFlagsSend storeFlags).text =
      (signSend storeFlags.flSign).text ++ (asciiText "FLAGS" ++ ((if storeFlags.flSilent then asciiText ".SILENT" else []) ++
        (asciiText " " ++ (mailimapFlagListSend storeFlags.flFlagList).text))) := by
  have silent : Sending.text (if storeFlags.flSilent then mailimapTokenSend (asciiText ".SILENT") else []) =
      if storeFlags.flSilent then asciiText ".SILENT" else [] := by
    split_ifs
    · exact mailimapTokenSend_plain ".SILENT" rfl
    · rfl
  simp only [mailimapStoreAttFlagsSend, Sending.text_append, silent, mailimapTokenSend_plain "FLAGS" rfl,
    mailimapSpaceSend_text, asciiText_SP, List.append_assoc]

theorem silent_mul {silent : Bool} {rest : List UInt8} {others : Language UInt8} :
    (if silent then asciiText ".SILENT" else []) ++ (asciiText " " ++ rest) ∈ (1 + terminal ".SILENT") * (Grammar.SP * others) ↔
      rest ∈ others := by
  rw [add_mul, one_mul, Language.mem_add]
  cases silent with
  | true =>
      rw [if_pos rfl, terminal_mul, Grammar.SP, terminal_mul]
      exact or_iff_right (terminal_mul_other rfl)
  | false =>
      rw [if_neg (by decide), List.nil_append, Grammar.SP, terminal_mul]
      exact or_iff_left (terminal_mul_other rfl)

theorem signSend_text_cases (sign : Int) :
    (signSend sign).text = [] ∨ (signSend sign).text = asciiText "+" ∨ (signSend sign).text = asciiText "-" := by
  rw [signSend]
  split_ifs
  · exact .inr (.inl rfl)
  · exact .inr (.inr rfl)
  · exact .inl rfl

theorem sign_mul {sign : Int} {rest : List UInt8} {others : Language UInt8} :
    (signSend sign).text ++ (asciiText "FLAGS" ++ rest) ∈ (1 + terminal "+" + terminal "-") * (terminal "FLAGS" * others) ↔
      rest ∈ others := by
  rw [add_mul, add_mul, one_mul, Language.mem_add, Language.mem_add]
  rcases signSend_text_cases sign with none | plus | minus
  · have notPlus : asciiText "FLAGS" ++ rest ∉ terminal "+" * (terminal "FLAGS" * others) := terminal_mul_other rfl
    have notMinus : asciiText "FLAGS" ++ rest ∉ terminal "-" * (terminal "FLAGS" * others) := terminal_mul_other rfl
    rw [none, List.nil_append, or_iff_left notMinus, or_iff_left notPlus]
    exact terminal_mul
  · have notFlags : asciiText "+" ++ (asciiText "FLAGS" ++ rest) ∉ terminal "FLAGS" * others := terminal_mul_other rfl
    have notMinus : asciiText "+" ++ (asciiText "FLAGS" ++ rest) ∉ terminal "-" * (terminal "FLAGS" * others) :=
      terminal_mul_other rfl
    rw [plus, or_iff_left notMinus, or_iff_right notFlags]
    exact terminal_mul.trans terminal_mul
  · have notFlags : asciiText "-" ++ (asciiText "FLAGS" ++ rest) ∉ terminal "FLAGS" * others := terminal_mul_other rfl
    have notPlus : asciiText "-" ++ (asciiText "FLAGS" ++ rest) ∉ terminal "+" * (terminal "FLAGS" * others) :=
      terminal_mul_other rfl
    rw [minus, or_iff_right (not_or.mpr ⟨notFlags, notPlus⟩)]
    exact terminal_mul.trans terminal_mul

theorem mailimapStoreAttFlagsSend_mem (storeFlags : StoreAttFlags) :
    (mailimapStoreAttFlagsSend storeFlags).text ∈ Grammar.storeAttFlags ↔ FlagsSendable storeFlags.flFlagList := by
  rw [mailimapStoreAttFlagsSend_text, Grammar.storeAttFlags, sign_mul, silent_mul, mailimapFlagListSend_mem]

theorem storeAttFlags_head {storeFlags : StoreAttFlags} {others : Language UInt8} :
    (mailimapStoreAttFlagsSend storeFlags).text ∉ terminal "(" * others := by
  rw [mailimapStoreAttFlagsSend_text]
  rcases signSend_text_cases storeFlags.flSign with none | plus | minus
  · rw [none]
    exact terminal_mul_other rfl
  · rw [plus]
    exact terminal_mul_other rfl
  · rw [minus]
    exact terminal_mul_other rfl

def unchangedsinceText (useUnchangedsince : Bool) (modSequenceValzer : UInt64) : List UInt8 :=
  if useUnchangedsince then asciiText "(UNCHANGEDSINCE " ++ decimal modSequenceValzer.toNat ++ asciiText ")" else []

theorem mailimapStoreSend_text (set : NumberSet) (useUnchangedsince : Bool) (modSequenceValzer : UInt64)
    (storeAttFlags : StoreAttFlags) :
    (mailimapStoreSend set useUnchangedsince modSequenceValzer storeAttFlags).text =
      asciiText "STORE" ++ (asciiText " " ++ (setText set ++ (unchangedsinceText useUnchangedsince modSequenceValzer ++
        (asciiText " " ++ (mailimapStoreAttFlagsSend storeAttFlags).text)))) := by
  have modifier : Sending.text (if useUnchangedsince then
      mailimapOparenthSend ++ mailimapTokenSend (asciiText "UNCHANGEDSINCE") ++ mailimapSpaceSend ++
        mailimapModSequenceValueSend modSequenceValzer ++ mailimapCparenthSend
      else []) = unchangedsinceText useUnchangedsince modSequenceValzer := by
    rw [unchangedsinceText]
    split_ifs
    · simp only [Sending.text_append, mailimapTokenSend_plain "UNCHANGEDSINCE" rfl,
        mailimapModSequenceValueSend_text]
      rfl
    · rfl
  rw [mailimapStoreSend, Sending.text_append, Sending.text_append, Sending.text_append, modifier]
  simp only [Sending.text_append, mailimapTokenSend_plain "STORE" rfl, mailimapSpaceSend_text, mailimapSetSend_text,
    asciiText_SP, List.append_assoc]

theorem storeModifiers_stop {modifiers : Language UInt8} :
    ∀ word ∈ (1 + Grammar.SP * modifiers) * (Grammar.SP * Grammar.storeAttFlags), StopsAt (fun byte => byte = ascii ' ') word := by
  intro word isWord
  rw [add_mul, one_mul, mul_assoc, Language.mem_add] at isWord
  rcases isWord with isWord | isWord
  · exact stopsAt_SP_mul word isWord
  · exact stopsAt_SP_mul word isWord

theorem setText_mul_modifiers {set : NumberSet} {byte : UInt8} {rest : List UInt8} {modifiers : Language UInt8}
    (outside : isSetChar byte = false) :
    setText set ++ byte :: rest ∈ Grammar.set * ((1 + Grammar.SP * modifiers) * (Grammar.SP * Grammar.storeAttFlags)) ↔
      set ≠ [] ∧ byte :: rest ∈ (1 + Grammar.SP * modifiers) * (Grammar.SP * Grammar.storeAttFlags) :=
  setText_mul outside fun word isWord => (storeModifiers_stop word isWord).mono fun byte space => by
    rw [of_decide_eq_true space]
    rfl

theorem mailimapStoreSend_mem (set : NumberSet) (useUnchangedsince : Bool) (modSequenceValzer : UInt64)
    (storeAttFlags : StoreAttFlags) :
    (mailimapStoreSend set useUnchangedsince modSequenceValzer storeAttFlags).text ∈ Grammar.store ↔
      useUnchangedsince = false ∧ set ≠ [] ∧ FlagsSendable storeAttFlags.flFlagList := by
  rw [mailimapStoreSend_text, Grammar.store, terminal_mul]
  refine terminal_mul.trans ?_
  cases useUnchangedsince with
  | true =>
      refine iff_of_false ?_ (by simp)
      intro isWord
      -- the parenthesis stands directly behind the set
      obtain ⟨-, modifiers⟩ := (setText_mul_modifiers rfl).mp isWord
      have space := stopsAt_cons.mp (storeModifiers_stop _ modifiers)
      revert space
      decide
  | false =>
      change setText set ++ ascii ' ' :: (mailimapStoreAttFlagsSend storeAttFlags).text ∈ _ ↔ _
      refine (setText_mul_modifiers rfl).trans ?_
      rw [← mailimapStoreAttFlagsSend_mem, add_mul, one_mul, mul_assoc, mul_assoc, Language.mem_add]
      have plain : ascii ' ' :: (mailimapStoreAttFlagsSend storeAttFlags).text ∈ Grammar.SP * Grammar.storeAttFlags ↔
          (mailimapStoreAttFlagsSend storeAttFlags).text ∈ Grammar.storeAttFlags := terminal_mul
      have modified : ascii ' ' :: (mailimapStoreAttFlagsSend storeAttFlags).text ∉ Grammar.SP * (terminal "(" *
          (separated Grammar.SP Grammar.storeModifier * terminal ")" * (Grammar.SP * Grammar.storeAttFlags))) := fun isWord =>
        storeAttFlags_head (terminal_mul.mp isWord)
      rw [or_iff_left modified, plain]
      simp

end Etpan.Imap
