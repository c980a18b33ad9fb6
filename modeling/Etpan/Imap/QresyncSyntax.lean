import Etpan.Imap.CommandSyntax

namespace Etpan.Imap

open Computability Etpan.Data

/-! Quoted strings and mailbox names can be told apart from what follows them, which
settles SELECT with QRESYNC; then all commands together. -/

theorem quotedText_append_inj {first second rest rest' : List UInt8}
    (same : quotedText first ++ rest = quotedText second ++ rest') : first = second ∧ rest = rest' := by
  have firstParse := @mailimapQuotedParse_at ⟨quotedText first ++ rest, none⟩ 0 first rest rfl
  have secondParse := @mailimapQuotedParse_at ⟨quotedText first ++ rest, none⟩ 0 second rest' same
  rw [firstParse] at secondParse
  have strings : first = second := by
    injection secondParse with parsed
    injection parsed with parsed
    exact congrArg Prod.fst parsed
  exact ⟨strings, List.append_cancel_left (strings ▸ same)⟩

theorem mem_quotedChar {part : List UInt8} (isPart : part ∈ Grammar.quotedChar) : ∃ ch, part = escaped ch := by
  rcases isPart with ⟨ch, plain, rfl⟩ | isEscaped
  · simp only [Bool.and_eq_true, Bool.not_eq_true'] at plain
    exact ⟨ch, by rw [escaped, if_neg (by simpa [Grammar.isQuotedSpecials, isQuotedSpecials] using plain.2)]⟩
  · obtain ⟨mark, isMark, back, ⟨ch, special, rfl⟩, rfl⟩ := Language.mem_mul.mp isEscaped
    rw [(mem_symbol rfl rfl).mp isMark]
    have isSpecial : isQuotedSpecials ch = true := special
    exact ⟨ch, by rw [escaped, if_pos isSpecial]; rfl⟩

theorem quoted_eq_quotedText {word : List UInt8} (quoted : word ∈ Grammar.quoted) : ∃ string, word = quotedText string := by
  obtain ⟨front, isFront, last, isLast, rfl⟩ := Language.mem_mul.mp quoted
  obtain ⟨first, isFirst, inner, isInner, rfl⟩ := Language.mem_mul.mp isFront
  rw [(mem_symbol rfl rfl).mp isFirst, (mem_symbol rfl rfl).mp isLast]
  obtain ⟨parts, rfl, chars⟩ := Language.mem_kstar.mp isInner
  have characters : ∃ string : List UInt8, parts.flatten = string.flatMap escaped := by
    clear isInner isFront quoted
    induction parts with
    | nil => exact ⟨[], rfl⟩
    | cons part parts ih =>
        obtain ⟨string, same⟩ := ih fun other member => chars other (by simp [member])
        obtain ⟨ch, rfl⟩ := mem_quotedChar (chars part (by simp))
        exact ⟨ch :: string, by rw [List.flatten_cons, same, List.flatMap_cons]⟩
  obtain ⟨string, same⟩ := characters
  exact ⟨string, by rw [same, quotedText]; rfl⟩

theorem cString_nulFree (bytes : List UInt8) : NulFree (cString bytes) := by
  intro byte member
  simpa using List.mem_takeWhile_imp member

theorem mailimapAstringSend_cString (astring : List UInt8) :
    mailimapAstringSend astring = mailimapAstringSend (cString astring) := by
  simp only [mailimapAstringSend, mailimapAtomSend, mailimapTokenSend, mailimapQuotedSend,
    cString_eq_self (cString_nulFree astring)]

theorem terminal_over_astring {text : String} (plain : ((asciiText text).all fun byte => Grammar.isAstringChar (tolower byte)) = true) :
    Over Grammar.isAstringChar (terminal text) :=
  over_terminal (forall_octet (by decide +kernel)) plain

theorem mailbox_cases {word : List UInt8} (isMailbox : word ∈ Grammar.mailbox) :
    (word ≠ [] ∧ ∀ byte ∈ word, Grammar.isAstringChar byte = true) ∨ (∃ string, word = quotedText string) ∨
      word.head? = some (ascii '{') := by
  rcases isMailbox with inbox | chars | quoted | literal
  · refine .inl ⟨fun empty => ?_, terminal_over_astring rfl word inbox⟩
    rw [empty] at inbox
    exact nil_mem_terminal (by decide) inbox
  · exact .inl (mem_octets_one.mp chars)
  · exact .inr (.inl (quoted_eq_quotedText quoted))
  · exact .inr (.inr (literal_head literal))

theorem mailimapMailboxSend_mul {mb rest : List UInt8} {others : Language UInt8}
    (othersStop : ∀ other ∈ others, StopsAt (fun byte => byte = ascii ' ') other)
    (isWord : (mailimapMailboxSend mb).text ++ ascii ' ' :: rest ∈ Grammar.mailbox * others) : ascii ' ' :: rest ∈ others := by
  obtain ⟨word, isMailbox, other, isOther, same⟩ := Language.mem_mul.mp isWord
  rw [mailimapMailboxSend, mailimapAstringSend_cString, mailimapAstringSend_text (cString_nulFree mb)] at same
  have outside : ∀ {text : List UInt8}, StopsAt (fun byte => byte = ascii ' ') text →
      StopsAt (fun byte => !Grammar.isAstringChar byte) text := fun stops => stops.mono fun byte space => by
    rw [of_decide_eq_true space]
    rfl
  by_cases atom : isAtom (cString mb) = true
  · rw [if_pos atom] at same
    obtain ⟨nonempty, sent⟩ := isAtom_iff.mp atom
    have chars : ∀ byte ∈ cString mb, Grammar.isAstringChar byte = true := fun byte member => by
      rw [Grammar.isAstringChar, (isSentInAtom_spec (sent byte member)).atomChar, Bool.true_or]
    obtain ⟨byte, more, spelled⟩ := List.exists_cons_of_ne_nil nonempty
    have first := chars byte (by simp [spelled])
    rcases mailbox_cases isMailbox with ⟨-, wordChars⟩ | ⟨string, rfl⟩ | literal
    · obtain ⟨-, rfl⟩ := append_eq_of_class wordChars chars (outside (othersStop other isOther)) (outside (by simp)) same
      exact isOther
    · rw [spelled] at same
      rw [← (List.cons.inj same).1] at first
      exact absurd first (by decide)
    · obtain ⟨tail, rfl⟩ := List.head?_eq_some_iff.mp literal
      rw [spelled] at same
      rw [← (List.cons.inj same).1] at first
      exact absurd first (by decide)
  · rw [if_neg atom] at same
    rcases mailbox_cases isMailbox with ⟨nonempty, wordChars⟩ | ⟨string, rfl⟩ | literal
    · obtain ⟨byte, more, rfl⟩ := List.exists_cons_of_ne_nil nonempty
      have first := wordChars byte (by simp)
      rw [(List.cons.inj same).1] at first
      exact absurd first (by decide)
    · obtain ⟨-, rfl⟩ := quotedText_append_inj same
      exact isOther
    · obtain ⟨tail, rfl⟩ := List.head?_eq_some_iff.mp literal
      exact absurd (List.cons.inj same).1 (by decide)

theorem mailimapSelectQresyncSend_text (mb : List UInt8) (uidvalidity : UInt32) (modseqValue : UInt64)
    (knownUids seqMatchDataSequences seqMatchDataUids : Option NumberSet) :
    ∃ rest, (mailimapSelectQresyncSend mb uidvalidity modseqValue knownUids seqMatchDataSequences seqMatchDataUids).text =
      asciiText "SELECT" ++ (asciiText " " ++ ((mailimapMailboxSend mb).text ++ ascii ' ' :: (asciiText "QRESYNC" ++ rest))) := by
  simp only [mailimapSelectQresyncSend, Sending.text_append, mailimapTokenSend_plain "SELECT" rfl,
    mailimapTokenSend_plain "QRESYNC" rfl, mailimapSpaceSend_text, asciiText_SP, List.append_assoc, List.singleton_append]
  exact ⟨_, rfl⟩

theorem mailimapSelectQresyncSend_mem (mb : List UInt8) (uidvalidity : UInt32) (modseqValue : UInt64)
    (knownUids seqMatchDataSequences seqMatchDataUids : Option NumberSet) :
    (mailimapSelectQresyncSend mb uidvalidity modseqValue knownUids seqMatchDataSequences seqMatchDataUids).text ∉
      Grammar.select := by
  obtain ⟨rest, sent⟩ :=
    mailimapSelectQresyncSend_text mb uidvalidity modseqValue knownUids seqMatchDataSequences seqMatchDataUids
  intro isSelect
  rw [sent, Grammar.select] at isSelect
  have behind := mailimapMailboxSend_mul (fun other isOther => by
    rcases isOther with none | params
    · rw [none]
      exact stopsAt_nil _
    · exact stopsAt_SP_mul other params) (terminal_mul.mp (terminal_mul.mp isSelect))
  rcases behind with none | params
  · cases none
  · have spaced : asciiText " " ++ (asciiText "QRESYNC" ++ rest) ∈
        Grammar.SP * (terminal "(" * (separated Grammar.SP Grammar.selectParam * terminal ")")) := params
    exact terminal_mul_other rfl (terminal_mul.mp spaced)

theorem decimal_mem_modSequenceValue (number : Nat) : decimal number ∈ Grammar.modSequenceValue :=
  mem_octets_one.mpr ⟨decimal_ne_nil number, decimal_digits⟩

theorem sendFetchParam_text (modSequenceValue : UInt64) (vanished : Bool) (nonzero : modSequenceValue ≠ 0) :
    (sendFetchParam modSequenceValue vanished).text = asciiText " " ++ (asciiText "(" ++ (asciiText "CHANGEDSINCE" ++
      (asciiText " " ++ decimal modSequenceValue.toNat) ++ (if vanished then asciiText " " ++ asciiText "VANISHED" else []) ++
        asciiText ")")) := by
  rw [sendFetchParam, if_neg nonzero]
  cases vanished with
  | true =>
      simp only [if_true, Sending.text_append, mailimapTokenSend_plain "CHANGEDSINCE" rfl, mailimapTokenSend_plain "VANISHED" rfl,
        mailimapModSequenceValueSend_text, mailimapSpaceSend_text, asciiText_SP, List.append_assoc]
      rfl
  | false =>
      simp only [Sending.text_append, mailimapTokenSend_plain "CHANGEDSINCE" rfl, Bool.false_eq_true, if_false,
        mailimapModSequenceValueSend_text, mailimapSpaceSend_text, asciiText_SP, List.append_assoc]
      rfl

theorem sendFetchParam_mem (modSequenceValue : UInt64) (vanished : Bool) :
    (sendFetchParam modSequenceValue vanished).text ∈ Grammar.fetchModifiers := by
  by_cases zero : modSequenceValue = 0
  · rw [sendFetchParam, if_pos zero]
    exact .inl rfl
  · rw [sendFetchParam_text modSequenceValue vanished zero]
    refine .inr (Language.append_mem_mul (mem_terminal " ") (Language.append_mem_mul (mem_terminal "(")
      (Language.append_mem_mul (Language.append_mem_mul (.inl ?_) ?_) (mem_terminal ")"))))
    · exact Language.append_mem_mul (mem_terminal "CHANGEDSINCE")
        (Language.append_mem_mul (mem_terminal " ") (decimal_mem_modSequenceValue _))
    · cases vanished with
      | false => exact Language.nil_mem_kstar _
      | true =>
          have modifier : asciiText " " ++ asciiText "VANISHED" ∈ Grammar.SP * Grammar.fetchModifier :=
            Language.append_mem_mul (mem_terminal " ") (.inr (mem_terminal "VANISHED"))
          rw [Language.mem_kstar]
          exact ⟨[asciiText " " ++ asciiText "VANISHED"], by simp, by simpa using modifier⟩

/-- A command of `condstore.c` or `qresync.c`, or the modifiers of one. -/
inductive CondstoreCommand where
  | store (set : NumberSet) (useUnchangedsince : Bool) (modSequenceValzer : UInt64) (storeAttFlags : StoreAttFlags)
  | uidStore (set : NumberSet) (useUnchangedsince : Bool) (modSequenceValzer : UInt64) (storeAttFlags : StoreAttFlags)
  | selectQresync (mb : List UInt8) (uidvalidity : UInt32) (modseqValue : UInt64)
      (knownUids seqMatchDataSequences seqMatchDataUids : Option NumberSet)
  | fetchModifiers (modSequenceValue : UInt64) (vanished : Bool)
deriving Repr, DecidableEq

def CondstoreCommand.send : CondstoreCommand → Sending
  | .store set useUnchangedsince modSequenceValzer storeAttFlags =>
      mailimapStoreSend set useUnchangedsince modSequenceValzer storeAttFlags
  | .uidStore set useUnchangedsince modSequenceValzer storeAttFlags =>
      mailimapUidStoreSend set useUnchangedsince modSequenceValzer storeAttFlags
  | .selectQresync mb uidvalidity modseqValue knownUids seqMatchDataSequences seqMatchDataUids =>
      mailimapSelectQresyncSend mb uidvalidity modseqValue knownUids seqMatchDataSequences seqMatchDataUids
  | .fetchModifiers modSequenceValue vanished => sendFetchParam modSequenceValue vanished

def CondstoreCommand.grammar : CondstoreCommand → Language UInt8
  | .store .. => Grammar.store
  | .uidStore .. => Grammar.uidStore
  | .selectQresync .. => Grammar.select
  | .fetchModifiers .. => Grammar.fetchModifiers

/-- A STORE without UNCHANGEDSINCE of a nonempty set and of flags that can be sent; the
modifiers of a FETCH always, and SELECT never. -/
def CondstoreCommand.Sendable : CondstoreCommand → Prop
  | .store set useUnchangedsince _ storeAttFlags | .uidStore set useUnchangedsince _ storeAttFlags =>
      useUnchangedsince = false ∧ set ≠ [] ∧ FlagsSendable storeAttFlags.flFlagList
  | .selectQresync .. => False
  | .fetchModifiers .. => True

theorem condstoreCommand_wellFormed (command : CondstoreCommand) :
    command.send.text ∈ command.grammar ↔ command.Sendable := by
  cases command with
  | store set useUnchangedsince modSequenceValzer storeAttFlags =>
      exact mailimapStoreSend_mem set useUnchangedsince modSequenceValzer storeAttFlags
  | uidStore set useUnchangedsince modSequenceValzer storeAttFlags =>
      have sent : (mailimapUidStoreSend set useUnchangedsince modSequenceValzer storeAttFlags).text =
          asciiText "UID" ++ (asciiText " " ++ (mailimapStoreSend set useUnchangedsince modSequenceValzer storeAttFlags).text) := by
        simp only [mailimapUidStoreSend, Sending.text_append, mailimapTokenSend_plain "UID" rfl, mailimapSpaceSend_text,
          asciiText_SP, List.append_assoc]
      change (mailimapUidStoreSend _ _ _ _).text ∈ Grammar.uidStore ↔ _
      rw [sent, Grammar.uidStore]
      exact (terminal_mul.trans terminal_mul).trans
        (mailimapStoreSend_mem set useUnchangedsince modSequenceValzer storeAttFlags)
  | selectQresync mb uidvalidity modseqValue knownUids seqMatchDataSequences seqMatchDataUids =>
      exact iff_of_false (mailimapSelectQresyncSend_mem mb uidvalidity modseqValue knownUids seqMatchDataSequences
        seqMatchDataUids) fun never => never
  | fetchModifiers modSequenceValue vanished =>
      exact iff_of_true (sendFetchParam_mem modSequenceValue vanished) trivial

/-- `STORE 1(UNCHANGEDSINCE 5) FLAGS (\Seen)`, with no space behind the set, and a SELECT
whose QRESYNC stands outside parentheses. -/
theorem condstoreCommand_misspelled :
    (CondstoreCommand.store [⟨1, 1⟩] true 5 ⟨0, false, [.seen]⟩).send.text =
        asciiText "STORE 1(UNCHANGEDSINCE 5) FLAGS (\\Seen)" ∧
      (CondstoreCommand.store [⟨1, 1⟩] true 5 ⟨0, false, [.seen]⟩).send.text ∉ Grammar.store ∧
      (CondstoreCommand.selectQresync (asciiText "INBOX") 7 5 none none none).send.text =
        asciiText "SELECT INBOX QRESYNC (7 5)" ∧
      (CondstoreCommand.selectQresync (asciiText "INBOX") 7 5 none none none).send.text ∉ Grammar.select := by
  refine ⟨by decide +kernel, ?_, by decide +kernel, ?_⟩
  · intro isStore
    have plain := ((mailimapStoreSend_mem [⟨1, 1⟩] true 5 ⟨0, false, [.seen]⟩).mp isStore).1
    cases plain
  · exact mailimapSelectQresyncSend_mem (asciiText "INBOX") 7 5 none none none

end Etpan.Imap
