import Etpan.Imap.Parser
import Etpan.Imap.Grammar

namespace Etpan.Imap

open Computability Etpan.Data Etpan.Stream

/-! `mailimap_astring_send` against the grammar and against `mailimap_astring_parse`. -/

def isSentInAtom (byte : UInt8) : Bool := byte = ascii '-' || isalnum byte

theorem isAtom_iff {str : List UInt8} :
    isAtom str = true ↔ str ≠ [] ∧ ∀ byte ∈ str, isSentInAtom byte = true := by
  simp [isAtom, isSentInAtom]

structure AtomOctet (byte : UInt8) : Prop where
  atomChar : Grammar.isAtomChar byte = true
  astringChar : isAstringChar byte = true
  textChar : Grammar.isTextChar byte = true

theorem isSentInAtom_spec {byte : UInt8} (sent : isSentInAtom byte = true) : AtomOctet byte := by
  have checked : ∀ byte : UInt8, isSentInAtom byte = true → Grammar.isAtomChar byte = true ∧
      isAstringChar byte = true ∧ Grammar.isTextChar byte = true :=
    forall_octet (by decide +kernel)
  obtain ⟨atomChar, astringChar, textChar⟩ := checked byte sent
  exact ⟨atomChar, astringChar, textChar⟩

theorem mailimapQuotedSend_text {s : List UInt8} (nulFree : NulFree s) :
    (mailimapQuotedSend s).text = quotedText s := by
  have characters : Sending.text (s.flatMap mailimapQuotedCharSend) = s.flatMap escaped := by
    induction s with
    | nil => rfl
    | cons ch s ih =>
        have tail := ih fun byte member => nulFree byte (by simp [member])
        rw [List.flatMap_cons, Sending.text_append, tail, List.flatMap_cons, mailimapQuotedCharSend, escaped]
        split_ifs <;> rfl
  rw [mailimapQuotedSend, cString_eq_self nulFree, Sending.text_append, Sending.text_append, characters, quotedText]
  rfl

theorem mailimapAstringSend_text {s : List UInt8} (nulFree : NulFree s) :
    (mailimapAstringSend s).text = if isAtom s then s else quotedText s := by
  rw [mailimapAstringSend, cString_eq_self nulFree]
  by_cases atom : isAtom s = true
  · have breakFree : BreakFree s := by
      intro byte member
      have text := (isSentInAtom_spec ((isAtom_iff.mp atom).2 byte member)).textChar
      simp only [Grammar.isTextChar, Bool.and_eq_true, bne_iff_ne] at text
      exact ⟨text.1.2, text.2⟩
    rw [if_pos atom, if_pos atom, mailimapAtomSend, mailimapTokenSend_text nulFree breakFree]
  · rw [if_neg atom, if_neg atom, mailimapQuotedSend_text nulFree]

theorem quotedText_mem_quoted {s : List UInt8} (plain : ∀ byte ∈ s, Grammar.isTextChar byte = true) :
    quotedText s ∈ Grammar.quoted := by
  have inner : s.flatMap escaped ∈ Grammar.quotedChar∗ := by
    apply flatMap_mem_kstar
    intro byte member
    rw [escaped, Grammar.quotedChar, Language.mem_add]
    cases special : isQuotedSpecials byte with
    | false =>
        left
        exact mem_octet (by rw [plain byte member]; simpa [Grammar.isQuotedSpecials, isQuotedSpecials] using special)
    | true =>
        right
        exact Language.append_mem_mul (mem_terminal "\\") (mem_octet special)
  exact Language.append_mem_mul (Language.append_mem_mul (mem_terminal "\"") inner) (mem_terminal "\"")

/-- What may follow an argument of a command: a space or the end of the line. -/
def EndsArgument (rest : List UInt8) : Prop := [ascii ' '] <+: rest ∨ [CR, LF] <+: rest

theorem EndsArgument.takeWhile {rest : List UInt8} (ends : EndsArgument rest) : rest.takeWhile isAstringChar = [] := by
  rcases ends with ⟨more, rfl⟩ | ⟨more, rfl⟩
  · exact List.takeWhile_cons_of_neg (by decide)
  · exact List.takeWhile_cons_of_neg (by decide)

theorem isAstringChar_visible {byte : UInt8} (astringChar : isAstringChar byte = true) : isSpaceOrTab byte = false := by
  have checked : ∀ byte : UInt8, isAstringChar byte = true → isSpaceOrTab byte = false := forall_octet (by decide +kernel)
  exact checked byte astringChar

theorem mailimapAstringParse_word {ctx : ParserContext} {source : Source} {indx : Nat} {word rest : List UInt8}
    (nonempty : word ≠ []) (chars : ∀ byte ∈ word, isAstringChar byte = true)
    (at_ : source.buffer.drop indx = word ++ rest) (ends : rest.takeWhile isAstringChar = []) :
    mailimapAstringParse ctx source indx = (.ok (word, indx + word.length), source) := by
  obtain ⟨byte, others, rfl⟩ := List.exists_cons_of_ne_nil nonempty
  rw [mailimapAstringParse, mailimapAtomAstringParse,
    mailimapCustomStringParse_at at_ (isAstringChar_visible (chars byte (by simp))) chars ends]

theorem mailimapAstringParse_atom {ctx : ParserContext} {source : Source} {indx : Nat} {s rest : List UInt8}
    (atom : isAtom s = true) (at_ : source.buffer.drop indx = s ++ rest) (ends : rest.takeWhile isAstringChar = []) :
    mailimapAstringParse ctx source indx = (.ok (s, indx + s.length), source) := by
  obtain ⟨nonempty, sent⟩ := isAtom_iff.mp atom
  exact mailimapAstringParse_word nonempty (fun byte member => (isSentInAtom_spec (sent byte member)).astringChar) at_ ends

theorem mailimapStringParse_quoted {ctx : ParserContext} {source : Source} {indx : Nat} {s rest : List UInt8}
    (at_ : source.buffer.drop indx = quotedText s ++ rest) :
    mailimapStringParse ctx source indx = (.ok ((s, (cString s).length), indx + (quotedText s).length), source) := by
  rw [mailimapStringParse, mailimapQuotedParse_at at_]

theorem mailimapAstringParse_none {ctx : ParserContext} {source : Source} {indx : Nat} {byte : UInt8} {rest : List UInt8}
    (at_ : source.buffer.drop indx = byte :: rest) (starts : byte ∈ asciiText "()") : mailimapAstringParse ctx source indx = (.error .parse, source) := by
  have checked : ∀ byte ∈ asciiText "()", isSpaceOrTab byte = false ∧ isAstringChar byte = false ∧ byte ≠ ascii '"' ∧ byte ≠ ascii '{' := by
    decide +kernel
  obtain ⟨visible, noAtom, noQuote, noBrace⟩ := checked byte starts
  have notAtom : mailimapAtomAstringParse source.buffer indx = none := mailimapCustomStringParse_other at_ visible noAtom
  have notLiteral : literalHeadParse source.buffer indx = none := by
    rw [literalHeadParse, mailimapOaccoladeParse, mailimapUnstrictCharParse_other at_ visible (by decide) noBrace]
    rfl
  rw [mailimapAstringParse, notAtom, mailimapStringParse, mailimapQuotedParse_other at_ visible noQuote]
  simp only [mailimapLiteralParse, notLiteral]

theorem mailimapAstringParse_quoted {ctx : ParserContext} {source : Source} {indx : Nat} {s rest : List UInt8}
    (at_ : source.buffer.drop indx = quotedText s ++ rest) :
    mailimapAstringParse ctx source indx = (.ok (s, indx + (quotedText s).length), source) := by
  have notAtom : mailimapAtomAstringParse source.buffer indx = none := by
    rw [quotedText, List.cons_append] at at_
    exact mailimapCustomStringParse_other at_ (by decide) (by decide)
  rw [mailimapAstringParse, notAtom, mailimapStringParse_quoted at_]

/-- The octets sent for `s` cannot end the command, are one astring and are read as `s`. -/
structure SentAsAstring (s text : List UInt8) : Prop where
  contained : text ∈ Grammar.literal ∨ ∀ byte ∈ text, byte ≠ CR ∧ byte ≠ LF ∧ byte < 128
  isAstring : text ∈ Grammar.astring
  readBack : ∀ ctx fd before rest, EndsArgument rest →
    mailimapAstringParse ctx ⟨before ++ text ++ rest, fd⟩ before.length =
      (.ok (s, before.length + text.length), ⟨before ++ text ++ rest, fd⟩)

theorem isTextChar_iff {byte : UInt8} :
    Grammar.isTextChar byte = true ↔ byte ≠ 0 ∧ byte ≠ CR ∧ byte ≠ LF ∧ byte < 128 := by
  have checked : ∀ byte : UInt8, Grammar.isTextChar byte = true ↔ byte ≠ 0 ∧ byte ≠ CR ∧ byte ≠ LF ∧ byte < 128 :=
    forall_octet (by decide +kernel)
  exact checked byte

theorem mem_quotedText {s : List UInt8} {byte : UInt8} (member : byte ∈ s) : byte ∈ quotedText s := by
  have inside : byte ∈ s.flatMap escaped := by
    rw [List.mem_flatMap]
    refine ⟨byte, member, ?_⟩
    rw [escaped]
    split_ifs <;> simp
  rw [quotedText]
  simp [inside]

theorem literal_head {text : List UInt8} (literal : text ∈ Grammar.literal) : text.head? = some (ascii '{') := by
  obtain ⟨digits, data, -, rfl, -⟩ := literal
  rfl

theorem mailimapAstringSend_notLiteral {s : List UInt8} (nulFree : NulFree s) :
    (mailimapAstringSend s).text ∉ Grammar.literal := by
  intro literal
  have head := literal_head literal
  rw [mailimapAstringSend_text nulFree] at head
  by_cases atom : isAtom s = true
  · rw [if_pos atom] at head
    have sent := (isAtom_iff.mp atom).2 _ (List.mem_of_mem_head? head)
    revert sent
    decide
  · rw [if_neg atom] at head
    have first : some (ascii '"') = some (ascii '{') := head
    revert first
    decide

theorem quotedText_plain {s : List UInt8} (plain : ∀ byte ∈ s, Grammar.isTextChar byte = true) :
    ∀ byte ∈ quotedText s, Grammar.isTextChar byte = true := by
  intro byte member
  rw [quotedText, List.cons_append, List.mem_cons, List.mem_append, List.mem_flatMap, List.mem_singleton] at member
  rcases member with rfl | ⟨ch, inString, inEscaped⟩ | rfl
  · decide
  · rw [escaped] at inEscaped
    split_ifs at inEscaped
    · rcases List.mem_cons.mp inEscaped with rfl | same
      · decide
      · rw [List.mem_singleton.mp same]
        exact plain ch inString
    · rw [List.mem_singleton.mp inEscaped]
      exact plain ch inString
  · decide

/-- A string is sent safely exactly when it holds no CR, no LF and no octet above 127. -/
theorem mailimapAstringSend_safe {s : List UInt8} (nulFree : NulFree s) :
    SentAsAstring s (mailimapAstringSend s).text ↔ ∀ byte ∈ s, byte ≠ CR ∧ byte ≠ LF ∧ byte < 128 := by
  constructor
  · intro safe byte member
    have contained := safe.contained.resolve_left (mailimapAstringSend_notLiteral nulFree)
    apply contained
    rw [mailimapAstringSend_text nulFree]
    split_ifs
    · exact member
    · exact mem_quotedText member
  · intro plain
    have text : ∀ byte ∈ s, Grammar.isTextChar byte = true := fun byte member =>
      isTextChar_iff.mpr ⟨nulFree byte member, plain byte member⟩
    rw [mailimapAstringSend_text nulFree]
    by_cases atom : isAtom s = true
    · obtain ⟨nonempty, sent⟩ := isAtom_iff.mp atom
      rw [if_pos atom]
      refine ⟨.inr plain, .inl (mem_octets_one.mpr ⟨nonempty, fun byte member => ?_⟩), ?_⟩
      · rw [Grammar.isAstringChar, (isSentInAtom_spec (sent byte member)).atomChar, Bool.true_or]
      · intro ctx fd before rest ends
        apply mailimapAstringParse_atom atom
        · rw [List.append_assoc, List.drop_left]
        · exact ends.takeWhile
    · rw [if_neg atom]
      refine ⟨.inr fun byte member => (isTextChar_iff.mp (quotedText_plain text byte member)).2,
        .inr (.inl (quotedText_mem_quoted text)), ?_⟩
      intro ctx fd before rest ends
      apply mailimapAstringParse_quoted
      rw [List.append_assoc, List.drop_left]

theorem mailimapAstringSend_safe_quoted :
    SentAsAstring (asciiText "a \"b\"") (mailimapAstringSend (asciiText "a \"b\"")).text ↔
      ∀ byte ∈ asciiText "a \"b\"", byte ≠ CR ∧ byte ≠ LF ∧ byte < 128 :=
  mailimapAstringSend_safe (by decide)

/-- A line break in a mailbox name is sent as it is, and what follows it starts a new command. -/
theorem mailimapAstringSend_injects :
    (mailimapAstringSend (asciiText "a\r\nb")).text = asciiText "\"a\r\nb\"" ∧
      ¬ SentAsAstring (asciiText "a\r\nb") (mailimapAstringSend (asciiText "a\r\nb")).text := by
  have sent : (mailimapAstringSend (asciiText "a\r\nb")).text = asciiText "\"a\r\nb\"" := by decide
  refine ⟨sent, fun safe => ?_⟩
  rw [sent] at safe
  rcases safe.contained with literal | contained
  · exact absurd (literal_head literal) (by decide)
  · exact (contained CR (by decide)).1 rfl

end Etpan.Imap
