import Etpan.Imf.Address
import Etpan.Imf.TextWrite
import Etpan.Mime.ContentExact

namespace Etpan.Mime

open Etpan.Data Etpan.Imf

/-! What `mailmime_content_type_write_driver` writes is a content in the spelling that the parser reads, but a name that is
longer than a line is cut. -/

structure WrittenContent where
  type : List UInt8
  isType : MimeToken type
  subtype : List UInt8
  isSubtype : MimeToken subtype
  parameters : List MailmimeParameter
  areNames : ∀ param ∈ parameters, MimeToken param.1 ∧ ascii '*' ∉ param.1
  areValues : ∀ param ∈ parameters, ∀ ch ∈ param.2, 32 ≤ ch ∧ ch ≤ 126

def WrittenContent.content (written : WrittenContent) : ParsedContent :=
  { ctType := typeOf written.type, ctSubtype := written.subtype, ctParameters := written.parameters }

/-- The text that is written from column `col` is read as the content. -/
def WritesBack (charconv : List UInt8 → List UInt8 → Option (List UInt8)) (col : Nat) (written : WrittenContent) : Prop :=
  ∃ turns parsed behind, mailmimeContentParse charconv turns (mailmimeContentTypeWriteDriver { data := [], col } written.content).data =
      some (parsed, behind) ∧
    parsed.ctType = typeOf written.type ∧ parsed.ctSubtype = written.subtype ∧
    List.Forall₂ (fun parsed param => SameParameter parsed param.1 param.2) parsed.ctParameters written.parameters

/-- The type is not taken for a shorter one, and no token is longer than a line. -/
structure WrittenContent.Short (written : WrittenContent) : Prop where
  stands : TypeStands written.type
  type : written.type.length ≤ maxImfLine
  subtype : written.subtype.length ≤ maxImfLine
  names : ∀ param ∈ written.parameters, param.1.length ≤ maxImfLine

theorem mem_separateLines {lines : List (List UInt8)} {ch : UInt8} (member : ch ∈ separateLines lines) :
    ch = CR ∨ ch = LF ∨ ∃ line ∈ lines, ch ∈ line := by
  induction lines with
  | nil => exact absurd member List.not_mem_nil
  | cons line lines ih =>
      cases lines with
      | nil => exact .inr (.inr ⟨line, List.mem_cons_self, member⟩)
      | cons next lines =>
          rw [separateLines_cons (List.cons_ne_nil next lines), List.mem_append, List.mem_cons, List.mem_cons] at member
          obtain inLine | isCR | isLF | later := member
          · exact .inr (.inr ⟨line, List.mem_cons_self, inLine⟩)
          · exact .inl isCR
          · exact .inr (.inl isLF)
          · obtain isCR | isLF | ⟨other, isLine, inLine⟩ := ih later
            · exact .inl isCR
            · exact .inr (.inl isLF)
            · exact .inr (.inr ⟨other, List.mem_cons_of_mem line isLine, inLine⟩)

theorem mem_cutFrom {block line piece : List UInt8} (member : piece ∈ cutFrom block line) : ∀ ch ∈ piece, ch ∈ block ∨ ch ∈ line := by
  induction line generalizing block with
  | nil =>
      rw [List.mem_singleton.mp member]
      exact fun ch inBlock => .inl inBlock
  | cons byte line ih =>
      rw [cutFrom] at member
      intro ch inPiece
      split_ifs at member
      · obtain rfl | later := List.mem_cons.mp member
        · exact .inl inPiece
        · obtain isByte | inLine := ih later ch inPiece
          · rw [List.mem_singleton.mp isByte]
            exact .inr List.mem_cons_self
          · exact .inr (List.mem_cons_of_mem byte inLine)
      · obtain inBlock | inLine := ih member ch inPiece
        · obtain inBlock | isByte := List.mem_append.mp inBlock
          · exact .inl inBlock
          · rw [List.mem_singleton.mp isByte]
            exact .inr List.mem_cons_self
        · exact .inr (List.mem_cons_of_mem byte inLine)

theorem cutFrom_head (block line : List UInt8) : ∃ piece pieces, cutFrom block line = piece :: pieces ∧ block <+: piece := by
  induction line generalizing block with
  | nil => exact ⟨block, [], rfl, List.prefix_rfl⟩
  | cons byte line ih =>
      rw [cutFrom]
      split_ifs
      · exact ⟨block, _, rfl, List.prefix_rfl⟩
      · obtain ⟨piece, pieces, cut, starts⟩ := ih (block ++ [byte])
        exact ⟨piece, pieces, cut, (List.prefix_append _ _).trans starts⟩

section Cut

variable {str : List UInt8} (free : BreakFree str)

include free

theorem writtenText_breakFree : writtenText str = separateLines (cutFrom [] str) := by
  have line : splitLines str = [str] := splitLines_separateLines (List.cons_ne_nil str []) (List.forall_mem_singleton.mpr free)
  rw [writtenText, line, brokenLines]

theorem writtenText_eq_iff : writtenText str = str ↔ str.length ≤ maxImfLine := by
  have line : splitLines str = [str] := splitLines_separateLines (List.cons_ne_nil str []) (List.forall_mem_singleton.mpr free)
  constructor
  · intro same
    have lines := splitLines_writtenText str
    rw [same, line, brokenLines] at lines
    exact cutFrom_length (Nat.zero_le _) str (by rw [← lines]; exact List.mem_singleton_self str)
  · intro short
    rw [writtenText_breakFree free, cutFrom_short (by rw [List.length_nil, Nat.zero_add]; exact short)]
    rfl

theorem mem_writtenText {ch : UInt8} (member : ch ∈ writtenText str) : ch = CR ∨ ch = LF ∨ ch ∈ str := by
  rw [writtenText_breakFree free] at member
  obtain isCR | isLF | ⟨piece, isPiece, inPiece⟩ := mem_separateLines member
  · exact .inl isCR
  · exact .inr (.inl isLF)
  · obtain nothing | inStr := mem_cutFrom isPiece ch inPiece
    · exact absurd nothing List.not_mem_nil
    · exact .inr (.inr inStr)

theorem writtenText_head : (writtenText str).head? = str.head? := by
  rw [writtenText_breakFree free]
  cases str with
  | nil => rfl
  | cons byte str =>
      have started : cutFrom [] (byte :: str) = cutFrom [byte] str := if_neg (by decide)
      obtain ⟨piece, pieces, cut, more, rfl⟩ := cutFrom_head [byte] str
      rw [started, cut]
      cases pieces with
      | nil => rfl
      | cons next pieces => rfl

end Cut

theorem writeString_data (out : Output (List UInt8)) (str : List UInt8) : (writeString out str).data = out.data ++ writtenText str := by
  obtain ⟨col, written⟩ := mailimfStringWriteDriver_written out str
  rw [writeString, written]
  rfl

theorem MimeToken.breakFree {str : List UInt8} (isToken : MimeToken str) : BreakFree str := fun ch member =>
  have octets := mimeToken_octets ch (isToken.visible ch member)
  ⟨octets.2.2.2.2.2.1, octets.2.2.2.2.2.2⟩

def writtenRun (str : List UInt8) (isMimeToken : MimeToken str) : TokenRun where
  octets := writtenText str
  nonempty := by
    intro empty
    have head := writtenText_head isMimeToken.breakFree
    rw [empty] at head
    exact isMimeToken.nonempty (List.head?_eq_none_iff.mp head.symm)
  areToken := by
    intro ch member
    obtain rfl | rfl | inStr := mem_writtenText isMimeToken.breakFree member
    · decide
    · decide
    · exact (mimeToken_octets ch (isMimeToken.visible ch inStr)).1
  nulFree := by
    intro ch member
    obtain rfl | rfl | inStr := mem_writtenText isMimeToken.breakFree member
    · decide
    · decide
    · exact (mimeToken_octets ch (isMimeToken.visible ch inStr)).2.2.1
  starts := by
    intro ch first
    rw [writtenText_head isMimeToken.breakFree] at first
    exact (mimeToken_octets ch (isMimeToken.visible ch (List.mem_of_mem_head? first))).2.2.2.1

theorem spelling_cases (name : List UInt8) :
    (∃ known ∈ typeNames, sameCaseless name known.1 = true ∧ (typeOf name).spelling = known.1 ∧ typeOf known.1 = typeOf name) ∨
      (∀ known ∈ typeNames, ¬ sameCaseless name known.1 = true) ∧ (typeOf name).spelling = name := by
  by_cases isKnown : ∃ known ∈ typeNames, sameCaseless name known.1 = true
  · obtain ⟨known, member, same⟩ := isKnown
    have spelled : ∀ known ∈ typeNames, known.2.spelling = known.1 := by decide
    have itself : sameCaseless known.1 known.1 = true := sameCaseless_iff.mpr rfl
    left
    refine ⟨known, member, same, ?_, ?_⟩
    · rw [typeOf_known member same, spelled known member]
    · rw [typeOf_known member same, typeOf_known member itself]
  · right
    have unknown : ∀ known ∈ typeNames, ¬ sameCaseless name known.1 = true := fun known member same => isKnown ⟨known, member, same⟩
    exact ⟨unknown, by rw [typeOf_extension unknown]; rfl⟩

theorem MimeToken.spelling {name : List UInt8} (isToken : MimeToken name) : MimeToken (typeOf name).spelling := by
  have areTokens : ∀ known ∈ typeNames, known.1 ≠ [] ∧ ∀ ch ∈ known.1, 33 ≤ ch ∧ ch ≤ 126 ∧ isTspecials ch = false := by decide +kernel
  obtain ⟨known, member, -, spelled, -⟩ | ⟨-, spelled⟩ := spelling_cases name
  · rw [spelled]
    exact ⟨(areTokens known member).1, (areTokens known member).2⟩
  · rw [spelled]
    exact isToken

def quotedOctets (value : List UInt8) : List (Bool × UInt8) := value.map fun ch => (decide (ch = ascii '\\' ∨ ch = ascii '"'), ch)

theorem quotedSpelling_quotedOctets (value : List UInt8) : quotedSpelling (quotedOctets value) = value.flatMap quotedOctet := by
  induction value with
  | nil => rfl
  | cons ch value ih =>
      have octet : (if decide (ch = ascii '\\' ∨ ch = ascii '"') = true then [ascii '\\', ch] else [ch]) = quotedOctet ch := by
        simp only [decide_eq_true_eq, quotedOctet]
      rw [quotedOctets, List.map_cons, quotedSpelling, List.flatMap_cons, List.flatMap_cons, octet]
      exact congrArg (quotedOctet ch ++ ·) ih

theorem quotedOctets_proper {value : List UInt8} (printable : ∀ ch ∈ value, 32 ≤ ch ∧ ch ≤ 126) :
    ∀ octet ∈ quotedOctets value, 32 ≤ octet.2 ∧ octet.2 ≤ 126 ∧ (octet.1 = false → octet.2 ≠ ascii '"' ∧ octet.2 ≠ ascii '\\') := by
  intro octet member
  obtain ⟨ch, inValue, rfl⟩ := List.mem_map.mp member
  refine ⟨(printable ch inValue).1, (printable ch inValue).2, ?_⟩
  intro plain
  have neither := of_decide_eq_false plain
  exact ⟨fun isQuote => neither (.inr isQuote), fun isBackslash => neither (.inl isBackslash)⟩

def writtenParameter (param : MailmimeParameter) (isName : MimeToken param.1 ∧ ascii '*' ∉ param.1)
    (printable : ∀ ch ∈ param.2, 32 ≤ ch ∧ ch ≤ 126) (folded : Bool) : SpelledParameter where
  beforeSemicolon := []
  afterSemicolon := if folded then [.blank false, .fold false] else [.blank false]
  name := writtenRun param.1 isName.1
  notExtended := by
    intro member
    obtain isCR | isLF | inName := mem_writtenText isName.1.breakFree member
    · exact absurd isCR (by decide)
    · exact absurd isLF (by decide)
    · exact isName.2 inName
  beforeEquals := []
  afterEquals := []
  value := .quoted (quotedOctets param.2) (quotedOctets_proper printable)

section Parameters

variable {param : MailmimeParameter} (isName : MimeToken param.1 ∧ ascii '*' ∉ param.1) (printable : ∀ ch ∈ param.2, 32 ≤ ch ∧ ch ≤ 126)

theorem writtenParameter_joined (folded : Bool) : (writtenParameter param isName printable folded).Joined := by
  have named : (writtenParameter param isName printable folded).afterSemicolon.left = [] := by
    cases folded with
    | true => rfl
    | false => rfl
  exact { named, nameEnds := rfl, equals := rfl, begins := rfl }

theorem writtenParameter_value (folded : Bool) : (writtenParameter param isName printable folded).value.value = param.2 := by
  rw [writtenParameter, SpelledValue.value, quotedOctets, List.map_map]
  exact List.map_id param.2

theorem writtenParameter_text (folded : Bool) : (writtenParameter param isName printable folded).text =
    asciiText "; " ++ ((if folded then headerFold else []) ++
      (writtenText param.1 ++ (asciiText "=" ++ (ascii '"' :: (param.2.flatMap quotedOctet ++ [ascii '"']))))) := by
  have value : (writtenParameter param isName printable folded).value.text = ascii '"' :: (param.2.flatMap quotedOctet ++ [ascii '"']) := by
    rw [← quotedSpelling_quotedOctets]
    rfl
  have assignment : (writtenParameter param isName printable folded).assignment =
      writtenText param.1 ++ (asciiText "=" ++ (ascii '"' :: (param.2.flatMap quotedOctet ++ [ascii '"']))) := by
    rw [SpelledParameter.assignment, value]
    rfl
  rw [SpelledParameter.text, assignment]
  cases folded with
  | true => rfl
  | false => rfl

theorem parameterWrite_written (out : Output (List UInt8)) : ∃ folded,
    (mailmimeParameterWriteDriver
      (if 1 < (writeString out (asciiText "; ")).col ∧ maxMimeCol < (writeString out (asciiText "; ")).col + (param.1.length + 1 + param.2.length) then
        writeString (writeString out (asciiText "; ")) headerFold else writeString out (asciiText "; ")) param).data =
      out.data ++ (writtenParameter param isName printable folded).text := by
  have short : ∀ str ∈ [asciiText "; ", asciiText "="], writtenText str = str := by
    intro str member
    have free : BreakFree str ∧ str.length ≤ maxImfLine := by
      obtain rfl | rfl := List.mem_pair.mp member
      · decide
      · decide
    exact (writtenText_eq_iff free.1).mpr free.2
  have begun : (writeString out (asciiText "; ")).data = out.data ++ asciiText "; " := by
    rw [writeString_data, short _ (by decide)]
  have assignment : ∀ started : Output (List UInt8), (mailmimeParameterWriteDriver started param).data =
      started.data ++ (writtenText param.1 ++ (asciiText "=" ++ (ascii '"' :: (param.2.flatMap quotedOctet ++ [ascii '"'])))) := by
    intro started
    simp only [mailmimeParameterWriteDriver, mailimfQuotedStringWriteDriver, writeString_data, short (asciiText "=") (by decide), List.append_assoc,
      List.cons_append, List.nil_append]
  split_ifs
  · refine ⟨true, ?_⟩
    rw [assignment, writeString_fold, begun, writtenParameter_text, if_pos rfl]
    simp only [List.append_assoc]
  · refine ⟨false, ?_⟩
    rw [assignment, begun, writtenParameter_text, if_neg Bool.false_ne_true]
    simp only [List.append_assoc, List.nil_append]

end Parameters

structure WrittenAs (spelled : SpelledParameter) (param : MailmimeParameter) : Prop where
  name : spelled.name.octets = writtenText param.1
  value : spelled.value.value = param.2
  quoted : spelled.value.isBare = false
  begins : spelled.beforeSemicolon = []
  joined : spelled.Joined

theorem parametersWriteLoop_written {parameters : List MailmimeParameter}
    (areNames : ∀ param ∈ parameters, MimeToken param.1 ∧ ascii '*' ∉ param.1) (areValues : ∀ param ∈ parameters, ∀ ch ∈ param.2, 32 ≤ ch ∧ ch ≤ 126)
    (out : Output (List UInt8)) :
    ∃ spelled, (parametersWriteLoop out parameters).data = out.data ++ parametersText spelled ∧ List.Forall₂ WrittenAs spelled parameters := by
  induction parameters generalizing out with
  | nil => exact ⟨[], (List.append_nil _).symm, .nil⟩
  | cons param parameters ih =>
      have isName := areNames param List.mem_cons_self
      have printable := areValues param List.mem_cons_self
      obtain ⟨folded, first⟩ := parameterWrite_written isName printable out
      obtain ⟨spelled, rest, same⟩ := ih (fun other member => areNames other (List.mem_cons_of_mem param member))
        (fun other member => areValues other (List.mem_cons_of_mem param member)) _
      refine ⟨writtenParameter param isName printable folded :: spelled, ?_, .cons ?_ same⟩
      · rw [parametersWriteLoop, List.foldl_cons, ← parametersWriteLoop]
        refine rest.trans ?_
        rw [first, List.append_assoc, parametersText, parametersText, List.flatMap_cons]
      · exact ⟨rfl, writtenParameter_value isName printable folded, rfl, rfl, writtenParameter_joined isName printable folded⟩

def WrittenContent.spelled (written : WrittenContent) (parameters : List SpelledParameter) : SpelledContent where
  type := writtenRun (typeOf written.type).spelling written.isType.spelling
  beforeSlash := []
  afterSlash := []
  subtype := writtenRun written.subtype written.isSubtype
  parameters := parameters

theorem mailmimeContentTypeWriteDriver_written (col : Nat) (written : WrittenContent) :
    ∃ parameters, (mailmimeContentTypeWriteDriver { data := [], col } written.content).data = (written.spelled parameters).text ∧
      List.Forall₂ WrittenAs parameters written.parameters := by
  have slash : writtenText (asciiText "/") = asciiText "/" := (writtenText_eq_iff (by decide)).mpr (by decide)
  obtain ⟨parameters, loop, same⟩ := parametersWriteLoop_written written.areNames written.areValues
    (writeString (writeString (writeString { data := [], col } (typeOf written.type).spelling) (asciiText "/")) written.subtype)
  refine ⟨parameters, ?_, same⟩
  rw [mailmimeContentTypeWriteDriver]
  refine loop.trans ?_
  rw [writeString_data, writeString_data, writeString_data, slash, List.nil_append, List.append_assoc, List.append_assoc]
  rfl

section Fits

variable {written : WrittenContent} {parameters : List SpelledParameter} (same : List.Forall₂ WrittenAs parameters written.parameters)

include same

theorem WrittenContent.spelled_fits (stands : TypeStands (writtenText (typeOf written.type).spelling)) : (written.spelled parameters).Fits := by
  have each : ∀ param ∈ parameters, param.value.isBare = false ∧ param.beforeSemicolon = [] ∧ param.Joined := by
    intro param member
    obtain ⟨place, inside, rfl⟩ := List.mem_iff_getElem.mp member
    have isWritten := (List.forall₂_iff_get.mp same).2 place inside (same.length_eq ▸ inside)
    exact ⟨isWritten.quoted, isWritten.begins, isWritten.joined⟩
  have separated : ∀ {parameters : List SpelledParameter}, (∀ param ∈ parameters, param.value.isBare = false) → Separated parameters := by
    intro parameters quoted
    induction parameters with
    | nil => trivial
    | cons param parameters ih =>
        have isQuoted := quoted param List.mem_cons_self
        exact ⟨fun isBare => absurd isBare (by rw [isQuoted]; decide), ih fun other member => quoted other (List.mem_cons_of_mem param member)⟩
  have subtypeEnds : SubtypeEnds parameters := by
    intro param first
    rw [(each param (List.mem_of_mem_head? first)).2.1]
    rfl
  exact { stands := stands, typeEnds := .inr rfl,
          joined := .inl ⟨rfl, rfl, subtypeEnds, fun param member => (each param member).2.2, separated fun param member => (each param member).1⟩ }

end Fits

theorem mailmimeContentParse_unique {charconv : List UInt8 → List UInt8 → Option (List UInt8)} {turns turns' : Nat} {text : List UInt8}
    {found found' : ParsedContent × List UInt8} (parsed : mailmimeContentParse charconv turns text = some found)
    (parsed' : mailmimeContentParse charconv turns' text = some found') : found = found' := by
  simp only [mailmimeContentParse, Option.bind_eq_bind, Option.bind_eq_some_iff, Prod.exists] at parsed parsed'
  obtain ⟨ctType, afterType, type, ctSubtype, afterSubtype, subtype, ctParameters, normalized, result⟩ := parsed
  obtain ⟨ctType', afterType', type', ctSubtype', afterSubtype', subtype', ctParameters', normalized', result'⟩ := parsed'
  obtain ⟨rfl, rfl⟩ := Prod.mk.inj (Option.some.inj (type.symm.trans type'))
  obtain ⟨rfl, rfl⟩ := Prod.mk.inj (Option.some.inj (subtype.symm.trans subtype'))
  rw [mailmimeRfc2231NormalizeParameters_unique normalized normalized'] at result
  exact Option.some.inj (result.symm.trans result')

theorem writtenAs_read {spelled : List SpelledParameter} {parameters : List MailmimeParameter} (same : List.Forall₂ WrittenAs spelled parameters)
    (areNames : ∀ param ∈ parameters, MimeToken param.1 ∧ ascii '*' ∉ param.1) :
    List.Forall₂ (fun (parsed param : MailmimeParameter) => SameParameter parsed param.1 param.2)
        (spelled.map fun param => (param.name.octets, param.value.read)) parameters ↔
      ∀ param ∈ parameters, param.1.length ≤ maxImfLine := by
  induction same with
  | nil => exact ⟨fun _ _ member => absurd member List.not_mem_nil, fun _ => .nil⟩
  | @cons spelledParam param spelled parameters isWritten same ih =>
      have isName := areNames param List.mem_cons_self
      have rest := ih fun other member => areNames other (List.mem_cons_of_mem param member)
      have value := spelledParam.value.squeezeBlanks_read
      rw [isWritten.value] at value
      have first : SameParameter (spelledParam.name.octets, spelledParam.value.read) param.1 param.2 ↔ param.1.length ≤ maxImfLine := by
        rw [SameParameter, isWritten.name, writtenText_eq_iff isName.1.breakFree]
        exact and_iff_left value
      rw [List.map_cons, List.forall₂_cons, first, rest, List.forall_mem_cons]

section Back

variable {charconv : List UInt8 → List UInt8 → Option (List UInt8)} {col : Nat} {written : WrittenContent}

theorem WrittenContent.Short.writesBack (short : written.Short) : WritesBack charconv col written := by
  obtain ⟨parameters, text, same⟩ := mailmimeContentTypeWriteDriver_written col written
  have spelling : (typeOf written.type).spelling.length ≤ maxImfLine ∧ TypeStands (typeOf written.type).spelling ∧
      typeOf (typeOf written.type).spelling = typeOf written.type := by
    have lengths : ∀ known ∈ typeNames, known.1.length ≤ maxImfLine := by decide
    obtain ⟨known, member, -, spelled, isType⟩ | ⟨-, spelled⟩ := spelling_cases written.type
    · rw [spelled]
      exact ⟨lengths known member, typeStands_known ⟨known, member, sameCaseless_iff.mpr rfl⟩, isType⟩
    · rw [spelled]
      exact ⟨short.type, short.stands, rfl⟩
  have kept := (writtenText_eq_iff written.isType.spelling.breakFree).mpr spelling.1
  have fits := WrittenContent.spelled_fits same (by rw [kept]; exact spelling.2.1)
  obtain ⟨turns, behind, parsed⟩ := mailmimeContentParse_fits charconv fits
  have isType : typeOf (written.spelled parameters).type.octets = typeOf written.type := (congrArg typeOf kept).trans spelling.2.2
  exact ⟨turns, _, behind, by rw [text]; exact parsed, isType, (writtenText_eq_iff written.isSubtype.breakFree).mpr short.subtype,
    (writtenAs_read same written.areNames).mpr short.names⟩

theorem writtenType_right {rest behind : List UInt8}
    (read : mailmimeTypeParse (writtenText (typeOf written.type).spelling ++ ascii '/' :: rest) = some (typeOf written.type, behind)) :
    written.type.length ≤ maxImfLine ∧ TypeStands written.type ∧ TypeStands (writtenText (typeOf written.type).spelling) := by
  obtain ⟨known, member, isKnown, spelled, isType⟩ | ⟨unknown, spelled⟩ := spelling_cases written.type
  · have facts : ∀ known ∈ typeNames, known.1.length ≤ maxImfLine ∧ BreakFree known.1 := by decide
    have lengths := congrArg List.length (sameCaseless_iff.mp isKnown)
    rw [List.length_map, List.length_map] at lengths
    have kept := (writtenText_eq_iff (facts known member).2).mpr (facts known member).1
    rw [lengths, spelled, kept]
    exact ⟨(facts known member).1, typeStands_known ⟨known, member, isKnown⟩, typeStands_known ⟨known, member, sameCaseless_iff.mpr rfl⟩⟩
  · rw [spelled] at read ⊢
    have free := written.isType.breakFree
    by_cases short : written.type.length ≤ maxImfLine
    · have kept := (writtenText_eq_iff free).mpr short
      rw [kept]
      have run : (writtenRun written.type written.isType).octets = written.type := kept
      have isRead : mailmimeTypeParse ((writtenRun written.type written.isType).octets ++ (Gap.text [] ++ ascii '/' :: rest)) =
          some (typeOf (writtenRun written.type written.isType).octets, behind) := by
        rw [run, ← kept]
        exact read.trans (by rw [kept])
      have stands := (mailmimeTypeParse_right _ [] rest isRead).1
      rw [run] at stands
      exact ⟨short, stands, stands⟩
    · exfalso
      have isExtension := typeOf_extension unknown
      rw [isExtension] at read
      obtain ⟨known, member, -, isRead⟩ | ⟨-, isRead⟩ := mailmimeTypeParse_cases (writtenRun written.type written.isType) [] rest
      · exact typeNames_notExtension member _ (congrArg Prod.fst (Option.some.inj (isRead.symm.trans read)))
      · have isCut := MailmimeTypeName.extension.inj (congrArg Prod.fst (Option.some.inj (isRead.symm.trans read)))
        have same : writtenText written.type = written.type := (List.append_nil _).symm.trans isCut
        exact short ((writtenText_eq_iff free).mp same)

theorem WritesBack.short (back : WritesBack charconv col written) : written.Short := by
  obtain ⟨turns, parsed, behind, isParsed, isType, isSubtype, sameParameters⟩ := back
  obtain ⟨parameters, text, same⟩ := mailmimeContentTypeWriteDriver_written col written
  rw [text] at isParsed
  have type : ∃ afterType, mailmimeTypeParse (writtenText (typeOf written.type).spelling ++ ascii '/' ::
      (writtenText written.subtype ++ parametersText parameters)) = some (typeOf written.type, afterType) := by
    have parts := isParsed
    simp only [mailmimeContentParse, content_start, Option.bind_eq_bind, Option.bind_eq_some_iff, Prod.exists] at parts
    obtain ⟨ctType, afterType, type, ctSubtype, afterSubtype, -, ctParameters, -, result⟩ := parts
    rw [← (Prod.mk.inj (Option.some.inj result)).1] at isType
    dsimp only at isType
    rw [isType] at type
    exact ⟨afterType, type⟩
  obtain ⟨afterType, type⟩ := type
  obtain ⟨short, stands, cutStands⟩ := writtenType_right type
  have fits := WrittenContent.spelled_fits same cutStands
  obtain ⟨turns', behind', exactly⟩ := mailmimeContentParse_fits charconv fits
  have isExact := (Prod.mk.inj (mailmimeContentParse_unique isParsed exactly)).1
  rw [isExact] at isSubtype sameParameters
  exact { stands, type := short, subtype := (writtenText_eq_iff written.isSubtype.breakFree).mp isSubtype,
          names := (writtenAs_read same written.areNames).mp sameParameters }

end Back

/-- A content that fits is read as it was spelled, and one without an asterisk only if it fits; what is written is read as
the content exactly if it is short. -/
theorem mailmimeContentParse_exact (charconv : List UInt8 → List UInt8 → Option (List UInt8)) (content : SpelledContent) (col : Nat)
    (written : WrittenContent) :
    (content.Fits → ReadsContent charconv content) ∧ (ascii '*' ∉ content.text → ReadsContent charconv content → content.Fits) ∧
      (WritesBack charconv col written ↔ written.Short) :=
  ⟨SpelledContent.Fits.reads charconv, ReadsContent.fits charconv, WritesBack.short, WrittenContent.Short.writesBack⟩

def tokenOf (octets : List UInt8) (isToken : MimeToken octets) : TokenRun where
  octets := octets
  nonempty := isToken.nonempty
  areToken := fun ch member => (mimeToken_octets ch (isToken.visible ch member)).1
  nulFree := fun ch member => (mimeToken_octets ch (isToken.visible ch member)).2.2.1
  starts := fun ch first => (mimeToken_octets ch (isToken.visible ch (List.mem_of_mem_head? first))).2.2.2.1

theorem mimeToken_text : MimeToken (asciiText "text") := ⟨by decide, by decide +kernel⟩

theorem mimeToken_plain : MimeToken (asciiText "plain") := ⟨by decide, by decide +kernel⟩

theorem mimeToken_charset : MimeToken (asciiText "charset") := ⟨by decide, by decide +kernel⟩

def plainContent (gap : Gap) : SpelledContent where
  type := tokenOf _ mimeToken_text
  beforeSlash := []
  afterSlash := []
  subtype := tokenOf _ mimeToken_plain
  parameters :=
    [{ beforeSemicolon := gap, afterSemicolon := [], name := tokenOf _ mimeToken_charset, notExtended := by decide, beforeEquals := [],
       afterEquals := [], value := .token _ mimeToken_text }]

def shortContent : WrittenContent where
  type := asciiText "text"
  isType := mimeToken_text
  subtype := asciiText "plain"
  isSubtype := mimeToken_plain
  parameters := []
  areNames := nofun
  areValues := nofun

theorem mailmimeContentParse_exact_two :
    ReadsContent (fun _ _ => none) (plainContent [.blank false]) ∧ WritesBack (fun _ _ => none) 70 shortContent := by
  have stands : TypeStands (asciiText "text") := typeStands_known ⟨(asciiText "text", .text), by decide, by decide⟩
  have fits : (plainContent [.blank false]).Fits :=
    { stands := stands, typeEnds := .inr rfl,
      joined := .inl ⟨rfl, rfl, fun param first => by rw [← Option.some.inj first]; rfl,
        List.forall_mem_singleton.mpr { named := rfl, nameEnds := rfl, equals := rfl, begins := rfl }, fun _ _ first => (nomatch first), trivial⟩ }
  have exactly := mailmimeContentParse_exact (fun _ _ => none) (plainContent [.blank false]) 70 shortContent
  exact ⟨exactly.1 fits, exactly.2.2.mpr { stands, type := by decide, subtype := by decide, names := nofun }⟩

/-- A tab behind the subtype is taken into it, and a type is taken for a shorter one. -/
theorem mailmimeContentParse_misreads : ¬ ReadsContent (fun _ _ => none) (plainContent [.blank true]) ∧
    mailmimeTypeParse (asciiText "texts/plain") = some (.text, asciiText "s/plain") := by
  refine ⟨?_, by decide +kernel⟩
  intro reads
  have fits := ReadsContent.fits _ (by decide) reads
  obtain ⟨-, -, ends, -⟩ | ⟨missing, -⟩ := fits.joined
  · have isEnd : EndsToken [.blank true] := ends _ rfl
    cases isEnd
  · exact missing rfl

end Etpan.Mime
