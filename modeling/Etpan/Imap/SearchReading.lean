import Etpan.Data.Reading
import Etpan.Imap.QresyncSyntax
import Etpan.Imap.SearchKey

namespace Etpan.Imap.Grammar

open Computability Etpan.Data

/-! The grammar of search keys that `mailimap_sender.c` quotes, with the value that each
text stands for. -/

def numberReads (value : UInt32) : Language UInt8 := fun text => text ∈ number ∧ decimalValue text = value.toNat

def sequenceNumReads (value : UInt32) : Language UInt8 := fun text =>
  text ∈ nzNumber ∧ decimalValue text = value.toNat ∨ text ∈ terminal "*" ∧ value = 0

def setItemReads (item : SetItem) : Language UInt8 := fun text =>
  text ∈ sequenceNumReads item.setFirst ∧ item.setLast = item.setFirst ∨
    text ∈ sequenceNumReads item.setFirst * (terminal ":" * sequenceNumReads item.setLast)

def setReads (set : NumberSet) : Language UInt8 := listReads (terminal ",") setItemReads set

def flagKeywordReads (keyword : List UInt8) : Language UInt8 := fun text => text ∈ flagKeyword ∧ text = keyword

def literalReads (string : List UInt8) : Language UInt8 := fun text =>
  ∃ digits ∈ number, text = ascii '{' :: digits ++ [ascii '}', CR, LF] ++ string ∧
    string.length = decimalValue digits ∧ ∀ byte ∈ string, byte ≠ 0

def astringReads (string : List UInt8) : Language UInt8 := fun text =>
  text ∈ octet isAstringChar * (octet isAstringChar)∗ ∧ text = string ∨
    text ∈ quoted ∧ text = quotedText string ∨ text ∈ literalReads string

def dateDayReads (day : Nat) : Language UInt8 := fun text =>
  text ∈ number ∧ text.length ≤ 2 ∧ decimalValue text = day

def dateMonthReads (month : Nat) : Language UInt8 := fun text => ∃ entry ∈ monthTab, entry.1 = month ∧ text ∈ terminal entry.2

def dateYearReads (year : Nat) : Language UInt8 := fun text =>
  text ∈ number ∧ text.length = 4 ∧ decimalValue text = year

def dateTextReads (date : Date) : Language UInt8 :=
  dateDayReads date.dtDay * (terminal "-" * (dateMonthReads date.dtMonth * (terminal "-" * dateYearReads date.dtYear)))

def dateReads (date : Date) : Language UInt8 := dateTextReads date + terminal "\"" * (dateTextReads date * terminal "\"")

section SearchKeys

-- what may stand for the keyword of an UNKEYWORD; `flagKeywordReads` in the grammar
variable (unkeywordReads : List UInt8 → Language UInt8)

mutual

def searchKeyReadsWith : SearchKey → Language UInt8
  | .flag type => terminal type.token
  | .string type astring => terminal type.token * (SP * astringReads astring)
  | .date type date => terminal type.token * (SP * dateReads date)
  | .size type number => terminal type.token * (SP * numberReads number)
  | .keyword skKeyword => terminal "KEYWORD" * (SP * flagKeywordReads skKeyword)
  | .unkeyword skUnkeyword => terminal "UNKEYWORD" * (SP * unkeywordReads skUnkeyword)
  | .header skHeaderName skHeaderValue =>
      terminal "HEADER" * (SP * (astringReads skHeaderName * (SP * astringReads skHeaderValue)))
  | .not skNot => terminal "NOT" * (SP * searchKeyReadsWith skNot)
  | .or skOr1 skOr2 => terminal "OR" * (SP * (searchKeyReadsWith skOr1 * (SP * searchKeyReadsWith skOr2)))
  | .uid skUid => terminal "UID" * (SP * setReads skUid)
  | .set skSet => setReads skSet
  | .multiple skMultiple => terminal "(" * (searchKeysReadsWith skMultiple * terminal ")")
  -- the grammar has no production for the keys of the extensions
  | .xgmthrid _ | .xgmmsgid _ | .xgmraw _ | .modseq .. => 0

def searchKeysReadsWith : List SearchKey → Language UInt8
  | [] => 0
  | [key] => searchKeyReadsWith key
  | key :: next :: keys => searchKeyReadsWith key * (SP * searchKeysReadsWith (next :: keys))

end

end SearchKeys

def searchKeyReads (key : SearchKey) : Language UInt8 := searchKeyReadsWith flagKeywordReads key

def searchKeysReads (keys : List SearchKey) : Language UInt8 := searchKeysReadsWith flagKeywordReads keys

end Etpan.Imap.Grammar

namespace Etpan.Imap

open Computability Etpan.Data Grammar

/-! The arguments of search keys are read uniquely. -/

def isArgumentEnd (byte : UInt8) : Bool := byte = ascii ' ' || byte = ascii ')'

theorem isArgumentEnd_cases {byte : UInt8} (isEnd : isArgumentEnd byte = true) : byte = ascii ' ' ∨ byte = ascii ')' := by
  simpa [isArgumentEnd] using isEnd

theorem isArgumentEnd_outside {isMember : UInt8 → Bool} (space : isMember (ascii ' ') = false)
    (parenthesis : isMember (ascii ')') = false) (byte : UInt8) (isEnd : isArgumentEnd byte = true) :
    (!isMember byte) = true := by
  rcases isArgumentEnd_cases isEnd with rfl | rfl
  · rw [space]
    rfl
  · rw [parenthesis]
    rfl

theorem number_over : Over isDigit Grammar.number := fun _ isNumber => (mem_octets_one.mp isNumber).2

theorem numberReads_unique : UniquelyRead numberReads fun byte => !isDigit byte := by
  apply uniquelyRead_class
  · exact fun value text reads => number_over text reads.1
  · intro first second text reads reads'
    exact UInt32.toNat_inj.mp (reads.2.symm.trans reads'.2)

theorem mem_star {text : List UInt8} : text ∈ terminal "*" ↔ text = [ascii '*'] := mem_symbol rfl rfl

theorem mem_colon {text : List UInt8} : text ∈ terminal ":" ↔ text = [ascii ':'] := mem_symbol rfl rfl

def isSequenceNumChar (byte : UInt8) : Bool := isDigit byte || byte = ascii '*'

theorem nzNumber_over : Over isDigit Grammar.nzNumber :=
  .mul (over_octet fun byte => by
    have checked : ∀ byte : UInt8, Grammar.isDigitNz byte = true → isDigit byte = true := forall_octet (by decide +kernel)
    exact checked byte) (.kstar (over_octet fun _ digit => digit))

theorem sequenceNumReads_unique : UniquelyRead sequenceNumReads fun byte => !isSequenceNumChar byte := by
  apply uniquelyRead_class
  · rintro value text (⟨isNumber, -⟩ | ⟨isStar, -⟩) byte member
    · rw [isSequenceNumChar, nzNumber_over text isNumber byte member, Bool.true_or]
    · rw [mem_star.mp isStar, List.mem_singleton] at member
      rw [member]
      rfl
  · have starNumber : ∀ text, text ∈ terminal "*" → text ∉ Grammar.nzNumber := by
      intro text isStar isNumber
      rw [mem_star.mp isStar] at isNumber
      exact absurd (nzNumber_over _ isNumber (ascii '*') (by simp)) (by decide)
    rintro first second text (⟨isNumber, value⟩ | ⟨isStar, zero⟩) (⟨isNumber', value'⟩ | ⟨isStar', zero'⟩)
    · exact UInt32.toNat_inj.mp (value.symm.trans value')
    · exact absurd isNumber (starNumber text isStar')
    · exact absurd isNumber' (starNumber text isStar)
    · rw [zero, zero']

def isSetItemEnd (byte : UInt8) : Bool := byte = ascii ',' || isArgumentEnd byte

theorem isSetItemEnd_outside {isMember : UInt8 → Bool} (comma : isMember (ascii ',') = false)
    (space : isMember (ascii ' ') = false) (parenthesis : isMember (ascii ')') = false) (byte : UInt8)
    (isEnd : isSetItemEnd byte = true) : (!isMember byte) = true := by
  rcases Bool.or_eq_true _ _ ▸ isEnd with isComma | isEnd
  · rw [of_decide_eq_true isComma, comma]
    rfl
  · exact isArgumentEnd_outside space parenthesis byte isEnd

theorem setItemReads_unique : UniquelyRead setItemReads isSetItemEnd := by
  have intervals : UniquelyRead (fun pair : UInt32 × UInt32 => sequenceNumReads pair.1 * (terminal ":" * sequenceNumReads pair.2))
      isSetItemEnd :=
    (sequenceNumReads_unique.mul sequenceNumReads_unique (fun _ => mem_colon) rfl).mono (isSetItemEnd_outside rfl rfl rfl)
  have singles := sequenceNumReads_unique.mono (isSetItemEnd_outside rfl rfl rfl)
  -- an item that ends is not followed by the colon of an interval
  have mixed : ∀ {single first last : UInt32} {word word' rest rest' : List UInt8}, word ∈ sequenceNumReads single →
      word' ∈ sequenceNumReads first * (terminal ":" * sequenceNumReads last) → StopsAt isSetItemEnd rest →
      word ++ rest = word' ++ rest' → False := by
    intro single first last word word' rest rest' isWord isWord' stops same
    obtain ⟨front, isFront, back, isBack, rfl⟩ := Language.mem_mul.mp isWord'
    obtain ⟨mark, isMark, tail, -, rfl⟩ := Language.mem_mul.mp isBack
    rw [mem_colon.mp isMark, List.append_assoc] at same
    have colon : StopsAt (fun byte => !isSequenceNumChar byte) (ascii ':' :: (tail ++ rest')) := stopsAt_cons.mpr rfl
    obtain ⟨-, -, rfl⟩ := sequenceNumReads_unique single isWord isFront (stops.mono (isSetItemEnd_outside rfl rfl rfl)) colon same
    exact absurd (stopsAt_cons.mp stops) (by decide)
  rintro ⟨first, last⟩ ⟨first', last'⟩ word word' rest rest' isWord isWord' stops stops' same
  rcases isWord with ⟨single, equal⟩ | interval
  · rcases isWord' with ⟨single', equal'⟩ | interval'
    · obtain ⟨rfl, rfl, rfl⟩ := singles _ single single' stops stops' same
      exact ⟨by rw [SetItem.mk.injEq]; exact ⟨rfl, equal.trans equal'.symm⟩, rfl, rfl⟩
    · exact (mixed single interval' stops same).elim
  · rcases isWord' with ⟨single', equal'⟩ | interval'
    · exact (mixed single' interval stops' same.symm).elim
    · obtain ⟨pairs, rfl, rfl⟩ := @intervals (first, last) (first', last') word word' rest rest' interval interval' stops stops' same
      exact ⟨by rw [SetItem.mk.injEq]; exact ⟨congrArg Prod.fst pairs, congrArg Prod.snd pairs⟩, rfl, rfl⟩

theorem setReads_unique : UniquelyRead setReads isArgumentEnd := by
  intro set
  refine listReads_unique (fun _ => mem_comma) (rfl : isSetItemEnd (ascii ',') = true) ?_ ?_
  · intro byte isEnd
    constructor
    · rw [isSetItemEnd, isEnd, Bool.or_true]
    · rintro rfl
      exact absurd isEnd (by decide)
  · exact fun item _ => setItemReads_unique item

theorem flagKeywordReads_unique : UniquelyRead flagKeywordReads fun byte => !Grammar.isAtomChar byte := by
  apply uniquelyRead_class
  · exact fun value text reads => (mem_octets_one.mp reads.1).2
  · intro first second text reads reads'
    exact reads.2.symm.trans reads'.2

theorem literalReads_head {string text : List UInt8} (reads : text ∈ literalReads string) : ∃ more, text = ascii '{' :: more := by
  obtain ⟨digits, -, rfl, -⟩ := reads
  exact ⟨_, rfl⟩

theorem literalReads_inj {string string' text text' rest rest' : List UInt8} (reads : text ∈ literalReads string)
    (reads' : text' ∈ literalReads string') (same : text ++ rest = text' ++ rest') :
    string = string' ∧ text = text' ∧ rest = rest' := by
  obtain ⟨digits, isNumber, rfl, length, -⟩ := reads
  obtain ⟨digits', isNumber', rfl, length', -⟩ := reads'
  simp only [List.cons_append, List.append_assoc] at same
  obtain ⟨rfl, behind⟩ := append_eq_of_class (number_over digits isNumber) (number_over digits' isNumber')
    (stopsAt_cons.mpr rfl) (stopsAt_cons.mpr rfl) (List.cons.inj same).2
  simp only [List.nil_append, List.cons.injEq, true_and] at behind
  obtain ⟨rfl, rfl⟩ := List.append_inj behind (length.trans length'.symm)
  exact ⟨rfl, rfl, rfl⟩

theorem astringReads_unique : UniquelyRead astringReads fun byte => !Grammar.isAstringChar byte := by
  have wordHead : ∀ {word rest rest' : List UInt8} {byte : UInt8}, word ∈ octet Grammar.isAstringChar * (octet Grammar.isAstringChar)∗ →
      word ++ rest = byte :: rest' → Grammar.isAstringChar byte = true := by
    intro word rest rest' byte isWord same
    obtain ⟨nonempty, chars⟩ := mem_octets_one.mp isWord
    obtain ⟨first, more, rfl⟩ := List.exists_cons_of_ne_nil nonempty
    rw [← (List.cons.inj same).1]
    exact chars first (by simp)
  intro string string' text text' rest rest' reads reads' stops stops' same
  rcases reads with ⟨isWord, rfl⟩ | ⟨isQuoted, rfl⟩ | literal
  · rcases reads' with ⟨isWord', rfl⟩ | ⟨isQuoted', rfl⟩ | literal'
    · obtain ⟨rfl, rfl⟩ := append_eq_of_class (mem_octets_one.mp isWord).2 (mem_octets_one.mp isWord').2 stops stops' same
      exact ⟨rfl, rfl, rfl⟩
    · exact absurd (wordHead isWord same) (by decide)
    · obtain ⟨more, rfl⟩ := literalReads_head literal'
      exact absurd (wordHead isWord same) (by decide)
  · rcases reads' with ⟨isWord', rfl⟩ | ⟨isQuoted', rfl⟩ | literal'
    · exact absurd (wordHead isWord' same.symm) (by decide)
    · obtain ⟨rfl, rfl⟩ := quotedText_append_inj same
      exact ⟨rfl, rfl, rfl⟩
    · obtain ⟨more, rfl⟩ := literalReads_head literal'
      exact absurd (List.cons.inj same).1 (by decide)
  · rcases reads' with ⟨isWord', rfl⟩ | ⟨isQuoted', rfl⟩ | literal'
    · obtain ⟨more, rfl⟩ := literalReads_head literal
      exact absurd (wordHead isWord' same.symm) (by decide)
    · obtain ⟨more, rfl⟩ := literalReads_head literal
      exact absurd (List.cons.inj same).1 (by decide)
    · exact literalReads_inj literal literal' same

theorem mem_dash {text : List UInt8} : text ∈ terminal "-" ↔ text = [ascii '-'] := mem_symbol rfl rfl

theorem mem_dquote {text : List UInt8} : text ∈ terminal "\"" ↔ text = [ascii '"'] := mem_symbol rfl rfl

theorem dateDayReads_unique : UniquelyRead dateDayReads fun byte => !isDigit byte := by
  apply uniquelyRead_class
  · exact fun day text reads => number_over text reads.1
  · exact fun first second text reads reads' => reads.2.2.symm.trans reads'.2.2

theorem dateYearReads_unique : UniquelyRead dateYearReads fun byte => !isDigit byte := by
  apply uniquelyRead_class
  · exact fun year text reads => number_over text reads.1
  · exact fun first second text reads reads' => reads.2.2.symm.trans reads'.2.2

theorem isLetter_tolower (byte : UInt8) : isLetter (tolower byte) = isLetter byte := by
  revert byte
  exact forall_octet (by decide +kernel)

theorem terminal_over_letters {text : String} (letters : ((asciiText text).all fun byte => isLetter (tolower byte)) = true) :
    Over isLetter (terminal text) :=
  over_terminal (fun byte lower => isLetter_tolower byte ▸ lower) letters

theorem monthTab_letters : ∀ entry ∈ monthTab, ((asciiText entry.2).all fun byte => isLetter (tolower byte)) = true := by
  decide

theorem monthTab_inj : ∀ entry ∈ monthTab, ∀ entry' ∈ monthTab,
    (asciiText entry.2).map tolower = (asciiText entry'.2).map tolower → entry.1 = entry'.1 := by
  decide

theorem dateMonthReads_unique : UniquelyRead dateMonthReads fun byte => !isLetter byte := by
  apply uniquelyRead_class
  · rintro month text ⟨entry, inTab, -, isName⟩
    exact terminal_over_letters (monthTab_letters entry inTab) text isName
  · rintro first second text ⟨entry, inTab, rfl, isName⟩ ⟨entry', inTab', rfl, isName'⟩
    have names : (asciiText entry.2).map tolower = (asciiText entry'.2).map tolower := Eq.trans (Eq.symm isName) isName'
    exact monthTab_inj entry inTab entry' inTab' names

theorem dateTextReads_unique : UniquelyRead dateTextReads fun byte => !isDigit byte := by
  have monthYear := dateMonthReads_unique.mul dateYearReads_unique (fun _ => mem_dash) rfl
  have dayMonthYear := dateDayReads_unique.mul monthYear (fun _ => mem_dash) rfl
  rintro ⟨day, month, year⟩ ⟨day', month', year'⟩ text text' rest rest' reads reads' stops stops' same
  obtain ⟨triples, rfl, rfl⟩ :=
    @dayMonthYear (day, month, year) (day', month', year') text text' rest rest' reads reads' stops stops' same
  cases triples
  exact ⟨rfl, rfl, rfl⟩

theorem dateTextReads_head {date : Date} {text : List UInt8} (reads : text ∈ dateTextReads date) :
    ∃ byte more, isDigit byte = true ∧ text = byte :: more := by
  obtain ⟨front, ⟨isNumber, -⟩, back, -, rfl⟩ := Language.mem_mul.mp reads
  obtain ⟨nonempty, digits⟩ := mem_octets_one.mp isNumber
  obtain ⟨byte, more, rfl⟩ := List.exists_cons_of_ne_nil nonempty
  exact ⟨byte, more ++ back, digits byte (by simp), rfl⟩

theorem dateReads_unique : UniquelyRead dateReads isArgumentEnd := by
  have mixed : ∀ {date date' : Date} {text text' rest rest' : List UInt8}, text ∈ dateTextReads date →
      text' ∈ terminal "\"" * (dateTextReads date' * terminal "\"") → text ++ rest = text' ++ rest' → False := by
    intro date date' text text' rest rest' reads reads' same
    obtain ⟨byte, more, digit, rfl⟩ := dateTextReads_head reads
    obtain ⟨front, isFront, back, -, rfl⟩ := Language.mem_mul.mp reads'
    rw [mem_dquote.mp isFront] at same
    rw [(List.cons.inj same).1] at digit
    exact absurd digit (by decide)
  intro date date' text text' rest rest' reads reads' stops stops' same
  rcases reads with bare | inQuotes
  · rcases reads' with bare' | inQuotes'
    · exact dateTextReads_unique date bare bare' (stops.mono (isArgumentEnd_outside rfl rfl))
        (stops'.mono (isArgumentEnd_outside rfl rfl)) same
    · exact (mixed bare inQuotes' same).elim
  · rcases reads' with bare' | inQuotes'
    · exact (mixed bare' inQuotes same.symm).elim
    · obtain ⟨front, isFront, back, isBack, rfl⟩ := Language.mem_mul.mp inQuotes
      obtain ⟨front', isFront', back', isBack', rfl⟩ := Language.mem_mul.mp inQuotes'
      obtain ⟨inner, isInner, last, isLast, rfl⟩ := Language.mem_mul.mp isBack
      obtain ⟨inner', isInner', last', isLast', rfl⟩ := Language.mem_mul.mp isBack'
      obtain rfl := mem_dquote.mp isFront
      obtain rfl := mem_dquote.mp isFront'
      obtain rfl := mem_dquote.mp isLast
      obtain rfl := mem_dquote.mp isLast'
      simp only [List.cons_append, List.append_assoc, List.cons.injEq, true_and] at same
      obtain ⟨rfl, rfl, behind⟩ := dateTextReads_unique date isInner isInner' (stopsAt_cons.mpr rfl) (stopsAt_cons.mpr rfl) same
      obtain ⟨-, rfl⟩ := List.cons.inj behind
      exact ⟨rfl, rfl, rfl⟩

end Etpan.Imap
