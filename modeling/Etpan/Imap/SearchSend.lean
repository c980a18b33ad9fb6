import Etpan.Imap.SearchUnique

namespace Etpan.Imap

open Computability Etpan.Data Grammar

/-! What `mailimap_search_key_send` writes, as the grammar reads it. -/

/-! ### The keys that the senders are given -/

def Printable (string : List UInt8) : Prop := ∀ byte ∈ string, 0x20 ≤ byte ∧ byte ≤ 0x7e

instance (string : List UInt8) : Decidable (Printable string) :=
  List.decidableBAll (fun byte => 0x20 ≤ byte ∧ byte ≤ 0x7e) string

/-- A date as `mailimap_types.h` describes it. -/
structure Date.Valid (date : Date) : Prop where
  day : 1 ≤ date.dtDay ∧ date.dtDay ≤ 31
  month : 1 ≤ date.dtMonth ∧ date.dtMonth ≤ 12
  year : date.dtYear ≤ 9999

/-- Printable strings, keywords that are atoms, dates in range, and no empty set or list. -/
def SearchKey.Allowed : SearchKey → Prop
  | .string _ astring | .xgmraw astring => Printable astring
  | .date _ skDate => skDate.Valid
  | .keyword skKeyword | .unkeyword skKeyword => skKeyword ∈ Grammar.atom
  | .header skHeaderName skHeaderValue => Printable skHeaderName ∧ Printable skHeaderValue
  | .uid skSet | .set skSet => skSet ≠ []
  | .multiple skMultiple => skMultiple ≠ []
  | _ => True

def SearchKey.hasProduction : SearchKey → Bool
  | .xgmthrid _ | .xgmmsgid _ | .xgmraw _ | .modseq .. => false
  | _ => true

def SearchKey.plainUnkeyword : SearchKey → Bool
  | .unkeyword skUnkeyword => isAtom skUnkeyword
  | _ => true

theorem mem_nodes_self (key : SearchKey) : key ∈ key.nodes := by
  cases key <;> simp [SearchKey.nodes]

theorem nodes_of_mem {keys : List SearchKey} {key node : SearchKey} (member : key ∈ keys) (isNode : node ∈ key.nodes) :
    node ∈ SearchKey.nodesOf keys := by
  induction keys with
  | nil => cases member
  | cons first keys ih =>
      rw [SearchKey.nodesOf, List.mem_append]
      rcases List.mem_cons.mp member with rfl | later
      · exact .inl isNode
      · exact .inr (ih later)

theorem exists_of_mem_nodesOf {keys : List SearchKey} {node : SearchKey} (isNode : node ∈ SearchKey.nodesOf keys) :
    ∃ key ∈ keys, node ∈ key.nodes := by
  induction keys with
  | nil => simp [SearchKey.nodesOf] at isNode
  | cons first keys ih =>
      rw [SearchKey.nodesOf, List.mem_append] at isNode
      rcases isNode with here | later
      · exact ⟨first, by simp, here⟩
      · obtain ⟨key, member, inKey⟩ := ih later
        exact ⟨key, by simp [member], inKey⟩

theorem printable_spec {byte : UInt8} (printable : 0x20 ≤ byte ∧ byte ≤ 0x7e) :
    Grammar.isTextChar byte = true ∧ byte < 128 ∧ byte ≠ 0 := by
  have checked : ∀ byte : UInt8, 0x20 ≤ byte ∧ byte ≤ 0x7e → Grammar.isTextChar byte = true ∧ byte < 128 ∧ byte ≠ 0 :=
    forall_octet (by decide +kernel)
  exact checked byte printable

theorem Printable.nulFree {string : List UInt8} (printable : Printable string) : NulFree string :=
  fun byte member => (printable_spec (printable byte member)).2.2

theorem mailimapAstringLiteralplusSend_ascii {string : List UInt8} {literalplus : Bool}
    (ascii : ∀ byte ∈ string, byte < 128 ∧ byte ≠ 0) :
    mailimapAstringLiteralplusSend string literalplus = some (mailimapAstringSend string) := by
  have isAscii : isAscii (cString string) = true := by
    rw [cString_eq_self fun byte member => (ascii byte member).2, isAscii, List.all_eq_true]
    exact fun byte member => decide_eq_true (ascii byte member).1
  rw [mailimapAstringLiteralplusSend, isAscii, Bool.true_or, if_pos rfl]

theorem mailimapAstringSend_reads {string : List UInt8} (printable : Printable string) :
    (mailimapAstringSend string).text ∈ astringReads string := by
  rw [mailimapAstringSend_text printable.nulFree]
  by_cases atom : isAtom string = true
  · rw [if_pos atom]
    obtain ⟨nonempty, sent⟩ := isAtom_iff.mp atom
    refine .inl ⟨mem_octets_one.mpr ⟨nonempty, fun byte member => ?_⟩, rfl⟩
    rw [Grammar.isAstringChar, (isSentInAtom_spec (sent byte member)).atomChar, Bool.true_or]
  · rw [if_neg atom]
    exact .inr (.inl ⟨quotedText_mem_quoted fun byte member => (printable_spec (printable byte member)).1, rfl⟩)

theorem atom_printable {keyword : List UInt8} (atom : keyword ∈ Grammar.atom) : Printable keyword := by
  have checked : ∀ byte : UInt8, Grammar.isAtomChar byte = true → 0x20 ≤ byte ∧ byte ≤ 0x7e := forall_octet (by decide +kernel)
  exact fun byte member => checked byte ((mem_octets_one.mp atom).2 byte member)

theorem mailimapFlagKeywordSend_reads {keyword : List UInt8} (atom : keyword ∈ Grammar.atom) :
    (mailimapFlagKeywordSend keyword).text ∈ flagKeywordReads keyword := by
  have printable := atom_printable atom
  have text : (mailimapFlagKeywordSend keyword).text = keyword := by
    apply mailimapTokenSend_text printable.nulFree
    intro byte member
    have plain := isTextChar_iff.mp (printable_spec (printable byte member)).1
    exact ⟨plain.2.1, plain.2.2.1⟩
  rw [text]
  exact ⟨atom, rfl⟩

theorem mailimapNumberSend_reads (number : UInt32) : (mailimapNumberSend number).text ∈ numberReads number := by
  rw [mailimapNumberSend_text]
  exact ⟨mem_octets_one.mpr ⟨decimal_ne_nil _, decimal_digits⟩, decimalValue_decimal _⟩

theorem sequenceNumText_reads (number : UInt32) : sequenceNumText number ∈ sequenceNumReads number := by
  rw [sequenceNumText]
  by_cases zero : number = 0
  · rw [if_pos zero]
    exact .inr ⟨mem_terminal "*", zero⟩
  · rw [if_neg zero]
    exact .inl ⟨decimal_mem_nzNumber fun none => zero (UInt32.toNat_inj.mp none), decimalValue_decimal _⟩

theorem setItemText_reads (item : SetItem) : setItemText item ∈ setItemReads item := by
  rw [setItemText]
  split_ifs with equal
  · exact .inl ⟨sequenceNumText_reads _, equal.symm⟩
  · exact .inr (Language.append_mem_mul (sequenceNumText_reads _)
      (Language.append_mem_mul (mem_terminal ":") (sequenceNumText_reads _)))

theorem setText_reads {set : NumberSet} (nonempty : set ≠ []) : setText set ∈ setReads set := by
  induction set with
  | nil => exact absurd rfl nonempty
  | cons item set ih =>
      cases set with
      | nil =>
          have single : setText [item] = setItemText item := List.append_nil _
          rw [single]
          exact setItemText_reads item
      | cons next set =>
          have spelled : setText (item :: next :: set) = setItemText item ++ ([ascii ','] ++ setText (next :: set)) := rfl
          rw [spelled]
          exact Language.append_mem_mul (setItemText_reads item)
            (Language.append_mem_mul (mem_comma.mpr rfl) (ih (by simp)))

theorem decimalValue_concat (digits : List UInt8) (digit : UInt8) :
    decimalValue (digits ++ [digit]) = decimalValue digits * 10 + (digit.toNat - 48) := by
  rw [decimalValue, decimalValue, List.foldl_append]
  rfl

theorem mailimapFixedDigitSend_text (num count : Nat) :
    (mailimapFixedDigitSend num count).text.length = count ∧
      (∀ byte ∈ (mailimapFixedDigitSend num count).text, isDigit byte = true) ∧
      decimalValue (mailimapFixedDigitSend num count).text = num % 10 ^ count := by
  induction count generalizing num with
  | zero =>
      refine ⟨rfl, ?_, ?_⟩
      · intro byte member
        cases member
      · rw [pow_zero, Nat.mod_one]
        rfl
  | succ count ih =>
      obtain ⟨length, digits, value⟩ := ih (num / 10)
      obtain ⟨digit, digitValue⟩ := decimalDigit_spec (num % 10) (Nat.mod_lt _ (by decide))
      have text : (mailimapFixedDigitSend num (count + 1)).text =
          (mailimapFixedDigitSend (num / 10) count).text ++ [decimalDigit (num % 10)] := by
        rw [mailimapFixedDigitSend, Sending.text_append]
        rfl
      rw [text]
      refine ⟨by rw [List.length_append, length]; rfl, ?_, ?_⟩
      · intro byte member
        rcases List.mem_append.mp member with early | last
        · exact digits byte early
        · rw [List.mem_singleton.mp last]
          exact digit
      · rw [decimalValue_concat, value, digitValue, pow_succ, Nat.mul_comm (10 ^ count) 10, Nat.mod_mul]
        omega

theorem mailimapMonthGetTokenStr_valid {month : Nat} (valid : 1 ≤ month ∧ month ≤ 12) :
    ∃ name, mailimapMonthGetTokenStr month = some name ∧ (month, name) ∈ monthTab ∧
      (asciiText name).all Grammar.isTextChar = true := by
  have checked : ∀ month < 13, 1 ≤ month → ∃ entry ∈ monthTab, mailimapMonthGetTokenStr month = some entry.2 ∧
      entry.1 = month ∧ (asciiText entry.2).all Grammar.isTextChar = true := by
    decide
  obtain ⟨⟨number, name⟩, inTab, found, rfl, plain⟩ := checked month (by omega) valid.1
  exact ⟨name, found, inTab, plain⟩

theorem mailimapDateSend_reads {date : Date} (valid : date.Valid) :
    ∃ sending, mailimapDateSend date = some sending ∧ sending.text ∈ dateReads date := by
  obtain ⟨name, found, inTab, plain⟩ := mailimapMonthGetTokenStr_valid valid.month
  have sent : mailimapDateMonthSend date.dtMonth = some (mailimapTokenSend (asciiText name)) := by
    rw [mailimapDateMonthSend, found, Option.map_some]
  refine ⟨_, by rw [mailimapDateSend, sent]; rfl, .inl ?_⟩
  have day : (mailimapDateDaySend date.dtDay).text ∈ dateDayReads date.dtDay := by
    have number : (UInt32.ofNat date.dtDay).toNat = date.dtDay :=
      UInt32.toNat_ofNat_of_lt' (Nat.lt_of_le_of_lt valid.day.2 (by decide))
    rw [mailimapDateDaySend, mailimapNumberSend_text, number]
    refine ⟨mem_octets_one.mpr ⟨decimal_ne_nil _, decimal_digits⟩, ?_, decimalValue_decimal _⟩
    have checked : ∀ day < 32, digitCount day ≤ 2 := by decide +kernel
    rw [decimal_length]
    exact checked date.dtDay (Nat.lt_of_le_of_lt valid.day.2 (by decide))
  have month : (mailimapTokenSend (asciiText name)).text ∈ dateMonthReads date.dtMonth := by
    rw [mailimapTokenSend_plain name plain]
    exact ⟨_, inTab, rfl, mem_terminal name⟩
  have year : (mailimapDateYearSend date.dtYear).text ∈ dateYearReads date.dtYear := by
    obtain ⟨length, digits, value⟩ := mailimapFixedDigitSend_text date.dtYear 4
    rw [Nat.mod_eq_of_lt (Nat.lt_of_le_of_lt valid.year (by decide))] at value
    refine ⟨mem_octets_one.mpr ⟨fun none => ?_, digits⟩, length, value⟩
    rw [mailimapDateYearSend] at none
    rw [none] at length
    cases length
  simp only [Sending.text_append, mailimapCharSend_text, List.append_assoc]
  exact Language.append_mem_mul day (Language.append_mem_mul (mem_dash.mpr rfl)
    (Language.append_mem_mul month (Language.append_mem_mul (mem_dash.mpr rfl) year)))

end Etpan.Imap
