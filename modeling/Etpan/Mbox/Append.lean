import Etpan.Mbox.Operations
import Etpan.Mbox.Additional

namespace Etpan.Mbox

open Etpan.Data

/-! The `>` that is put before the lines that look like a separator. -/

/-- A line ends with a line feed; `atStart` says that one starts here. -/
def quoteLines : Bool → List UInt8 → List UInt8
  | _, [] => []
  | atStart, byte :: rest =>
      (if atStart ∧ fromPrefix <+: byte :: rest then [ascii '>'] else []) ++ byte :: quoteLines (byte = LF) rest

def Quoted (atStart : Bool) (text : List UInt8) : Prop := quoteLines atStart text = text

@[simp] theorem quoteLines_nil (atStart : Bool) : quoteLines atStart [] = [] := rfl

theorem quoteLines_false (byte : UInt8) (rest : List UInt8) :
    quoteLines false (byte :: rest) = byte :: quoteLines (byte = LF) rest := by
  simp [quoteLines]

theorem quoteLines_unlike {byte : UInt8} {rest : List UInt8} (atStart : Bool) (unlike : byte ≠ ascii 'F') :
    quoteLines atStart (byte :: rest) = byte :: quoteLines (byte = LF) rest := by
  rw [quoteLines, if_neg]
  · rfl
  · rintro ⟨-, more, same⟩
    exact unlike (List.head_eq_of_cons_eq same).symm

theorem quoteLines_line (text : List UInt8) :
    quoteLines false text = text.take (getLine text) ++ quoteLines true (text.drop (getLine text)) := by
  induction text with
  | nil => rfl
  | cons byte rest ih =>
      rw [quoteLines_false, getLine]
      by_cases cr : byte = CR
      · rw [if_pos cr]
        split_ifs with followed
        · obtain ⟨behind, rfl⟩ := List.head?_eq_some_iff.mp followed
          simp [cr, quoteLines_false]
        · simp [cr, ih]
      · rw [if_neg cr]
        split_ifs with lf
        · simp [lf]
        · simp [lf, ih]

theorem fromPrefix_getLine {text : List UInt8} (separator : fromPrefix <+: text) : 5 ≤ getLine text := by
  obtain ⟨rest, rfl⟩ := separator
  simp [fromPrefix, getLine, (by decide : ascii 'F' ≠ CR ∧ ascii 'F' ≠ LF), (by decide : ascii 'r' ≠ CR ∧ ascii 'r' ≠ LF),
    (by decide : ascii 'o' ≠ CR ∧ ascii 'o' ≠ LF), (by decide : ascii 'm' ≠ CR ∧ ascii 'm' ≠ LF), (by decide : SP ≠ CR ∧ SP ≠ LF)]

theorem writeFixedLine_eq (text : List UInt8) :
    writeFixedLine (text.take (getLine text)) =
      (if fromPrefix <+: text then [ascii '>'] else []) ++ text.take (getLine text) := by
  have same : (5 ≤ (text.take (getLine text)).length ∧ (text.take (getLine text)).take 5 = fromPrefix) ↔ fromPrefix <+: text := by
    constructor
    · rintro ⟨-, start⟩
      rw [← start]
      exact (List.take_prefix _ _).trans (List.take_prefix _ _)
    · intro separator
      have long := fromPrefix_getLine separator
      have width : 5 ≤ text.length := separator.length_le
      refine ⟨by rw [List.length_take]; omega, ?_⟩
      rw [List.take_take, min_eq_left long]
      exact (List.prefix_iff_eq_take.mp separator).symm
  rw [writeFixedLine]
  by_cases separator : fromPrefix <+: text
  · rw [if_pos (same.mpr separator), if_pos separator, List.singleton_append]
  · rw [if_neg fun start => separator (same.mp start), if_neg separator, List.nil_append]

theorem quoteLines_true (text : List UInt8) :
    quoteLines true text = (if fromPrefix <+: text then [ascii '>'] else []) ++ quoteLines false text := by
  cases text with
  | nil => simp [fromPrefix]
  | cons byte rest => simp [quoteLines]

theorem writeFixedLines_eq (text : List UInt8) : writeFixedLines text = quoteLines true text := by
  fun_induction writeFixedLines text with
  | case1 => rfl
  | case2 text nonempty ih =>
      rw [quoteLines_true, quoteLines_line, writeFixedLine_eq, ih, List.append_assoc]

theorem le_quoteLines_length (atStart : Bool) (text : List UInt8) : text.length ≤ (quoteLines atStart text).length := by
  induction text generalizing atStart with
  | nil => exact le_rfl
  | cons byte rest ih =>
      have behind := ih (byte = LF)
      simp only [quoteLines, List.length_append, List.length_cons]
      omega

theorem Quoted.cons_iff {atStart : Bool} {byte : UInt8} {rest : List UInt8} :
    Quoted atStart (byte :: rest) ↔ ¬(atStart ∧ fromPrefix <+: byte :: rest) ∧ Quoted (byte = LF) rest := by
  rw [Quoted, quoteLines]
  split_ifs with separator
  · refine iff_of_false (fun same => ?_) fun ⟨unlike, _⟩ => unlike separator
    have lengths := congrArg List.length same
    have behind := le_quoteLines_length (byte = LF) rest
    simp only [List.length_append, List.length_cons, List.length_nil] at lengths
    omega
  · simp [separator, Quoted]

theorem Quoted.of_prefix {atStart : Bool} {text longer : List UInt8} (quoted : Quoted atStart longer) (early : text <+: longer) :
    Quoted atStart text := by
  induction text generalizing atStart longer with
  | nil => rfl
  | cons byte rest ih =>
      obtain ⟨more, rfl⟩ := early
      rw [List.cons_append, Quoted.cons_iff] at quoted
      rw [Quoted.cons_iff]
      refine ⟨fun ⟨start, separator⟩ => quoted.1 ⟨start, ?_⟩, ih quoted.2 (List.prefix_append _ _)⟩
      exact separator.trans (List.prefix_append (byte :: rest) more)

theorem prefix_quoteLines {start text : List UInt8} (noBreak : LF ∉ start) (early : start <+: quoteLines false text) :
    start <+: text := by
  induction start generalizing text with
  | nil => exact List.nil_prefix
  | cons first start ih =>
      cases text with
      | nil => exact early
      | cons byte rest =>
          rw [quoteLines_false, List.cons_prefix_cons] at early
          obtain ⟨rfl, behind⟩ := early
          rw [List.mem_cons, not_or] at noBreak
          rw [decide_eq_false (Ne.symm noBreak.1)] at behind
          exact List.cons_prefix_cons.mpr ⟨rfl, ih noBreak.2 behind⟩

theorem quoteLines_quoted (atStart : Bool) (text : List UInt8) : Quoted atStart (quoteLines atStart text) := by
  induction text generalizing atStart with
  | nil => rfl
  | cons byte rest ih =>
      rw [quoteLines]
      split_ifs with separator
      · rw [List.singleton_append, Quoted.cons_iff, Quoted.cons_iff]
        refine ⟨?_, ?_, ih _⟩
        · rintro ⟨-, start⟩
          exact absurd (List.cons_prefix_cons.mp start).1 (by decide)
        · rw [decide_eq_false (by decide : ascii '>' ≠ LF)]
          exact fun ⟨start, _⟩ => by cases start
      · rw [List.nil_append, Quoted.cons_iff]
        refine ⟨?_, ih _⟩
        rintro ⟨start, early⟩
        have letter := (List.cons_prefix_cons.mp early).1
        rw [← letter, decide_eq_false (by decide : ascii 'F' ≠ LF)] at early
        apply separator ⟨start, ?_⟩
        rw [← letter]
        exact List.cons_prefix_cons.mpr ⟨rfl, prefix_quoteLines (by decide) (List.cons_prefix_cons.mp early).2⟩

theorem quoteLines_ends {text : List UInt8} (atStart : Bool) : ∃ quoted, quoteLines atStart (text ++ [LF]) = quoted ++ [LF] := by
  induction text generalizing atStart with
  | nil => exact ⟨[], quoteLines_unlike atStart (by decide)⟩
  | cons byte rest ih =>
      obtain ⟨quoted, behind⟩ := ih (byte = LF)
      rw [List.cons_append, quoteLines, behind]
      exact ⟨(if atStart ∧ fromPrefix <+: byte :: (rest ++ [LF]) then [ascii '>'] else []) ++ byte :: quoted, by
        rw [List.append_assoc, List.cons_append]⟩

/-! Messages that are appended, as the parser finds them in the file. -/

/-- Header fields, an empty line, and a body that is empty or ends with a newline. -/
structure Letter where
  fields : List (List UInt8)
  blank : List UInt8
  body : List UInt8
  fields_ne : fields ≠ []
  isBlank : blank = [LF] ∨ blank = [CR, LF]
  fieldsThen : FieldsThen fields blank
  ends : body = [] ∨ ∃ text, body = text ++ [LF]

namespace Letter

def text (letter : Letter) : List UInt8 := letter.fields.flatten ++ (letter.blank ++ letter.body)

def kept (letter : Letter) : List (List UInt8) := letter.fields.filter fun field => !isUidHeader field

def quoted (letter : Letter) : List UInt8 := quoteLines true letter.body

def fetched (letter : Letter) : List UInt8 := letter.kept.flatten ++ (letter.blank ++ letter.quoted)

/-- The body as it is written does not end a message, and ends behind the end of a line. -/
def Safe (letter : Letter) : Prop :=
  MailState.run .firstLF letter.quoted = some .firstLF ∨ MailState.run .firstLF letter.quoted = some .secondLF

instance (letter : Letter) : Decidable letter.Safe := inferInstanceAs (Decidable (_ ∨ _))

variable (letter : Letter)

theorem blank_ne : letter.blank ≠ [] := by
  rcases letter.isBlank with blank | blank <;> simp [blank]

theorem startsBlank_blank (more : List UInt8) : startsBlank (letter.blank ++ more) = false := by
  rcases letter.isBlank with blank | blank <;> rw [blank] <;> rfl

theorem fieldsEnd (more : List UInt8) : mailimfIgnoreFieldParse (letter.blank ++ more) = none := by
  rcases letter.isBlank with blank | blank <;> rw [blank] <;> simp [mailimfIgnoreFieldParse]

theorem mailimfCrlfParse_blank (more : List UInt8) : mailimfCrlfParse (letter.blank ++ more) = letter.blank.length := by
  rcases letter.isBlank with blank | blank <;> rw [blank] <;> simp [mailimfCrlfParse]

theorem quoteLines_blank (more : List UInt8) : quoteLines true (letter.blank ++ more) = letter.blank ++ quoteLines true more := by
  rcases letter.isBlank with blank | blank
  · rw [blank]
    exact quoteLines_unlike true (by decide)
  · rw [blank]
    simp only [List.cons_append, List.nil_append]
    rw [quoteLines_unlike true (by decide), quoteLines_unlike _ (by decide)]
    rfl

theorem fieldsThen_filter {fields : List (List UInt8)} {tail : List UInt8} (fieldsThen : FieldsThen fields tail)
    (notBlank : startsBlank tail = false) (kept : List UInt8 → Bool) :
    FieldsThen (fields.filter kept) tail ∧
      (startsBlank (fields.flatten ++ tail) = false → startsBlank ((fields.filter kept).flatten ++ tail) = false) := by
  induction fieldsThen with
  | nil => exact ⟨.nil, fun start => start⟩
  | @cons field fields tail isField ends behind ih =>
      obtain ⟨others, start⟩ := ih notBlank
      cases isKept : kept field with
      | true =>
          rw [List.filter_cons_of_pos isKept]
          refine ⟨.cons isField (start ends) others, ?_⟩
          rw [List.flatten_cons, List.flatten_cons, List.append_assoc, List.append_assoc,
            startsBlank_append isField.nonempty, startsBlank_append isField.nonempty]
          exact fun start => start
      | false =>
          rw [List.filter_cons_of_neg (by simp [isKept])]
          exact ⟨others, fun _ => start ends⟩

theorem kept_fieldsThen (more : List UInt8) : FieldsThen letter.kept (letter.blank ++ more) := by
  have notBlank : startsBlank letter.blank = false := by
    have start := letter.startsBlank_blank []
    rwa [List.append_nil] at start
  apply (fieldsThen_filter letter.fieldsThen notBlank _).1.congr
  rw [notBlank]
  exact letter.startsBlank_blank more

theorem writeFixedMessage_text (uid : Option UInt32) :
    writeFixedMessage letter.text uid =
      letter.kept.flatten ++ (uid.elim [] (fun uid => uidLine (signedDecimal uid)) ++ (letter.blank ++ letter.quoted)) := by
  have fieldsThen : FieldsThen letter.fields (letter.blank ++ letter.body) :=
    letter.fieldsThen.congr (startsBlank_append letter.blank_ne _)
  rw [writeFixedMessage, text, fixedFields_fields fieldsThen, fixedFields_none (letter.fieldsEnd _)]
  simp only
  rw [writeFixedLines_eq, quoteLines_blank, keptFields, List.append_nil, List.append_assoc]
  rfl

theorem writeFixedMessage_stored {uidFields : List (List UInt8)} {body : List UInt8}
    (fieldsThen : FieldsThen (letter.kept ++ uidFields) (letter.blank ++ body))
    (uids : ∀ field ∈ uidFields, isUidHeader field = true) :
    writeFixedMessage ((letter.kept ++ uidFields).flatten ++ (letter.blank ++ body)) none =
      letter.kept.flatten ++ (letter.blank ++ quoteLines true body) := by
  have kept_eq : keptFields (letter.kept ++ uidFields) = letter.kept.flatten := by
    rw [keptFields, List.filter_append, List.filter_eq_self.mpr, List.filter_eq_nil_iff.mpr, List.append_nil]
    · intro field member
      simp [uids field member]
    · intro field member
      exact (List.mem_filter.mp member).2
  rw [writeFixedMessage, fixedFields_fields fieldsThen, fixedFields_none (letter.fieldsEnd _)]
  simp only [Option.elim_none, List.append_nil]
  rw [writeFixedLines_eq, quoteLines_blank, kept_eq]

end Letter

end Etpan.Mbox
