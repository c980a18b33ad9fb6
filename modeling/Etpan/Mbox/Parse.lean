import Etpan.Mbox.Scan

namespace Etpan.Mbox

open Etpan.Data

/-! Cutting a mailbox file into messages, `mailmbox_single_parse`. -/

/-- The line that separates messages: its length when it is recognised, and where the
parser goes on, which is the end of the file when the line has no end. -/
def fromLine (rest : List UInt8) : Nat × Nat :=
  if 5 < rest.length ∧ rest.take 5 = fromPrefix then
    match (rest.drop 5).findIdx? (· == LF) with
    | some i => (5 + i + 1, 5 + i + 1)
    | none => (0, rest.length)
  else (0, 0)

/-- What `mailmbox_single_parse` finds, in offsets from where it starts: the recognised
separator line, the header fields, the body, the ends, and the UID header. -/
structure SingleParse where
  startLen : Nat
  headersLen : Nat
  body : Nat
  fin : Nat
  next : Nat
  uid : UInt32
deriving Repr, DecidableEq

def singleParse (rest : List UInt8) : SingleParse :=
  let line := fromLine rest
  let fields := mailmboxFieldsParse 0 (rest.drop line.2)
  let body := line.2 + fields.1 + mailimfCrlfParse (rest.drop (line.2 + fields.1))
  let ends := scanMail body body ⟨.firstLF, rest.length, rest.length⟩ (rest.drop body)
  ⟨line.1, fields.1, body, ends.1, ends.2, fields.2⟩

structure MsgPlace where
  msgStart : Nat
  msgStartLen : Nat
  msgHeaders : Nat
  msgHeadersLen : Nat
  msgBody : Nat
  msgBodyLen : Nat
  msgSize : Nat
  msgPadding : Nat
deriving Repr, DecidableEq

def SingleParse.place (found : SingleParse) (cur : Nat) : MsgPlace where
  msgStart := cur
  msgStartLen := found.startLen
  msgHeaders := cur + found.startLen
  msgHeadersLen := found.headersLen
  msgBody := cur + found.body
  msgBodyLen := found.fin - found.body
  msgSize := found.fin
  msgPadding := found.next - found.fin

theorem fromLine_bounds (rest : List UInt8) :
    (fromLine rest).1 ≤ (fromLine rest).2 ∧ (fromLine rest).2 ≤ rest.length := by
  rw [fromLine]
  split_ifs with recognised
  · split
    · rename_i i found
      have bound := (List.findIdx?_eq_some_iff_findIdx_eq.mp found).1
      rw [List.length_drop] at bound
      exact ⟨le_rfl, by omega⟩
    · exact ⟨Nat.zero_le _, le_rfl⟩
  · exact ⟨le_rfl, Nat.zero_le _⟩

theorem mailmboxFieldsParse_le (uid : UInt32) (rest : List UInt8) :
    (mailmboxFieldsParse uid rest).1 ≤ rest.length := by
  fun_induction mailmboxFieldsParse uid rest with
  | case1 => exact Nat.zero_le _
  | case2 uid rest length parsed uid' others ih =>
      have bounds := mailimfIgnoreFieldParse_bounds parsed
      rw [List.length_drop] at ih
      change length + (mailmboxFieldsParse uid' (rest.drop length)).1 ≤ rest.length
      omega

theorem mailimfCrlfParse_le (rest : List UInt8) : mailimfCrlfParse rest ≤ rest.length := by
  cases rest with
  | nil => exact le_rfl
  | cons byte rest =>
      rw [mailimfCrlfParse]
      split_ifs with cr followed
      · cases rest with
        | nil => contradiction
        | cons second rest => simp
      all_goals simp

/-- What a message is: everything before its body, the body, and the padding. -/
structure SingleParse.Cuts (found : SingleParse) (rest : List UInt8) : Prop where
  startLen_le : found.startLen ≤ found.body
  headersLen_le : found.startLen + found.headersLen ≤ found.body
  split : ∃ header content padding more, rest = header ++ content ++ padding ++ more ∧
    found.body = header.length ∧ found.fin = header.length + content.length ∧
    found.next = header.length + content.length + padding.length ∧
    (more = [] ∧ (Breaks padding ↔ cutShort .firstLF (rest.drop found.body) = false) ∨
      fromPrefix <+: more ∧ padding ≠ [] ∧ Breaks padding ∧ cutShort .firstLF (rest.drop found.body) = false)

theorem singleParse_cuts (rest : List UInt8) : (singleParse rest).Cuts rest := by
  have line_bounds := fromLine_bounds rest
  have fields_le := mailmboxFieldsParse_le 0 (rest.drop (fromLine rest).2)
  have crlf_le := mailimfCrlfParse_le
    (rest.drop ((fromLine rest).2 + (mailmboxFieldsParse 0 (rest.drop (fromLine rest).2)).1))
  rw [List.length_drop] at fields_le crlf_le
  have body_eq : (singleParse rest).body = (fromLine rest).2 +
      (mailmboxFieldsParse 0 (rest.drop (fromLine rest).2)).1 + mailimfCrlfParse
        (rest.drop ((fromLine rest).2 + (mailmboxFieldsParse 0 (rest.drop (fromLine rest).2)).1)) := rfl
  have body_le : (singleParse rest).body ≤ rest.length := by omega
  obtain ⟨content, padding, more, text_eq, ends_eq, kind⟩ :=
    (scanMail_endsAt (singleParse rest).body rest.length rest.length (rest.drop (singleParse rest).body) (by
      intro nothing
      have lengths := congrArg List.length nothing
      rw [List.length_drop, List.length_nil] at lengths
      omega)).cut
  have ends : ((singleParse rest).fin, (singleParse rest).next) =
      ((singleParse rest).body + content.length, (singleParse rest).body + content.length + padding.length) := ends_eq
  obtain ⟨fin_eq, next_eq⟩ := Prod.ext_iff.mp ends
  exact {
    startLen_le := by
      change (fromLine rest).1 ≤ _
      omega
    headersLen_le := by
      change (fromLine rest).1 + (mailmboxFieldsParse 0 (rest.drop (fromLine rest).2)).1 ≤ _
      omega
    split := by
      refine ⟨rest.take (singleParse rest).body, content, padding, more, ?_, ?_, ?_, ?_, kind⟩
      · rw [List.append_assoc, List.append_assoc, ← List.append_assoc content, ← text_eq, List.take_append_drop]
      · rw [List.length_take, min_eq_left body_le]
      · rw [List.length_take, min_eq_left body_le]
        exact fin_eq
      · rw [List.length_take, min_eq_left body_le]
        exact next_eq }

theorem SingleParse.Cuts.progress {found : SingleParse} {rest : List UInt8} (cuts : found.Cuts rest)
    (nonempty : rest ≠ []) : 0 < found.next ∧ found.next ≤ rest.length := by
  obtain ⟨header, content, padding, more, rest_eq, -, -, next_eq, kind⟩ := cuts.split
  have lengths := congrArg List.length rest_eq
  simp only [List.length_append] at lengths
  have positive := List.length_pos_iff.mpr nonempty
  rcases kind with ⟨rfl, -⟩ | ⟨-, padded, -⟩
  · simp only [List.length_nil] at lengths
    omega
  · have padding_pos := List.length_pos_iff.mpr padded
    omega

/-- The messages from an offset to the end of the file, each with the UID of its headers,
0 if there is none. -/
def messagesFrom (cur : Nat) (rest : List UInt8) : List (MsgPlace × UInt32) :=
  if _nothing : rest = [] then []
  else
    let found := singleParse rest
    (found.place cur, found.uid) :: messagesFrom (cur + found.next) (rest.drop found.next)
termination_by rest.length
decreasing_by
  have progress := (singleParse_cuts rest).progress _nothing
  rw [List.length_drop]
  change rest.length - (singleParse rest).next < rest.length
  omega

theorem messagesFrom_cons (cur : Nat) {rest : List UInt8} (nonempty : rest ≠ []) :
    messagesFrom cur rest = ((singleParse rest).place cur, (singleParse rest).uid) ::
      messagesFrom (cur + (singleParse rest).next) (rest.drop (singleParse rest).next) := by
  rw [messagesFrom, dif_neg nonempty]

end Etpan.Mbox
