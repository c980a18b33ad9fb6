import Etpan.Data.Bytes
import Etpan.Imf.StringWrite

namespace Etpan.Imf

open Etpan.Data

/-! The tokens of `low-level/imf/mailimf.c`.

The parsers take the octets from their position to the end of the message and return what
is left of them; `none` stands for MAILIMF_ERROR_PARSE. -/

def isWspChar (ch : UInt8) : Bool := ch = ascii ' ' || ch = ascii '\t'

def mailimfCharParse (token : UInt8) : List UInt8 → Option (List UInt8)
  | [] => none
  | ch :: rest => if ch = token then some rest else none

/-- The CR of a line end is optional. -/
def mailimfCrlfParse : List UInt8 → Option (List UInt8)
  | [] => none
  | ch :: rest => if ch = CR then mailimfCharParse LF rest else if ch = LF then some rest else none

/-- The octet belongs to folding white space: it is a blank, or a line end before a blank. -/
def startsFws : List UInt8 → Bool
  | [] => false
  | ch :: rest =>
      isWspChar ch || (ch = LF && rest.head?.any isWspChar) || (ch = CR && rest.head? = some LF && rest.tail.head?.any isWspChar)

/-- `mailimf_fws_parse` with its failure left out. -/
def skipFws : List UInt8 → List UInt8
  | [] => []
  | ch :: rest => if startsFws (ch :: rest) then skipFws rest else ch :: rest

def mailimfFwsParse (text : List UInt8) : Option (List UInt8) :=
  if startsFws text then some (skipFws text) else none

def isNoWsCtl (ch : UInt8) : Bool :=
  if ch = 9 ∨ ch = 10 ∨ ch = 13 then false else ch = 127 || (1 ≤ ch && ch ≤ 31)

def isCtext (ch : UInt8) : Bool :=
  isNoWsCtl ch || !(ch < 33 || ch = 40 || ch = 41 || ch = 92 || ch = 127)

/-- The loop of `mailimf_comment_parse`, in as many comments as `depth` says. -/
def commentLoop : Nat → List UInt8 → Option (List UInt8)
  | 0, text => some text
  | _ + 1, [] => none
  | depth + 1, ch :: rest =>
      if startsFws (ch :: rest) then commentLoop (depth + 1) rest
      else if isCtext ch then commentLoop (depth + 1) rest
      else if ch = ascii '(' then commentLoop (depth + 2) rest
      else if ch = ascii ')' then commentLoop depth rest
      else if ch = ascii '\\' then
        match rest with
        | [] => none
        | _ :: after => commentLoop (depth + 1) after
      else none

def mailimfCommentParse (text : List UInt8) : Option (List UInt8) := (mailimfCharParse (ascii '(') text).bind (commentLoop 1)

def mailimfCfwsFwsCommentParse (text : List UInt8) : Option (List UInt8) := mailimfCommentParse (skipFws text)

/-- Each comment has octets, so that there are not more turns than octets. -/
def cfwsLoop : Nat → List UInt8 → List UInt8
  | 0, text => text
  | turns + 1, text =>
      match mailimfCfwsFwsCommentParse text with
      | none => text
      | some rest => cfwsLoop turns rest

/-- White space behind the last comment is left. -/
def mailimfCfwsParse (text : List UInt8) : Option (List UInt8) :=
  match mailimfCfwsFwsCommentParse text with
  | none => mailimfFwsParse text
  | some rest => some (cfwsLoop rest.length rest)

def skipCfws (text : List UInt8) : List UInt8 := (mailimfCfwsParse text).getD text

def mailimfUnstrictCharParse (token : UInt8) (text : List UInt8) : Option (List UInt8) := mailimfCharParse token (skipCfws text)

def mailimfUnstrictCrlfParse (text : List UInt8) : Option (List UInt8) := mailimfCrlfParse (skipCfws text)

/-! ### What is left is the end of what was there -/

theorem mailimfCharParse_some {token : UInt8} {text rest : List UInt8} : mailimfCharParse token text = some rest ↔ text = token :: rest := by
  cases text with
  | nil => simp [mailimfCharParse]
  | cons ch after =>
      rw [mailimfCharParse]
      split
      · next same => simp [same]
      · next differs => simp [differs]

theorem mailimfCrlfParse_shorter {text rest : List UInt8} (parsed : mailimfCrlfParse text = some rest) :
    rest <:+ text ∧ rest.length < text.length := by
  cases text with
  | nil => cases parsed
  | cons ch after =>
      rw [mailimfCrlfParse] at parsed
      split at parsed
      · obtain rfl := mailimfCharParse_some.mp parsed
        exact ⟨⟨[ch, LF], rfl⟩, by simp only [List.length_cons]; omega⟩
      · split at parsed
        · cases parsed
          exact ⟨List.suffix_cons ch rest, Nat.lt_succ_self _⟩
        · cases parsed

theorem skipFws_suffix (text : List UInt8) : skipFws text <:+ text := by
  induction text with
  | nil => exact List.suffix_refl []
  | cons ch rest ih =>
      rw [skipFws]
      split
      · exact ih.trans (List.suffix_cons ch rest)
      · exact List.suffix_refl _

theorem mailimfFwsParse_shorter {text rest : List UInt8} (parsed : mailimfFwsParse text = some rest) :
    rest <:+ text ∧ rest.length < text.length := by
  rw [mailimfFwsParse] at parsed
  split at parsed
  · next starts =>
      cases parsed
      cases text with
      | nil => cases starts
      | cons ch rest =>
          rw [skipFws, if_pos starts]
          have suffix := skipFws_suffix rest
          exact ⟨suffix.trans (List.suffix_cons ch rest), Nat.lt_succ_of_le suffix.length_le⟩
  · cases parsed

theorem commentLoop_suffix {depth : Nat} {text rest : List UInt8} (parsed : commentLoop depth text = some rest) : rest <:+ text := by
  fun_induction commentLoop depth text with
  | case1 text =>
      obtain rfl := Option.some.inj parsed
      exact List.suffix_refl _
  | case2 => cases parsed
  | case3 depth ch after _ ih | case4 depth ch after _ _ ih => exact (ih parsed).trans (List.suffix_cons ch after)
  | case5 depth after _ _ ih | case6 depth after _ _ _ ih => exact (ih parsed).trans (List.suffix_cons _ after)
  | case7 => cases parsed
  | case8 depth quoted after _ _ _ _ ih => exact (ih parsed).trans ⟨[ascii '\\', quoted], rfl⟩
  | case9 => cases parsed

theorem mailimfCfwsFwsCommentParse_shorter {text rest : List UInt8} (parsed : mailimfCfwsFwsCommentParse text = some rest) :
    rest <:+ text ∧ rest.length < text.length := by
  obtain ⟨opened, isOpen, loop⟩ := Option.bind_eq_some_iff.mp parsed
  have spelled := mailimfCharParse_some.mp isOpen
  have suffix := commentLoop_suffix loop
  have whole := skipFws_suffix text
  rw [spelled] at whole
  have lengths := suffix.length_le
  have more := whole.length_le
  rw [List.length_cons] at more
  exact ⟨(suffix.trans (List.suffix_cons _ opened)).trans whole, by omega⟩

theorem cfwsLoop_suffix (turns : Nat) : ∀ text, cfwsLoop turns text <:+ text := by
  induction turns with
  | zero => exact List.suffix_refl
  | succ turns ih =>
      intro text
      rw [cfwsLoop]
      split
      · exact List.suffix_refl text
      · next rest parsed => exact (ih rest).trans (mailimfCfwsFwsCommentParse_shorter parsed).1

theorem mailimfCfwsParse_shorter {text rest : List UInt8} (parsed : mailimfCfwsParse text = some rest) :
    rest <:+ text ∧ rest.length < text.length := by
  rw [mailimfCfwsParse] at parsed
  split at parsed
  · exact mailimfFwsParse_shorter parsed
  · next first comment =>
      cases parsed
      have start := mailimfCfwsFwsCommentParse_shorter comment
      have loop := cfwsLoop_suffix first.length first
      exact ⟨loop.trans start.1, Nat.lt_of_le_of_lt loop.length_le start.2⟩

theorem skipCfws_suffix (text : List UInt8) : skipCfws text <:+ text := by
  rw [skipCfws]
  cases parsed : mailimfCfwsParse text with
  | none => exact List.suffix_refl text
  | some rest => exact (mailimfCfwsParse_shorter parsed).1

theorem mailimfUnstrictCharParse_shorter {token : UInt8} {text rest : List UInt8} (parsed : mailimfUnstrictCharParse token text = some rest) :
    rest <:+ text ∧ rest.length < text.length := by
  have spelled := mailimfCharParse_some.mp parsed
  have whole := skipCfws_suffix text
  rw [spelled] at whole
  have lengths := whole.length_le
  rw [List.length_cons] at lengths
  exact ⟨(List.suffix_cons _ rest).trans whole, by omega⟩

theorem mailimfUnstrictCrlfParse_shorter {text rest : List UInt8} (parsed : mailimfUnstrictCrlfParse text = some rest) :
    rest <:+ text ∧ rest.length < text.length := by
  have crlf := mailimfCrlfParse_shorter parsed
  have whole := skipCfws_suffix text
  exact ⟨crlf.1.trans whole, Nat.lt_of_lt_of_le crlf.2 whole.length_le⟩

/-! Header fields that are not read further, `low-level/imf/mailimf.c`. -/

inductive UnstructuredState where
  | start
  | cr
  | lf
  | wsp
deriving Repr, DecidableEq

/-- The loop of `mailimf_unstructured_parse`: how many octets stand before the line end that
ends the text.  In state `wsp`, behind the blank of a folded line, `terminal` is not moved. -/
def unstructuredScan : UnstructuredState → List UInt8 → Nat → Nat → Option Nat
  | .lf, [], _, terminal => some terminal
  | _, [], _, _ => none
  | .start, ch :: rest, cur, _ => unstructuredScan (if ch = CR then .cr else if ch = LF then .lf else .start) rest (cur + 1) cur
  | .cr, ch :: rest, cur, terminal => unstructuredScan (if ch = LF then .lf else .start) rest (cur + 1) terminal
  | .lf, ch :: rest, cur, terminal => if isWspChar ch then unstructuredScan .wsp rest (cur + 1) terminal else some terminal
  | .wsp, ch :: rest, cur, terminal =>
      unstructuredScan (if ch = CR then .cr else if ch = LF then .lf else .start) rest (cur + 1) terminal

/-- The text is copied into a C string. -/
def mailimfUnstructuredParse (text : List UInt8) : Option (List UInt8 × List UInt8) :=
  let text := text.dropWhile isWspChar
  (unstructuredScan .start text 0 0).map fun terminal => (cString (text.take terminal), text.drop terminal)

def isFtext (ch : UInt8) : Bool := !(ch < 33 || ch = 58)

def mailimfFieldNameParse (text : List UInt8) : Option (List UInt8 × List UInt8) :=
  if text.takeWhile isFtext = [] then none else some (text.takeWhile isFtext, text.dropWhile isFtext)

structure MailimfOptionalField where
  fldName : List UInt8
  fldValue : List UInt8
deriving Repr, DecidableEq

def mailimfOptionalFieldParse (text : List UInt8) : Option (MailimfOptionalField × List UInt8) := do
  let (fldName, text) ← mailimfFieldNameParse text
  let text ← mailimfUnstrictCharParse (ascii ':') text
  let (fldValue, text) ← mailimfUnstructuredParse text
  let text ← mailimfUnstrictCrlfParse text
  some ({ fldName, fldValue }, text)

/-- A field takes octets, so that there are not more turns than octets. -/
def optionalFieldsLoop : Nat → List UInt8 → List MailimfOptionalField × List UInt8
  | 0, text => ([], text)
  | turns + 1, text =>
      match mailimfOptionalFieldParse text with
      | none => ([], text)
      | some (field, rest) =>
          let others := optionalFieldsLoop turns rest
          (field :: others.1, others.2)

/-- The fields at the head of a text, and the text behind them; a text without fields is no
error. -/
def mailimfOptionalFieldsParse (text : List UInt8) : List MailimfOptionalField × List UInt8 :=
  optionalFieldsLoop (text.length + 1) text

theorem mailimfUnstructuredParse_suffix {text value rest : List UInt8} (parsed : mailimfUnstructuredParse text = some (value, rest)) :
    rest <:+ text := by
  obtain ⟨terminal, _, same⟩ := Option.map_eq_some_iff.mp parsed
  cases same
  exact (List.drop_suffix _ _).trans (List.dropWhile_suffix isWspChar)

theorem mailimfFieldNameParse_suffix {text name rest : List UInt8} (parsed : mailimfFieldNameParse text = some (name, rest)) : rest <:+ text := by
  rw [mailimfFieldNameParse] at parsed
  split at parsed
  · cases parsed
  · cases parsed
    exact List.dropWhile_suffix isFtext

theorem mailimfOptionalFieldParse_shorter {text rest : List UInt8} {field : MailimfOptionalField}
    (parsed : mailimfOptionalFieldParse text = some (field, rest)) : rest <:+ text ∧ rest.length < text.length := by
  simp only [mailimfOptionalFieldParse, Option.bind_eq_bind, Option.bind_eq_some_iff, Prod.exists] at parsed
  obtain ⟨name, afterName, nameParsed, afterColon, colon, value, afterValue, valueParsed, afterField, lineEnd, result⟩ := parsed
  cases result
  have nameSuffix := mailimfFieldNameParse_suffix nameParsed
  have colonSuffix := mailimfUnstrictCharParse_shorter colon
  have valueSuffix := mailimfUnstructuredParse_suffix valueParsed
  have lineSuffix := mailimfUnstrictCrlfParse_shorter lineEnd
  refine ⟨lineSuffix.1.trans (valueSuffix.trans (colonSuffix.1.trans nameSuffix)), ?_⟩
  calc rest.length < afterValue.length := lineSuffix.2
    _ ≤ afterColon.length := valueSuffix.length_le
    _ ≤ afterName.length := Nat.le_of_lt colonSuffix.2
    _ ≤ text.length := nameSuffix.length_le

theorem optionalFieldsLoop_suffix (turns : Nat) : ∀ text, (optionalFieldsLoop turns text).2 <:+ text := by
  induction turns with
  | zero => exact List.suffix_refl
  | succ turns ih =>
      intro text
      rw [optionalFieldsLoop]
      split
      · exact List.suffix_refl text
      · next field rest parsed => exact (ih rest).trans (mailimfOptionalFieldParse_shorter parsed).1

theorem mailimfOptionalFieldsParse_suffix (text : List UInt8) : (mailimfOptionalFieldsParse text).2 <:+ text :=
  optionalFieldsLoop_suffix _ text

theorem mailimfOptionalFieldsParse_none (text : List UInt8) :
    (mailimfOptionalFieldParse text = none → mailimfOptionalFieldsParse text = ([], text)) ∧
    (mailimfOptionalFieldParse text ≠ none → (mailimfOptionalFieldsParse text).2.length < text.length) := by
  rw [mailimfOptionalFieldsParse, optionalFieldsLoop]
  cases parsed : mailimfOptionalFieldParse text with
  | none => exact ⟨fun _ => rfl, fun impossible => absurd rfl impossible⟩
  | some found =>
      obtain ⟨field, rest⟩ := found
      refine ⟨nofun, fun _ => ?_⟩
      exact Nat.lt_of_le_of_lt (optionalFieldsLoop_suffix text.length rest).length_le (mailimfOptionalFieldParse_shorter parsed).2

end Etpan.Imf
