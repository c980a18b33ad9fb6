import Etpan.Mime.EncodedReads
import Etpan.Imf.Phrase

namespace Etpan.Imf

open Etpan.Data Etpan.Mime

/-! White space before a token. -/

def Skipped (lead : List UInt8) : Prop := ∀ text, skipFws (lead ++ text) = skipFws text

theorem skipped_nil : Skipped [] := fun _ => rfl

theorem Skipped.append {first second : List UInt8} (isFirst : Skipped first) (isSecond : Skipped second) : Skipped (first ++ second) := by
  intro text
  rw [List.append_assoc, isFirst, isSecond]

theorem skipped_blank : Skipped [ascii ' '] := fun _ => rfl

theorem skipped_fold : Skipped [CR, LF, ascii ' '] := fun _ => rfl

theorem skipFws_visible {ch : UInt8} {rest : List UInt8} (visible : isBlankOctet ch = false) : skipFws (ch :: rest) = ch :: rest :=
  (skipFws_solid (solid_cons.mpr visible)).1

theorem skipCfws_of_skipFws {text : List UInt8} (noComment : (skipFws text).head? ≠ some (ascii '(')) : skipCfws text = skipFws text := by
  have notComment : mailimfCfwsFwsCommentParse text = none := by
    rw [mailimfCfwsFwsCommentParse, mailimfCommentParse]
    cases opened : mailimfCharParse (ascii '(') (skipFws text) with
    | none => rfl
    | some rest =>
        rw [mailimfCharParse_some.mp opened] at noComment
        exact absurd rfl noComment
  rw [skipCfws, mailimfCfwsParse, notComment]
  dsimp only
  rw [mailimfFwsParse]
  split_ifs with starts
  · rfl
  · cases text with
    | nil => rfl
    | cons ch rest => rw [skipFws, if_neg starts, Option.getD_none]

section Visible

variable {lead rest : List UInt8} {ch : UInt8} (skipped : Skipped lead) (visible : isBlankOctet ch = false)

include skipped visible

theorem Skipped.fws : skipFws (lead ++ ch :: rest) = ch :: rest := by
  rw [skipped, skipFws_visible visible]

theorem Skipped.cfws (noComment : ch ≠ ascii '(') : skipCfws (lead ++ ch :: rest) = ch :: rest := by
  have unfolded := @Skipped.fws lead rest ch skipped visible
  rw [skipCfws_of_skipFws, unfolded]
  rw [unfolded]
  exact fun isHead => noComment (Option.some.inj isHead)

theorem Skipped.unstrictChar (noComment : ch ≠ ascii '(') (token : UInt8) :
    mailimfUnstrictCharParse token (lead ++ ch :: rest) = if ch = token then some rest else none := by
  rw [mailimfUnstrictCharParse, @Skipped.cfws lead rest ch skipped visible noComment]
  rfl

end Visible

/-! Atoms, quoted strings, words and characters with comments before them, `low-level/imf/mailimf.c`. -/

def mailimfCommaParse : List UInt8 → Option (List UInt8) := mailimfUnstrictCharParse (ascii ',')

def mailimfPlusParse : List UInt8 → Option (List UInt8) := mailimfUnstrictCharParse (ascii '+')

def mailimfMinusParse : List UInt8 → Option (List UInt8) := mailimfUnstrictCharParse (ascii '-')

def mailimfPointParse : List UInt8 → Option (List UInt8) := mailimfUnstrictCharParse (ascii '.')

def mailimfAtSignParse : List UInt8 → Option (List UInt8) := mailimfUnstrictCharParse (ascii '@')

def mailimfAtomParse (text : List UInt8) : Option (List UInt8 × List UInt8) :=
  let started := skipCfws text
  if started.takeWhile isAtext = [] then none else some (cString (started.takeWhile isAtext), started.dropWhile isAtext)

def mailimfQuotedStringParse (text : List UInt8) : Option (List UInt8 × List UInt8) :=
  (mailimfCharParse (ascii '"') (skipCfws text)).bind fun content =>
    (mailimfCharParse (ascii '"') (quotedStringLoop false content).2).map fun rest =>
      (cString (quotedStringLoop false content).1, rest)

def mailimfWordParse (text : List UInt8) : Option (List UInt8 × List UInt8) :=
  (mailimfAtomParse text).or (mailimfQuotedStringParse text)

section Started

variable {text started : List UInt8} (skipped : skipCfws text = started)

include skipped

theorem mailimfAtomParse_none (stops : started.head?.any isAtext = false) : mailimfAtomParse text = none := by
  rw [mailimfAtomParse, skipped]
  cases started with
  | nil => rfl
  | cons ch rest =>
      have notAtext : ¬ isAtext ch = true := Bool.eq_false_iff.mp stops
      rw [List.takeWhile_cons_of_neg notAtext]
      rfl

theorem mailimfQuotedStringParse_none (stops : started.head? ≠ some (ascii '"')) : mailimfQuotedStringParse text = none := by
  rw [mailimfQuotedStringParse, skipped]
  cases opened : mailimfCharParse (ascii '"') started with
  | none => rfl
  | some content =>
      rw [mailimfCharParse_some.mp opened] at stops
      exact absurd rfl stops

theorem mailimfWordParse_none (stops : started.head?.any isAtext = false) (noQuote : started.head? ≠ some (ascii '"')) :
    mailimfWordParse text = none := by
  rw [mailimfWordParse, mailimfAtomParse_none skipped stops, mailimfQuotedStringParse_none skipped noQuote]
  rfl

end Started

end Etpan.Imf
