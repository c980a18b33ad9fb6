import Etpan.Imf.TextWrite
import Etpan.Mime.MultipartLayout

namespace Etpan.Mime

open Etpan.Data Etpan.Imf

/-! The multipart case of `mailmime_part_write_driver`,
`low-level/mime/mailmime_write_generic.c`.

A part is written by its own `mailmime_sub_write_driver`, so the parts are given as
their writers.  Preamble and epilogue are texts that `mailmime_data_write_driver`
hands to the string driver unchanged (8-bit or already encoded). -/

section Driver

variable {σ : Type} (doWrite : DoWrite σ) (boundary : List UInt8)

def crlfWrite (out : Output σ) : Option (Output σ) := mailimfStringWriteDriver doWrite out [CR, LF]

def dashesWrite (out : Output σ) : Option (Output σ) :=
  mailimfStringWriteDriver doWrite out [ascii '-', ascii '-']

def subPartsWrite (first : Bool) : List (Output σ → Option (Output σ)) → Output σ → Option (Output σ)
  | [], out => some out
  | subWrite :: others, out => do
      let out ← if first then some out else crlfWrite doWrite out
      let out ← dashesWrite doWrite out
      let out ← mailimfStringWriteDriver doWrite out boundary
      let out ← crlfWrite doWrite out
      let out ← subWrite out
      subPartsWrite false others out

def preambleWrite (preamble : Option (List UInt8)) (out : Output σ) : Option (Output σ) :=
  match preamble with
  | none => some out
  | some text => (mailimfStringWriteDriver doWrite out text).bind (crlfWrite doWrite)

def epilogueWrite (epilogue : Option (List UInt8)) (out : Output σ) : Option (Output σ) :=
  match epilogue with
  | none => some out
  | some text => mailimfStringWriteDriver doWrite out text

/-- The case MAILMIME_MULTIPLE. -/
def mailmimePartWriteDriverMultiple (preamble epilogue : Option (List UInt8))
    (subWrites : List (Output σ → Option (Output σ))) (out : Output σ) : Option (Output σ) := do
  let out ← preambleWrite doWrite preamble out
  let out ← subPartsWrite doWrite boundary true subWrites out
  let out ← crlfWrite doWrite out
  let out ← dashesWrite doWrite out
  let out ← mailimfStringWriteDriver doWrite out boundary
  let out ← dashesWrite doWrite out
  let out ← crlfWrite doWrite out
  epilogueWrite doWrite epilogue out

end Driver

def Appends (step : Output (List UInt8) → Option (Output (List UInt8))) (octets : List UInt8) : Prop :=
  ∀ out, ∃ col, step out = some { data := out.data ++ octets, col }

theorem Appends.bind {first second : Output (List UInt8) → Option (Output (List UInt8))} {left right : List UInt8}
    (firstAppends : Appends first left) (secondAppends : Appends second right) :
    Appends (fun out => (first out).bind second) (left ++ right) := by
  intro out
  obtain ⟨col, ran⟩ := firstAppends out
  obtain ⟨col', ran'⟩ := secondAppends { data := out.data ++ left, col }
  exact ⟨col', by simp only [ran, Option.bind_some, ran', List.append_assoc]⟩

theorem appends_nothing : Appends some [] := fun out => ⟨out.col, by simp⟩

theorem appends_text (text : List UInt8) : Appends (mailimfStringWriteDriver memory · text) (writtenText text) :=
  fun out => mailimfStringWriteDriver_written out text

theorem appends_breakFree {str : List UInt8} (free : BreakFree str) (short : str.length ≤ maxImfLine) :
    Appends (mailimfStringWriteDriver memory · str) str :=
  fun out => ⟨_, mailimfStringWriteDriver_breakFree free short out⟩

theorem appends_crlf : Appends (crlfWrite memory) [CR, LF] := by
  intro out
  have written : mailimfStringWriteDriver memory out ([] ++ [CR, LF]) =
      some { data := out.data ++ [] ++ [CR, LF], col := 0 } :=
    mailimfStringWriteDriver_crlf (by simp [BreakFree]) (by decide) out
  exact ⟨0, by simpa [crlfWrite] using written⟩

theorem appends_dashes : Appends (dashesWrite memory) [ascii '-', ascii '-'] :=
  appends_breakFree (by decide) (by decide)

section Layout

variable {boundary : List UInt8} {subWrites : List (Output (List UInt8) → Option (Output (List UInt8)))}
  {parts : List (List UInt8)}

theorem appends_delimiterLine (free : BreakFree boundary) (short : boundary.length ≤ maxImfLine) :
    Appends (fun out => (dashesWrite memory out).bind fun out =>
      (mailimfStringWriteDriver memory out boundary).bind (crlfWrite memory)) (delimiter boundary ++ [CR, LF]) := by
  have appended := appends_dashes.bind ((appends_breakFree free short).bind appends_crlf)
  simpa [delimiter] using appended

theorem appends_subParts (free : BreakFree boundary) (short : boundary.length ≤ maxImfLine)
    (writes : List.Forall₂ Appends subWrites parts) :
    Appends (subPartsWrite memory boundary false subWrites)
      (parts.flatMap fun part => CR :: LF :: (delimiter boundary ++ CR :: LF :: part)) := by
  induction writes with
  | nil => exact appends_nothing
  | @cons subWrite part subWrites parts appends _ ih =>
      have appended := appends_crlf.bind ((appends_delimiterLine free short).bind (appends.bind ih))
      intro out
      obtain ⟨col, ran⟩ := appended out
      refine ⟨col, ?_⟩
      rw [subPartsWrite]
      simpa [Option.bind_eq_bind, Option.bind_assoc] using ran

theorem partsLayout_flatMap (boundary part : List UInt8) (parts : List (List UInt8)) :
    partsLayout boundary (part :: parts) =
      part ++ parts.flatMap (fun part => CR :: LF :: (delimiter boundary ++ CR :: LF :: part)) ++
        CR :: LF :: (delimiter boundary ++ [ascii '-', ascii '-', CR, LF]) := by
  induction parts generalizing part with
  | nil => simp [partsLayout]
  | cons next parts ih =>
      rw [partsLayout_cons, ih next]
      simp

def envelopeLayout (boundary : List UInt8) (preamble : Option (List UInt8)) (parts : List (List UInt8))
    (epilogue : Option (List UInt8)) : List UInt8 :=
  (preamble.elim [] fun text => writtenText text ++ [CR, LF]) ++ multipartLayout boundary parts ++
    epilogue.elim [] writtenText

/-- The writer emits the layout, whatever the parts are written by. -/
theorem mailmimePartWriteDriverMultiple_layout (free : BreakFree boundary) (short : boundary.length ≤ maxImfLine)
    (preamble epilogue : Option (List UInt8)) (nonempty : parts ≠ []) (writes : List.Forall₂ Appends subWrites parts) :
    Appends (mailmimePartWriteDriverMultiple memory boundary preamble epilogue subWrites)
      (envelopeLayout boundary preamble parts epilogue) := by
  have opening : Appends (preambleWrite memory preamble)
      (preamble.elim [] fun text => writtenText text ++ [CR, LF]) := by
    cases preamble with
    | none => exact appends_nothing
    | some text => exact (appends_text text).bind appends_crlf
  have closing : Appends (epilogueWrite memory epilogue) (epilogue.elim [] writtenText) := by
    cases epilogue with
    | none => exact appends_nothing
    | some text => exact appends_text text
  cases writes with
  | nil => contradiction
  | @cons subWrite part subWrites parts appends others =>
      have body : Appends (subPartsWrite memory boundary true (subWrite :: subWrites))
          (delimiter boundary ++ CR :: LF ::
            (part ++ parts.flatMap fun part => CR :: LF :: (delimiter boundary ++ CR :: LF :: part))) := by
        have appended := (appends_delimiterLine free short).bind (appends.bind (appends_subParts free short others))
        intro out
        obtain ⟨col, ran⟩ := appended out
        refine ⟨col, ?_⟩
        rw [subPartsWrite]
        simpa [Option.bind_eq_bind, Option.bind_assoc] using ran
      have close := appends_crlf.bind (appends_dashes.bind ((appends_breakFree free short).bind
        (appends_dashes.bind (appends_crlf.bind closing))))
      have appended := opening.bind (body.bind close)
      intro out
      obtain ⟨col, ran⟩ := appended out
      refine ⟨col, ?_⟩
      rw [mailmimePartWriteDriverMultiple, envelopeLayout, multipartLayout, partsLayout_flatMap]
      simpa [Option.bind_eq_bind, Option.bind_assoc, delimiter] using ran

end Layout

end Etpan.Mime
