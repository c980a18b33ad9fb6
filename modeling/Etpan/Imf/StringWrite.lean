import Etpan.Data.Lines

namespace Etpan.Imf

open Etpan.Data

/-! The output driver of `low-level/imf/mailimf_write_generic.c`.

Every writer of the library takes the function that stores the octets, so the
drivers are written over it; `none` is its result 0, on which they return
MAILIMF_ERROR_FILE. -/

/-- The error codes of `mailimf_types.h` that the modelled functions return. -/
inductive MailimfError where
  | parse
  | memory
  | inval
  | file
  | parseDepth
deriving Repr, DecidableEq

abbrev DoWrite (σ : Type) := σ → List UInt8 → Option σ

/-- The two arguments every driver updates. -/
structure Output (σ : Type) where
  data : σ
  col : Nat
deriving Repr, DecidableEq

def memory : DoWrite (List UInt8) := fun data str => some (data ++ str)

def maxImfLine : Nat := 998

section Driver

variable {σ : Type} (doWrite : DoWrite σ)

def flushBuf (data : σ) (block : List UInt8) : Option σ :=
  if block.length ≠ 0 then doWrite data block else some data

def flushLine (data : σ) (block : List UInt8) : Option σ :=
  (flushBuf doWrite data block).bind (doWrite · [CR, LF])

/-- Lines are cut at the length RFC 2822 allows. -/
def cutLine (out : Output σ) (block : List UInt8) : Option (Output σ × List UInt8) :=
  if maxImfLine ≤ block.length then
    (flushLine doWrite out.data block).map fun data => ({ data, col := 0 }, [])
  else some (out, block)

/-- The loop of `mailimf_string_write_driver`; `block` is what stands between
`block_begin` and `p`. -/
def stringWriteLoop : Output σ → List UInt8 → List UInt8 → Option (Output σ)
  | out, block, [] =>
      (flushBuf doWrite out.data block).map fun data => { data, col := out.col + block.length }
  | out, block, byte :: rest =>
      (cutLine doWrite out block).bind fun (out, block) =>
        if byte = LF then
          (flushLine doWrite out.data block).bind fun data =>
            stringWriteLoop { data, col := 0 } [] rest
        else if byte = CR then
          (flushLine doWrite out.data block).bind fun data =>
            match rest with
            | [] => stringWriteLoop { data, col := 0 } [] []
            | next :: after =>
                if next = LF then stringWriteLoop { data, col := 0 } [] after
                else stringWriteLoop { data, col := 0 } [] (next :: after)
        else stringWriteLoop out (block ++ [byte]) rest

def mailimfStringWriteDriver (out : Output σ) (str : List UInt8) : Option (Output σ) :=
  stringWriteLoop doWrite out [] str

end Driver

@[simp] theorem flushBuf_memory (data block : List UInt8) :
    flushBuf memory data block = some (data ++ block) := by
  cases block with
  | nil => simp [flushBuf]
  | cons byte block => simp [flushBuf, memory]

@[simp] theorem flushLine_memory (data block : List UInt8) :
    flushLine memory data block = some (data ++ block ++ [CR, LF]) := by
  simp [flushLine, memory]

theorem cutLine_short (out : Output (List UInt8)) {block : List UInt8} (short : block.length < maxImfLine) :
    cutLine memory out block = some (out, block) := by
  rw [cutLine, if_neg (Nat.not_le.mpr short)]

theorem stringWriteLoop_extends (out : Output (List UInt8)) (block str : List UInt8) :
    ∃ out', stringWriteLoop memory out block str = some out' ∧ out.data <+: out'.data := by
  generalize size : str.length = count
  induction count using Nat.strongRecOn generalizing out block str with
  | ind count ih =>
      cases str with
      | nil => exact ⟨_, by rw [stringWriteLoop, flushBuf_memory]; rfl, ⟨block, rfl⟩⟩
      | cons byte rest =>
          have cut : ∃ out' block', cutLine memory out block = some (out', block') ∧ out.data <+: out'.data := by
            unfold cutLine
            split
            · exact ⟨_, _, by rw [flushLine_memory]; rfl, ⟨block ++ [CR, LF], by simp⟩⟩
            · exact ⟨out, block, rfl, List.prefix_rfl⟩
          obtain ⟨out', block', cutEq, extends'⟩ := cut
          have line : out.data <+: out'.data ++ block' ++ [CR, LF] :=
            extends'.trans ⟨block' ++ [CR, LF], by simp⟩
          rw [stringWriteLoop, cutEq, Option.bind_some]
          simp only [flushLine_memory, Option.bind_some]
          have next : ∀ (start : Output (List UInt8)) (pending tail : List UInt8), tail.length < count →
              out.data <+: start.data →
              ∃ out', stringWriteLoop memory start pending tail = some out' ∧ out.data <+: out'.data := by
            intro start pending tail shorter more
            obtain ⟨finished, ran, further⟩ := ih tail.length shorter start pending tail rfl
            exact ⟨finished, ran, more.trans further⟩
          rw [List.length_cons] at size
          split
          · exact next _ _ _ (by omega) line
          split
          · split
            · exact next _ _ _ (by simp; omega) line
            · split
              · exact next _ _ _ (by simp at size; omega) line
              · exact next _ _ _ (by omega) line
          · exact next _ _ _ (by omega) extends'

/-- In memory the driver never fails, and it only adds to what is there. -/
theorem mailimfStringWriteDriver_extends (out : Output (List UInt8)) (str : List UInt8) :
    ∃ out', mailimfStringWriteDriver memory out str = some out' ∧ out.data <+: out'.data :=
  stringWriteLoop_extends out [] str

/-- A short stretch without breaks joins the block. -/
theorem stringWriteLoop_append {str : List UInt8} (free : BreakFree str) (out : Output (List UInt8))
    (block rest : List UInt8) (short : block.length + str.length ≤ maxImfLine) :
    stringWriteLoop memory out block (str ++ rest) = stringWriteLoop memory out (block ++ str) rest := by
  induction str generalizing block with
  | nil => simp
  | cons byte str ih =>
      obtain ⟨notCR, notLF⟩ := free byte (by simp)
      rw [List.length_cons] at short
      have tail := ih (fun other member => free other (by simp [member])) (block ++ [byte])
        (by rw [List.length_append, List.length_singleton]; omega)
      rw [List.cons_append, stringWriteLoop, cutLine_short out (by omega), Option.bind_some]
      simp only [notCR, notLF, if_false, tail, List.append_assoc, List.singleton_append]

theorem mailimfStringWriteDriver_breakFree {str : List UInt8} (free : BreakFree str)
    (short : str.length ≤ maxImfLine) (out : Output (List UInt8)) :
    mailimfStringWriteDriver memory out str =
      some { data := out.data ++ str, col := out.col + str.length } := by
  have joined := stringWriteLoop_append free out [] [] (by simpa using short)
  rw [List.append_nil] at joined
  rw [mailimfStringWriteDriver, joined]
  simp [stringWriteLoop]

theorem mailimfStringWriteDriver_crlf {str : List UInt8} (free : BreakFree str)
    (short : str.length < maxImfLine) (out : Output (List UInt8)) :
    mailimfStringWriteDriver memory out (str ++ [CR, LF]) =
      some { data := out.data ++ str ++ [CR, LF], col := 0 } := by
  have joined := stringWriteLoop_append free out [] [CR, LF] (by simpa using short.le)
  rw [mailimfStringWriteDriver, joined, stringWriteLoop, List.nil_append, cutLine_short out short,
    Option.bind_some]
  simp [stringWriteLoop]

end Etpan.Imf
