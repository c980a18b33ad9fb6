import Etpan.Imf.Address
import Etpan.Mime.ContentType

namespace Etpan.Mime

open Etpan.Data Etpan.Imf

/-! The Content-Language field: `mailmime_language_write_driver` of `low-level/mime/mailmime_write_generic.c` and
`mailmime_language_parse` of `low-level/mime/mailmime.c`. -/

def languageWriteLoop : Bool → Output (List UInt8) → List (List UInt8) → Output (List UInt8)
  | _, out, [] => out
  | first, out, lang :: rest =>
      let out := if first then out else writeString out (asciiText ", ")
      let out := if 1 < out.col ∧ maxMimeCol < out.col + lang.length then writeString out headerFold else out
      languageWriteLoop false (writeString out lang) rest

def mailmimeLanguageWriteDriver (out : Output (List UInt8)) (lgList : List (List UInt8)) : Output (List UInt8) :=
  writeString (languageWriteLoop true (writeString out (asciiText "Content-Language: ")) lgList) [CR, LF]

/-- The loop of the parser, which reads a comma before each language; it takes an octet a turn. -/
def languageParseLoop : Nat → List (List UInt8) → List UInt8 → List (List UInt8) × List UInt8
  | 0, list, text => (list, text)
  | turns + 1, list, text =>
      match mailimfUnstrictCharParse (ascii ',') text with
      | none => (list, text)
      | some text =>
          match mailimfAtomParse text with
          | none => (list, text)
          | some (atom, rest) => languageParseLoop turns (list ++ [atom]) rest

def mailmimeLanguageParse (text : List UInt8) : List (List UInt8) × List UInt8 := languageParseLoop text.length [] text

def isTagOctet (ch : UInt8) : Bool :=
  (ascii 'a' ≤ ch && ch ≤ ascii 'z') || (ascii 'A' ≤ ch && ch ≤ ascii 'Z') || (ascii '0' ≤ ch && ch ≤ ascii '9') || ch = ascii '-'

/-- Letters, digits and hyphens. -/
structure LanguageTag (tag : List UInt8) : Prop where
  nonempty : tag ≠ []
  octets : ∀ ch ∈ tag, isTagOctet ch = true
  short : tag.length ≤ 70

/-- The languages come back from the value that is written. -/
def LanguageRoundTrip (col : Nat) (tags : List (List UInt8)) : Prop :=
  ∃ value, (mailmimeLanguageWriteDriver { data := [], col } tags).data = asciiText "Content-Language:" ++ value ∧
    (mailmimeLanguageParse value).1 = tags

theorem isTagOctet_octets : ∀ ch, isTagOctet ch = true → ch ≠ CR ∧ ch ≠ LF ∧ isBlankOctet ch = false ∧ ch ≠ ascii '(' ∧ ch ≠ ascii ',' :=
  forall_octet (by decide +kernel)

theorem LanguageTag.breakFree {tag : List UInt8} (isTag : LanguageTag tag) : BreakFree tag := fun ch member =>
  have octets := isTagOctet_octets ch (isTag.octets ch member)
  ⟨octets.1, octets.2.1⟩

theorem writeString_extends (out : Output (List UInt8)) (str : List UInt8) : out.data <+: (writeString out str).data := by
  obtain ⟨out', written, more⟩ := mailimfStringWriteDriver_extends out str
  rw [writeString, written]
  exact more

theorem languageWriteLoop_extends (lgList : List (List UInt8)) (first : Bool) (out : Output (List UInt8)) :
    out.data <+: (languageWriteLoop first out lgList).data := by
  induction lgList generalizing first out with
  | nil => exact List.prefix_rfl
  | cons lang lgList ih =>
      have separated : out.data <+: (if first then out else writeString out (asciiText ", ")).data := by
        split
        · exact List.prefix_rfl
        · exact writeString_extends out _
      rw [languageWriteLoop]
      refine separated.trans (List.IsPrefix.trans ?_ ((writeString_extends _ lang).trans (ih false _)))
      generalize (if first = true then out else writeString out (asciiText ", ")) = begun
      split_ifs
      · exact writeString_extends begun headerFold
      · exact List.prefix_rfl

theorem mailmimeLanguageWriteDriver_first {tag : List UInt8} (isTag : LanguageTag tag) (tags : List (List UInt8)) (out : Output (List UInt8)) :
    ∃ fold more, IsFold fold ∧
      (mailmimeLanguageWriteDriver out (tag :: tags)).data = out.data ++ (asciiText "Content-Language:" ++ ([ascii ' '] ++ fold ++ tag ++ more)) := by
  have head := writeString_breakFree (show BreakFree (asciiText "Content-Language: ") by decide) (by decide) out
  have short : tag.length ≤ maxImfLine := Nat.le_trans isTag.short (by decide)
  have split : asciiText "Content-Language: " = asciiText "Content-Language:" ++ [ascii ' '] := rfl
  rw [mailmimeLanguageWriteDriver, languageWriteLoop, if_pos rfl, head]
  dsimp only
  split_ifs
  · rw [writeString_fold, writeString_breakFree isTag.breakFree short]
    obtain ⟨more, rest⟩ := (languageWriteLoop_extends tags false _).trans (writeString_extends _ [CR, LF])
    refine ⟨headerFold, more, .inr rfl, ?_⟩
    rw [← rest, split]
    simp only [List.append_assoc]
  · rw [writeString_breakFree isTag.breakFree short]
    obtain ⟨more, rest⟩ := (languageWriteLoop_extends tags false _).trans (writeString_extends _ [CR, LF])
    refine ⟨[], more, .inl rfl, ?_⟩
    rw [← rest, split]
    simp only [List.append_assoc, List.nil_append]

theorem mailmimeLanguageParse_none {text : List UInt8} (noComma : mailimfUnstrictCharParse (ascii ',') text = none) :
    mailmimeLanguageParse text = ([], text) := by
  rw [mailmimeLanguageParse]
  cases text.length with
  | zero => rfl
  | succ turns => rw [languageParseLoop, noComma]

/-- No list of languages comes back: the parser wants a comma before the first one too. -/
theorem mailmimeLanguageParse_never {tags : List (List UInt8)} (nonempty : tags ≠ []) (areTags : ∀ tag ∈ tags, LanguageTag tag) (col : Nat) :
    ¬ LanguageRoundTrip col tags := by
  intro roundTrip
  obtain ⟨tag, tags, rfl⟩ := List.exists_cons_of_ne_nil nonempty
  have isTag := areTags tag List.mem_cons_self
  obtain ⟨value, written, parsed⟩ := roundTrip
  obtain ⟨fold, more, isFold, data⟩ := mailmimeLanguageWriteDriver_first isTag tags { data := [], col }
  rw [data, List.nil_append, List.append_cancel_left_eq] at written
  obtain ⟨ch, octets, rfl⟩ := List.exists_cons_of_ne_nil isTag.nonempty
  obtain ⟨-, -, visible, noComment, notComma⟩ := isTagOctet_octets ch (isTag.octets ch List.mem_cons_self)
  have skipped : Skipped ([ascii ' '] ++ fold) := by
    rcases isFold with rfl | rfl
    · exact skipped_blank
    · exact skipped_blank.append skipped_fold
  have noComma := @Skipped.unstrictChar ([ascii ' '] ++ fold) (octets ++ more) ch skipped visible noComment (ascii ',')
  rw [if_neg notComma] at noComma
  have same : value = [ascii ' '] ++ fold ++ ch :: (octets ++ more) := written.symm.trans (List.append_assoc _ _ _)
  rw [same, mailmimeLanguageParse_none noComma] at parsed
  cases parsed

theorem languageTag_en : LanguageTag (asciiText "en") where
  nonempty := by decide
  octets := by decide +kernel
  short := by decide

theorem languageTag_fr : LanguageTag (asciiText "fr-CA") where
  nonempty := by decide
  octets := by decide +kernel
  short := by decide

theorem mailmimeLanguageParse_never_two : ¬ LanguageRoundTrip 70 [asciiText "en", asciiText "fr-CA"] := by
  refine mailmimeLanguageParse_never (by decide) ?_ 70
  intro tag member
  rcases List.mem_pair.mp member with rfl | rfl
  · exact languageTag_en
  · exact languageTag_fr

/-- The one language of `Content-Language: en` is not read. -/
theorem mailmimeLanguageParse_drops : ¬ LanguageRoundTrip 0 [asciiText "en"] := by
  have written : (mailmimeLanguageWriteDriver { data := [], col := 0 } [asciiText "en"]).data =
      asciiText "Content-Language:" ++ (asciiText " en" ++ [CR, LF]) := by decide +kernel
  have parsed : (mailmimeLanguageParse (asciiText " en" ++ [CR, LF])).1 = [] := by decide +kernel
  intro roundTrip
  obtain ⟨value, data, read⟩ := roundTrip
  rw [written, List.append_cancel_left_eq] at data
  rw [← data, parsed] at read
  cases read

end Etpan.Mime
