import Etpan.Mime.EncodedTurns

namespace Etpan.Imf

open Etpan.Data Etpan.Mime

/-! Words and phrases, `low-level/imf/mailimf.c`.

The parsers are written as those of `Imf/Lexical`. -/

def isAtext (ch : UInt8) : Bool :=
  !(ch = ascii ' ' || ch = ascii '\t' || ch = LF || ch = CR || ch ∈ asciiText "<>,\":;")

def mailimfFwsAtomParse (text : List UInt8) : Option (List UInt8 × List UInt8) :=
  let unfolded := skipFws text
  if unfolded.takeWhile isAtext = [] then none else some (cString (unfolded.takeWhile isAtext), unfolded.dropWhile isAtext)

structure WordRead where
  word : List UInt8
  missingClosingQuote : Bool
  rest : List UInt8
deriving Repr, DecidableEq

/-- An encoded word is kept as it is spelled. -/
def mailimfFwsAtomForWordParse (text : List UInt8) : Except MailimfError WordRead :=
  let unfolded := skipFws text
  match mailmimeEncodedWordParse unfolded with
  | .error .parse =>
      match mailimfFwsAtomParse text with
      | none => .error .parse
      | some (word, rest) => .ok { word, missingClosingQuote := false, rest }
  | .error error => .error error
  | .ok read =>
      .ok { word := cString (unfolded.take (unfolded.length - read.rest.length)),
            missingClosingQuote := read.missingClosingQuote, rest := read.rest }

def isQtext (ch : UInt8) : Bool := isNoWsCtl ch || !(ch < 33 || ch = 34 || ch = 92 || ch = 127)

/-- The loop of `mailimf_fws_quoted_string_parse`: the octets that it appends, and what is left.  White space
gives one blank, also where it is folded; `inFws` says that this blank is there. -/
def quotedStringLoop : Bool → List UInt8 → List UInt8 × List UInt8
  | _, [] => ([], [])
  | inFws, ch :: rest =>
      if startsFws (ch :: rest) then
        let read := quotedStringLoop true rest
        (if inFws then read.1 else ascii ' ' :: read.1, read.2)
      else if isQtext ch then
        let read := quotedStringLoop false rest
        (ch :: read.1, read.2)
      else if ch = ascii '\\' then
        match rest with
        | [] => ([], ch :: rest)
        | quoted :: after =>
            let read := quotedStringLoop false after
            (quoted :: read.1, read.2)
      else ([], ch :: rest)

def mailimfFwsQuotedStringParse (text : List UInt8) : Option (List UInt8 × List UInt8) :=
  (mailimfCharParse (ascii '"') (skipFws text)).bind fun content =>
    (mailimfCharParse (ascii '"') (quotedStringLoop false content).2).map fun rest =>
      (cString (quotedStringLoop false content).1, rest)

def mailimfFwsWordParse (text : List UInt8) : Except MailimfError WordRead :=
  match mailimfFwsAtomForWordParse text with
  | .error .parse =>
      match mailimfFwsQuotedStringParse text with
      | none => .error .parse
      | some (word, rest) => .ok { word, missingClosingQuote := false, rest }
  | .error error => .error error
  | .ok read => .ok read

theorem mailimfFwsAtomParse_some {text word rest : List UInt8} (parsed : mailimfFwsAtomParse text = some (word, rest)) :
    ∃ atom, skipFws text = atom ++ rest ∧ word = cString atom ∧ atom ≠ [] ∧ ∀ ch ∈ atom, isAtext ch = true := by
  rw [mailimfFwsAtomParse] at parsed
  split_ifs at parsed with nonempty
  obtain ⟨rfl, rfl⟩ := Prod.mk.inj (Option.some.inj parsed)
  exact ⟨_, List.takeWhile_append_dropWhile.symm, rfl, nonempty, fun ch member => List.mem_takeWhile_imp member⟩

theorem quotedStringLoop_suffix (inFws : Bool) (text : List UInt8) : (quotedStringLoop inFws text).2 <:+ text := by
  fun_induction quotedStringLoop inFws text with
  | case1 => exact List.suffix_refl []
  | case2 inFws ch rest _ read ih | case3 inFws ch rest _ _ read ih => exact ih.trans (List.suffix_cons ch rest)
  | case4 => exact List.suffix_refl _
  | case5 inFws quoted after read _ _ ih => exact ih.trans ⟨[ascii '\\', quoted], rfl⟩
  | case6 => exact List.suffix_refl _

theorem mailimfFwsQuotedStringParse_some {text word rest : List UInt8} (parsed : mailimfFwsQuotedStringParse text = some (word, rest)) :
    ∃ content, skipFws text = ascii '"' :: content ∧ (quotedStringLoop false content).2 = ascii '"' :: rest ∧
      word = cString (quotedStringLoop false content).1 := by
  obtain ⟨content, isOpen, inner⟩ := Option.bind_eq_some_iff.mp parsed
  obtain ⟨after, closed, same⟩ := Option.map_eq_some_iff.mp inner
  obtain ⟨rfl, rfl⟩ := Prod.mk.inj same
  exact ⟨content, mailimfCharParse_some.mp isOpen, mailimfCharParse_some.mp closed, rfl⟩

theorem mailimfFwsWordParse_ok {text : List UInt8} {read : WordRead} (parsed : mailimfFwsWordParse text = .ok read) :
    (∃ encoded, mailmimeEncodedWordParse (skipFws text) = .ok encoded ∧ read.rest = encoded.rest ∧
        read.word = cString ((skipFws text).take ((skipFws text).length - encoded.rest.length))) ∨
      (mailmimeEncodedWordParse (skipFws text) = .error .parse ∧ read.missingClosingQuote = false ∧
        (mailimfFwsAtomParse text = some (read.word, read.rest) ∨ mailimfFwsQuotedStringParse text = some (read.word, read.rest))) := by
  rw [mailimfFwsWordParse] at parsed
  split at parsed
  · next failed =>
      split at parsed
      · cases parsed
      next word rest quoted =>
      cases parsed
      refine .inr ⟨?_, rfl, .inr quoted⟩
      rw [mailimfFwsAtomForWordParse] at failed
      split at failed
      · assumption
      · next noWord =>
          obtain rfl := Except.error.inj failed
          exact noWord
      · cases failed
  · cases parsed
  next read' isWord =>
  cases parsed
  rw [mailimfFwsAtomForWordParse] at isWord
  split at isWord
  · next noWord =>
      split at isWord
      · cases isWord
      next atom =>
      cases isWord
      exact .inr ⟨noWord, rfl, .inl atom⟩
  · cases isWord
  · next encoded isEncoded =>
      cases isWord
      exact .inl ⟨encoded, isEncoded, rfl, rfl⟩

theorem mailimfFwsWordParse_shorter {text : List UInt8} {read : WordRead} (parsed : mailimfFwsWordParse text = .ok read) :
    read.rest <:+ text ∧ read.rest.length < text.length := by
  have unfolded := skipFws_suffix text
  rcases mailimfFwsWordParse_ok parsed with ⟨encoded, isEncoded, same, -⟩ | ⟨-, -, atom | quoted⟩
  · rw [same]
    exact ⟨(mailmimeEncodedWordParse_suffix isEncoded).trans unfolded,
      Nat.lt_of_lt_of_le (mailmimeEncodedWordParse_shorter isEncoded) unfolded.length_le⟩
  · obtain ⟨octets, split, -, nonempty, -⟩ := mailimfFwsAtomParse_some atom
    have positive := List.length_pos_iff.mpr nonempty
    have lengths := unfolded.length_le
    rw [split, List.length_append] at lengths
    rw [split] at unfolded
    exact ⟨(List.suffix_append octets read.rest).trans unfolded, by omega⟩
  · obtain ⟨content, isOpen, closed, -⟩ := mailimfFwsQuotedStringParse_some quoted
    have inContent := quotedStringLoop_suffix false content
    rw [closed] at inContent
    have inText := ((List.suffix_cons (ascii '"') read.rest).trans inContent).trans (List.suffix_cons (ascii '"') content)
    have lengths := inContent.length_le
    have whole := unfolded.length_le
    rw [isOpen, List.length_cons] at whole
    rw [List.length_cons] at lengths
    rw [isOpen] at unfolded
    exact ⟨inText.trans unfolded, by omega⟩

/-- What the loop of `mailimf_phrase_parse` has when it ends. -/
structure PhraseRead where
  gphrase : List UInt8
  first : Bool
  hasMissingClosingQuote : Bool
  rest : List UInt8
deriving Repr, DecidableEq

def phraseLoop (gphrase : List UInt8) (first hasMissingClosingQuote : Bool) (text : List UInt8) : Except MailimfError PhraseRead :=
  match parsed : mailimfFwsWordParse text with
  | .error .parse => .ok { gphrase, first, hasMissingClosingQuote, rest := text }
  | .error error => .error error
  | .ok read =>
      phraseLoop ((if first then gphrase else gphrase ++ [ascii ' ']) ++ read.word) false
        (hasMissingClosingQuote || read.missingClosingQuote) read.rest
termination_by text.length
decreasing_by exact (mailimfFwsWordParse_shorter parsed).2

def mailimfPhraseParse (text : List UInt8) : Except MailimfError (List UInt8 × List UInt8) :=
  match phraseLoop [] true false text with
  | .error error => .error error
  | .ok read =>
      if read.first then .error .parse
      else if read.hasMissingClosingQuote then .ok (read.gphrase, (mailimfCharParse (ascii '"') read.rest).getD read.rest)
      else .ok (read.gphrase, read.rest)

section Loop

variable {gphrase text : List UInt8} {first hasMissingClosingQuote : Bool}

theorem phraseLoop_word {read : WordRead} (parsed : mailimfFwsWordParse text = .ok read) :
    phraseLoop gphrase first hasMissingClosingQuote text =
      phraseLoop ((if first then gphrase else gphrase ++ [ascii ' ']) ++ read.word) false
        (hasMissingClosingQuote || read.missingClosingQuote) read.rest := by
  rw [phraseLoop]
  split <;> rename_i found <;> rw [parsed] at found <;> cases found
  rfl

theorem phraseLoop_ends (failed : mailimfFwsWordParse text = .error .parse) :
    phraseLoop gphrase first hasMissingClosingQuote text = .ok { gphrase, first, hasMissingClosingQuote, rest := text } := by
  rw [phraseLoop]
  split <;> rename_i found
  · rfl
  · rw [failed] at found
    cases found
    contradiction
  · rw [failed] at found
    cases found

theorem phraseLoop_error {error : MailimfError} (failed : mailimfFwsWordParse text = .error error) (notParse : error ≠ .parse) :
    phraseLoop gphrase first hasMissingClosingQuote text = .error error := by
  rw [phraseLoop]
  split <;> rename_i found <;> rw [failed] at found <;> cases found
  · exact absurd rfl notParse
  · rfl

end Loop

end Etpan.Imf
