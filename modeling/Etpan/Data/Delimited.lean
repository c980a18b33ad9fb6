import Etpan.Data.Abnf

namespace Etpan.Data

open Computability

/-! Words that can be told apart from what follows them. -/

def StopsAt (stop : UInt8 → Bool) (text : List UInt8) : Prop := ∀ byte ∈ text.head?, stop byte = true

@[simp] theorem stopsAt_nil (stop : UInt8 → Bool) : StopsAt stop [] := by
  intro byte member
  cases member

@[simp] theorem stopsAt_cons {stop : UInt8 → Bool} {byte : UInt8} {text : List UInt8} :
    StopsAt stop (byte :: text) ↔ stop byte = true := by
  simp [StopsAt]

theorem StopsAt.append {stop : UInt8 → Bool} {first second : List UInt8} (firstStops : StopsAt stop first)
    (secondStops : StopsAt stop second) : StopsAt stop (first ++ second) := by
  cases first with
  | nil => exact secondStops
  | cons byte first => exact stopsAt_cons.mpr (stopsAt_cons.mp firstStops)

theorem StopsAt.mono {narrow wide : UInt8 → Bool} {text : List UInt8} (stops : StopsAt narrow text)
    (included : ∀ byte, narrow byte = true → wide byte = true) : StopsAt wide text :=
  fun byte member => included byte (stops byte member)

/-- A text has at most one front that is a word and is followed by a stop. -/
def Delimited (words : Language UInt8) (stop : UInt8 → Bool) : Prop :=
  ∀ ⦃word word' rest rest'⦄, word ∈ words → word' ∈ words → StopsAt stop rest → StopsAt stop rest' →
    word ++ rest = word' ++ rest' → word = word' ∧ rest = rest'

theorem append_eq_of_class {isMember : UInt8 → Bool} {word word' rest rest' : List UInt8}
    (members : ∀ byte ∈ word, isMember byte = true) (members' : ∀ byte ∈ word', isMember byte = true)
    (stops : StopsAt (fun byte => !isMember byte) rest) (stops' : StopsAt (fun byte => !isMember byte) rest')
    (same : word ++ rest = word' ++ rest') : word = word' ∧ rest = rest' := by
  have front : ∀ {word rest : List UInt8}, (∀ byte ∈ word, isMember byte = true) →
      StopsAt (fun byte => !isMember byte) rest → (word ++ rest).takeWhile isMember = word := by
    intro word rest members stops
    rw [List.takeWhile_append_of_pos members]
    cases rest with
    | nil => simp
    | cons byte rest =>
        have outside := stopsAt_cons.mp stops
        rw [List.takeWhile_cons_of_neg (by simpa using outside), List.append_nil]
  have words : word = word' := by rw [← front members stops, same, front members' stops']
  exact ⟨words, List.append_cancel_left (words ▸ same)⟩

theorem delimited_class {words : Language UInt8} {isMember : UInt8 → Bool}
    (members : ∀ word ∈ words, ∀ byte ∈ word, isMember byte = true) :
    Delimited words fun byte => !isMember byte := by
  intro word word' rest rest' isWord isWord' stops stops' same
  exact append_eq_of_class (members word isWord) (members word' isWord') stops stops' same

theorem Delimited.mem_mul {words others : Language UInt8} {stop : UInt8 → Bool} {word rest : List UInt8}
    (delimited : Delimited words stop) (isWord : word ∈ words) (stops : StopsAt stop rest)
    (othersStop : ∀ other ∈ others, StopsAt stop other) : word ++ rest ∈ words * others ↔ rest ∈ others := by
  rw [Language.mem_mul]
  constructor
  · rintro ⟨word', isWord', rest', isOther, same⟩
    obtain ⟨-, rfl⟩ := delimited isWord' isWord (othersStop rest' isOther) stops same
    exact isOther
  · intro isOther
    exact ⟨word, isWord, rest, isOther, rfl⟩

theorem terminal_length {text : String} {word : List UInt8} (isWord : word ∈ terminal text) :
    word.length = (asciiText text).length := by
  have lengths : (word.map tolower).length = ((asciiText text).map tolower).length := congrArg List.length isWord
  simpa using lengths

theorem delimited_terminal (text : String) (stop : UInt8 → Bool) : Delimited (terminal text) stop := by
  intro word word' rest rest' isWord isWord' stops stops' same
  exact List.append_inj same (by rw [terminal_length isWord, terminal_length isWord'])

theorem terminal_mul {text : String} {rest : List UInt8} {others : Language UInt8} :
    asciiText text ++ rest ∈ terminal text * others ↔ rest ∈ others :=
  (delimited_terminal text fun _ => true).mem_mul (mem_terminal text) (fun _ _ => rfl) fun _ _ _ _ => rfl

def startsDiffer (first second : String) : Bool :=
  match asciiText first, asciiText second with
  | byte :: _, other :: _ => tolower byte != tolower other
  | _, _ => false

theorem terminal_mul_other {start text : String} {rest : List UInt8} {others : Language UInt8}
    (differ : startsDiffer start text = true) : asciiText start ++ rest ∉ terminal text * others := by
  rw [Language.mem_mul]
  rintro ⟨word, isWord, other, -, same⟩
  have letters : word.map tolower = (asciiText text).map tolower := isWord
  rw [startsDiffer] at differ
  split at differ
  case h_1 byte more other' more' startSpelled textSpelled =>
    rw [textSpelled] at letters
    rw [startSpelled] at same
    cases word with
    | nil => cases letters
    | cons byte' word =>
        obtain ⟨rfl, -⟩ := List.cons.inj same
        rw [(List.cons.inj letters).1] at differ
        simp at differ
  case h_2 => cases differ

def isLetter (byte : UInt8) : Bool := ascii 'a' ≤ tolower byte && tolower byte ≤ ascii 'z'

theorem tolower_of_not_letter {byte : UInt8} (notLetter : isLetter byte = false) : tolower byte = byte := by
  have checked : ∀ byte : UInt8, isLetter byte = false → tolower byte = byte := forall_octet (by decide +kernel)
  exact checked byte notLetter

theorem mem_symbol {text : String} {symbol : UInt8} {word : List UInt8} (spelled : asciiText text = [symbol])
    (notLetter : isLetter symbol = false) : word ∈ terminal text ↔ word = [symbol] := by
  have unfolded : word ∈ terminal text ↔ word.map tolower = [tolower symbol] := by
    change word.map tolower = (asciiText text).map tolower ↔ _
    rw [spelled]
    rfl
  rw [unfolded]
  constructor
  · intro same
    obtain ⟨byte, rfl, lower⟩ := List.map_eq_singleton_iff.mp same
    have fixed : isLetter byte = false := by
      rw [isLetter, lower]
      exact notLetter
    rw [← tolower_of_not_letter fixed, lower, tolower_of_not_letter notLetter]
  · rintro rfl
    rfl

theorem concat_mem_mul {words ends : Language UInt8} {symbol : UInt8} {text : List UInt8}
    (isEnd : ∀ word, word ∈ ends ↔ word = [symbol]) : text ++ [symbol] ∈ words * ends ↔ text ∈ words := by
  rw [Language.mem_mul]
  constructor
  · rintro ⟨word, isWord, last, isLast, same⟩
    rw [(isEnd last).mp isLast] at same
    rwa [← List.append_cancel_right same]
  · intro isWord
    exact ⟨text, isWord, [symbol], (isEnd _).mpr rfl, rfl⟩

/-! ### Languages over a class of octets -/

def Over (isMember : UInt8 → Bool) (words : Language UInt8) : Prop := ∀ word ∈ words, ∀ byte ∈ word, isMember byte = true

variable {isMember : UInt8 → Bool}

theorem Over.add {first second : Language UInt8} (firstOver : Over isMember first) (secondOver : Over isMember second) :
    Over isMember (first + second) := by
  intro word isWord
  rcases (Language.mem_add first second word).mp isWord with early | late
  · exact firstOver word early
  · exact secondOver word late

theorem Over.mul {first second : Language UInt8} (firstOver : Over isMember first) (secondOver : Over isMember second) :
    Over isMember (first * second) := by
  intro word isWord byte member
  obtain ⟨front, isFront, back, isBack, rfl⟩ := Language.mem_mul.mp isWord
  rcases List.mem_append.mp member with early | late
  · exact firstOver front isFront byte early
  · exact secondOver back isBack byte late

theorem Over.kstar {words : Language UInt8} (isOver : Over isMember words) : Over isMember words∗ := by
  intro word isWord byte member
  obtain ⟨parts, rfl, areWords⟩ := Language.mem_kstar.mp isWord
  obtain ⟨part, isPart, inPart⟩ := List.mem_flatten.mp member
  exact isOver part (areWords part isPart) byte inPart

theorem over_octet {narrow : UInt8 → Bool} (included : ∀ byte, narrow byte = true → isMember byte = true) :
    Over isMember (octet narrow) := by
  rintro word ⟨byte, member, rfl⟩ other isOther
  rw [List.mem_singleton.mp isOther]
  exact included byte member

theorem over_terminal {text : String} (caseless : ∀ byte, isMember (tolower byte) = true → isMember byte = true)
    (members : ((asciiText text).all fun byte => isMember (tolower byte)) = true) : Over isMember (terminal text) := by
  intro word isWord byte member
  have letters : word.map tolower = (asciiText text).map tolower := isWord
  have lower : tolower byte ∈ (asciiText text).map tolower := letters ▸ List.mem_map_of_mem member
  obtain ⟨other, isOther, same⟩ := List.mem_map.mp lower
  exact caseless byte (same ▸ List.all_eq_true.mp members other isOther)

theorem Over.head_mul {words others : Language UInt8} {byte : UInt8} {rest : List UInt8} (isOver : Over isMember words)
    (nonempty : [] ∉ words) (isWord : byte :: rest ∈ words * others) : isMember byte = true := by
  obtain ⟨word, inWords, other, -, same⟩ := Language.mem_mul.mp isWord
  cases word with
  | nil => exact absurd inWords nonempty
  | cons first word =>
      obtain ⟨rfl, -⟩ := List.cons.inj same
      exact isOver _ inWords first (by simp)

def joined {α : Type} (symbol : UInt8) (write : α → List UInt8) : List α → List UInt8
  | [] => []
  | first :: rest => write first ++ rest.flatMap fun elt => symbol :: write elt

theorem joined_cons_cons {α : Type} (symbol : UInt8) (write : α → List UInt8) (first second : α) (rest : List α) :
    joined symbol write (first :: second :: rest) = write first ++ symbol :: joined symbol write (second :: rest) := rfl

section Separated

variable {separator item : Language UInt8} {symbol : UInt8}

theorem mem_separated_iff (isSeparator : ∀ word, word ∈ separator ↔ word = [symbol]) {text : List UInt8} :
    text ∈ separated separator item ↔ ∃ parts, parts ≠ [] ∧ (∀ part ∈ parts, part ∈ item) ∧ text = joined symbol id parts := by
  constructor
  · intro isText
    obtain ⟨first, isFirst, others, areOthers, rfl⟩ := Language.mem_mul.mp isText
    obtain ⟨words, rfl, areWords⟩ := Language.mem_kstar.mp areOthers
    have rests : ∃ parts : List (List UInt8), (∀ part ∈ parts, part ∈ item) ∧
        words.flatten = parts.flatMap fun part => symbol :: part := by
      clear areOthers isText
      induction words with
      | nil => exact ⟨[], by simp, rfl⟩
      | cons word words ih =>
          obtain ⟨parts, items, same⟩ := ih fun other member => areWords other (by simp [member])
          obtain ⟨mark, isMark, part, isPart, rfl⟩ := Language.mem_mul.mp (areWords word (by simp))
          rw [(isSeparator mark).mp isMark]
          refine ⟨part :: parts, ?_, by simp [same]⟩
          simpa using ⟨isPart, items⟩
    obtain ⟨parts, items, same⟩ := rests
    exact ⟨first :: parts, by simp, by simpa using ⟨isFirst, items⟩, by rw [same]; rfl⟩
  · rintro ⟨parts, nonempty, items, rfl⟩
    obtain ⟨first, rest, rfl⟩ := List.exists_cons_of_ne_nil nonempty
    refine Language.append_mem_mul (items first (by simp)) (flatMap_mem_kstar fun part isPart => ?_)
    exact Language.append_mem_mul ((isSeparator _).mpr rfl) (items part (by simp [isPart]))

theorem joined_mem_separated {α : Type} (isSeparator : ∀ word, word ∈ separator ↔ word = [symbol])
    {write : α → List UInt8} {list : List α} (nonempty : list ≠ []) (items : ∀ value ∈ list, write value ∈ item) :
    joined symbol write list ∈ separated separator item := by
  obtain ⟨first, rest, rfl⟩ := List.exists_cons_of_ne_nil nonempty
  refine Language.append_mem_mul (items first (by simp)) (flatMap_mem_kstar fun value member => ?_)
  exact Language.append_mem_mul ((isSeparator _).mpr rfl) (items value (by simp [member]))

theorem append_mem_separated (isSeparator : ∀ word, word ∈ separator ↔ word = [symbol])
    (free : ∀ word ∈ item, symbol ∉ word) {front back : List UInt8} :
    front ++ symbol :: back ∈ separated separator item ↔
      front ∈ separated separator item ∧ back ∈ separated separator item := by
  simp only [mem_separated_iff isSeparator]
  constructor
  · rintro ⟨parts, nonempty, items, same⟩
    -- the symbol is one of those between two parts: induction on the parts before it
    induction parts generalizing front with
    | nil => exact absurd rfl nonempty
    | cons part parts ih =>
        have isItem := items part (by simp)
        cases parts with
        | nil =>
            have inside : symbol ∈ part := by
              have whole : part = front ++ symbol :: back := by simpa [joined] using same.symm
              simp [whole]
            exact absurd inside (free part isItem)
        | cons next parts =>
            have later : ∀ other ∈ next :: parts, other ∈ item := fun other member => items other (by simp [member])
            rw [joined_cons_cons, id] at same
            rcases List.append_eq_append_iff.mp same with ⟨more, longer, tail⟩ | ⟨more, shorter, tail⟩
            · cases more with
              | nil =>
                  obtain ⟨-, rfl⟩ := List.cons.inj tail
                  rw [List.append_nil] at longer
                  exact ⟨⟨[part], by simp, by simpa using isItem, by simp [joined, longer]⟩, next :: parts, by simp, later, rfl⟩
              | cons byte more =>
                  obtain ⟨rfl, -⟩ := List.cons.inj tail
                  exact absurd (by simp [longer]) (free part isItem)
            · cases more with
              | nil =>
                  obtain ⟨-, rfl⟩ := List.cons.inj tail
                  rw [List.append_nil] at shorter
                  exact ⟨⟨[part], by simp, by simpa using isItem, by simp [joined, shorter]⟩, next :: parts, by simp, later, rfl⟩
              | cons byte more =>
                  obtain ⟨rfl, behind⟩ := List.cons.inj tail
                  obtain ⟨⟨fronts, frontsNonempty, frontItems, rfl⟩, backs⟩ := ih (by simp) later behind.symm
                  refine ⟨⟨part :: fronts, by simp, by simpa using ⟨isItem, frontItems⟩, ?_⟩, backs⟩
                  obtain ⟨first, others, rfl⟩ := List.exists_cons_of_ne_nil frontsNonempty
                  exact shorter
  · rintro ⟨⟨fronts, frontsNonempty, frontItems, rfl⟩, backs, backsNonempty, backItems, rfl⟩
    obtain ⟨first, others, rfl⟩ := List.exists_cons_of_ne_nil frontsNonempty
    obtain ⟨next, rest, rfl⟩ := List.exists_cons_of_ne_nil backsNonempty
    refine ⟨first :: others ++ next :: rest, by simp, ?_, by simp [joined]⟩
    intro part isPart
    rcases List.mem_append.mp isPart with early | late
    · exact frontItems part early
    · exact backItems part late

theorem joined_mem_separated_iff {α : Type} (isSeparator : ∀ word, word ∈ separator ↔ word = [symbol])
    (free : ∀ word ∈ item, symbol ∉ word) {write : α → List UInt8} {list : List α} (nonempty : list ≠ []) :
    joined symbol write list ∈ separated separator item ↔ ∀ value ∈ list, write value ∈ separated separator item := by
  induction list with
  | nil => exact absurd rfl nonempty
  | cons first rest ih =>
      cases rest with
      | nil => simp [joined]
      | cons second rest =>
          rw [joined_cons_cons, append_mem_separated isSeparator free, ih (by simp)]
          simp

end Separated

end Etpan.Data
