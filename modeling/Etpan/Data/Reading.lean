import Etpan.Data.Delimited

namespace Etpan.Data

open Computability

/-! Grammars with values: `read value` is the language of the words that stand for `value`.

A value is read uniquely up to `stop` if a text that starts with one of its words, followed
by a stop, starts with no other word followed by a stop, and with none of another value. -/

section

variable {α β : Type} {read : α → Language UInt8} {stop : UInt8 → Bool}

def ReadsOnly (read : α → Language UInt8) (stop : UInt8 → Bool) (value : α) : Prop :=
  ∀ ⦃other word word' rest rest'⦄, word ∈ read value → word' ∈ read other → StopsAt stop rest → StopsAt stop rest' →
    word ++ rest = word' ++ rest' → value = other ∧ word = word' ∧ rest = rest'

def UniquelyRead (read : α → Language UInt8) (stop : UInt8 → Bool) : Prop := ∀ value, ReadsOnly read stop value

theorem ReadsOnly.mono {wide : UInt8 → Bool} {value : α} (reads : ReadsOnly read wide value)
    (included : ∀ byte, stop byte = true → wide byte = true) : ReadsOnly read stop value := by
  intro other word word' rest rest' isWord isWord' stops stops' same
  exact reads isWord isWord' (stops.mono included) (stops'.mono included) same

theorem UniquelyRead.mono {wide : UInt8 → Bool} (reads : UniquelyRead read wide)
    (included : ∀ byte, stop byte = true → wide byte = true) : UniquelyRead read stop :=
  fun value => (reads value).mono included

theorem uniquelyRead_class {isMember : UInt8 → Bool} (members : ∀ value, Over isMember (read value))
    (functional : ∀ first second word, word ∈ read first → word ∈ read second → first = second) :
    UniquelyRead read fun byte => !isMember byte := by
  intro value other word word' rest rest' isWord isWord' stops stops' same
  obtain ⟨rfl, rfl⟩ := append_eq_of_class (members value word isWord) (members other word' isWord') stops stops' same
  exact ⟨functional value other word isWord isWord', rfl, rfl⟩

/-- One value after another, with a symbol between them. -/
theorem ReadsOnly.mul {read' : β → Language UInt8} {stop' : UInt8 → Bool} {separator : Language UInt8} {symbol : UInt8}
    {first : α} {second : β} (firstReads : ReadsOnly read stop first) (secondReads : ReadsOnly read' stop' second)
    (isSeparator : ∀ word, word ∈ separator ↔ word = [symbol]) (symbolStops : stop symbol = true) :
    ReadsOnly (fun pair : α × β => read pair.1 * (separator * read' pair.2)) stop' (first, second) := by
  rintro ⟨first', second'⟩ word word' rest rest' isWord isWord' stops stops' same
  obtain ⟨front, isFront, back, isBack, rfl⟩ := Language.mem_mul.mp isWord
  obtain ⟨front', isFront', back', isBack', rfl⟩ := Language.mem_mul.mp isWord'
  obtain ⟨mark, isMark, tail, isTail, rfl⟩ := Language.mem_mul.mp isBack
  obtain ⟨mark', isMark', tail', isTail', rfl⟩ := Language.mem_mul.mp isBack'
  rw [(isSeparator mark).mp isMark, (isSeparator mark').mp isMark'] at same ⊢
  simp only [List.append_assoc, List.singleton_append] at same
  obtain ⟨rfl, rfl, behind⟩ :=
    firstReads isFront isFront' (stopsAt_cons.mpr symbolStops) (stopsAt_cons.mpr symbolStops) same
  obtain ⟨rfl, rfl, rfl⟩ := secondReads isTail isTail' stops stops' (List.cons.inj behind).2
  exact ⟨rfl, rfl, rfl⟩

theorem UniquelyRead.mul {read' : β → Language UInt8} {stop' : UInt8 → Bool} {separator : Language UInt8} {symbol : UInt8}
    (firstReads : UniquelyRead read stop) (secondReads : UniquelyRead read' stop')
    (isSeparator : ∀ word, word ∈ separator ↔ word = [symbol]) (symbolStops : stop symbol = true) :
    UniquelyRead (fun pair : α × β => read pair.1 * (separator * read' pair.2)) stop' :=
  fun pair => (firstReads pair.1).mul (secondReads pair.2) isSeparator symbolStops

def listReads (separator : Language UInt8) (read : α → Language UInt8) : List α → Language UInt8
  | [] => 0
  | [value] => read value
  | value :: next :: rest => read value * (separator * listReads separator read (next :: rest))

theorem listReads_unique {separator : Language UInt8} {symbol : UInt8} {ends : UInt8 → Bool}
    (isSeparator : ∀ word, word ∈ separator ↔ word = [symbol]) (symbolStops : stop symbol = true)
    (endStops : ∀ byte, ends byte = true → stop byte = true ∧ byte ≠ symbol) {list : List α}
    (values : ∀ value ∈ list, ReadsOnly read stop value) : ReadsOnly (listReads separator read) ends list := by
  have stopsMono : ∀ {rest : List UInt8}, StopsAt ends rest → StopsAt stop rest := fun stops =>
    stops.mono fun byte isEnd => (endStops byte isEnd).1
  -- a list that goes on is not a list that ends here: the symbol is no end
  have goesOn : ∀ {rest more : List UInt8}, StopsAt ends rest → rest = symbol :: more → False := by
    intro rest more stops same
    rw [same, stopsAt_cons] at stops
    exact (endStops symbol stops).2 rfl
  induction list with
  | nil =>
      intro other word word' rest rest' isWord
      exact absurd isWord (Language.notMem_zero word)
  | cons value list ih =>
      have valueReads := values value (by simp)
      intro other word word' rest rest' isWord isWord' stops stops' same
      cases list with
      | nil =>
          match other, isWord' with
          | [], isWord' => exact absurd isWord' (Language.notMem_zero word')
          | [other], isWord' =>
              obtain ⟨rfl, rfl, rfl⟩ := valueReads isWord isWord' (stopsMono stops) (stopsMono stops') same
              exact ⟨rfl, rfl, rfl⟩
          | other :: next :: others, isWord' =>
              obtain ⟨front, isFront, back, isBack, rfl⟩ := Language.mem_mul.mp isWord'
              obtain ⟨mark, isMark, tail, -, rfl⟩ := Language.mem_mul.mp isBack
              rw [(isSeparator mark).mp isMark, List.append_assoc] at same
              obtain ⟨-, -, behind⟩ := valueReads isWord isFront (stopsMono stops) (stopsAt_cons.mpr symbolStops) same
              exact (goesOn stops behind).elim
      | cons next list =>
          obtain ⟨front, isFront, back, isBack, rfl⟩ := Language.mem_mul.mp isWord
          obtain ⟨mark, isMark, tail, isTail, rfl⟩ := Language.mem_mul.mp isBack
          obtain rfl := (isSeparator mark).mp isMark
          rw [List.append_assoc] at same
          match other, isWord' with
          | [], isWord' => exact absurd isWord' (Language.notMem_zero word')
          | [other], isWord' =>
              obtain ⟨-, -, behind⟩ := valueReads isFront isWord' (stopsAt_cons.mpr symbolStops) (stopsMono stops') same
              exact (goesOn stops' behind.symm).elim
          | other :: next' :: others, isWord' =>
              obtain ⟨front', isFront', back', isBack', rfl⟩ := Language.mem_mul.mp isWord'
              obtain ⟨mark', isMark', tail', isTail', rfl⟩ := Language.mem_mul.mp isBack'
              obtain rfl := (isSeparator mark').mp isMark'
              simp only [List.append_assoc, List.singleton_append] at same
              obtain ⟨rfl, rfl, behind⟩ :=
                valueReads isFront isFront' (stopsAt_cons.mpr symbolStops) (stopsAt_cons.mpr symbolStops) same
              obtain ⟨lists, rfl, rfl⟩ := ih (fun value member => values value (by simp [member])) isTail isTail' stops stops'
                (List.cons.inj behind).2
              exact ⟨by rw [lists], rfl, rfl⟩

end

/-- A terminal, a space and an argument: two such texts with one terminal have their arguments
at one place. -/
theorem terminal_arguments {token : String} {separator arguments arguments' : Language UInt8} {symbol : UInt8}
    {word word' rest rest' : List UInt8} (isSeparator : ∀ word, word ∈ separator ↔ word = [symbol])
    (isWord : word ∈ terminal token * (separator * arguments)) (isWord' : word' ∈ terminal token * (separator * arguments'))
    (same : word ++ rest = word' ++ rest') :
    ∃ front argument argument', word = front ++ argument ∧ word' = front ++ argument' ∧ argument ∈ arguments ∧
      argument' ∈ arguments' ∧ argument ++ rest = argument' ++ rest' := by
  obtain ⟨front, isFront, back, isBack, rfl⟩ := Language.mem_mul.mp isWord
  obtain ⟨front', isFront', back', isBack', rfl⟩ := Language.mem_mul.mp isWord'
  obtain ⟨mark, isMark, argument, isArgument, rfl⟩ := Language.mem_mul.mp isBack
  obtain ⟨mark', isMark', argument', isArgument', rfl⟩ := Language.mem_mul.mp isBack'
  obtain rfl := (isSeparator mark).mp isMark
  obtain rfl := (isSeparator mark').mp isMark'
  simp only [List.append_assoc] at same
  obtain ⟨rfl, behind⟩ := List.append_inj same (by rw [terminal_length isFront, terminal_length isFront'])
  exact ⟨front ++ [symbol], argument, argument', by simp, by simp, isArgument, isArgument', (List.cons.inj behind).2⟩

end Etpan.Data
