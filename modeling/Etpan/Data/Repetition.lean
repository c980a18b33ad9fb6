import Mathlib

namespace Etpan.Data

/-! Loops that read items until one cannot be read, as relations without a bound on the turns. -/

variable {τ α ε : Type}

def Progresses (parser : List τ → Except ε (α × List τ)) : Prop :=
  ∀ ⦃text value rest⦄, parser text = .ok (value, rest) → rest <:+ text ∧ rest.length < text.length

def Shortens (separator : List τ → Option (List τ)) : Prop := ∀ ⦃text rest⦄, separator text = some rest → rest <:+ text

section Runs

variable (stop : ε) (separator : List τ → Option (List τ)) (parser : List τ → Except ε (α × List τ))

/-- The turns of a loop that has read the items before the text.  It ends well where there is no separator or no
item behind one, and then nothing behind the last item is taken. -/
inductive RepeatRun : List α → List τ → Except ε (List α × List τ) → Prop
  | noSeparator {items : List α} {text : List τ} (none_ : separator text = none) : RepeatRun items text (.ok (items, text))
  | noItem {items : List α} {text after : List τ} (some_ : separator text = some after) (stops : parser after = .error stop) :
      RepeatRun items text (.ok (items, text))
  | fails {items : List α} {text after : List τ} {error : ε} (some_ : separator text = some after) (failed : parser after = .error error)
      (other : error ≠ stop) : RepeatRun items text (.error error)
  | item {items : List α} {text after rest : List τ} {value : α} {outcome : Except ε (List α × List τ)} (some_ : separator text = some after)
      (parsed : parser after = .ok (value, rest)) (further : RepeatRun (items ++ [value]) rest outcome) : RepeatRun items text outcome

/-- The first item, which must be there, and the loop. -/
inductive Repeats (text : List τ) : Except ε (List α × List τ) → Prop
  | fails {error : ε} (failed : parser text = .error error) : Repeats text (.error error)
  | goesOn {value : α} {rest : List τ} {outcome : Except ε (List α × List τ)} (parsed : parser text = .ok (value, rest))
      (further : RepeatRun stop separator parser [value] rest outcome) : Repeats text outcome

inductive MoreItems : List τ → List α → List τ → Prop
  | none {text : List τ} : MoreItems text [] text
  | item {text after rest later : List τ} {value : α} {values : List α} (some_ : separator text = some after)
      (parsed : parser after = .ok (value, rest)) (others : MoreItems rest values later) : MoreItems text (value :: values) later

/-- Items with separators between them: the rest is what the last of them leaves. -/
inductive Items (text : List τ) : List α → List τ → Prop
  | intro {value : α} {values : List α} {rest later : List τ} (parsed : parser text = .ok (value, rest))
      (others : MoreItems separator parser rest values later) : Items text (value :: values) later

variable {stop separator parser} {text rest later : List τ} {items values : List α}

theorem RepeatRun.moreItems {outcome : Except ε (List α × List τ)} (run : RepeatRun stop separator parser items text outcome)
    (ended : outcome = .ok (values, rest)) : ∃ more, values = items ++ more ∧ MoreItems separator parser text more rest := by
  induction run with
  | noSeparator none_ =>
      cases ended
      exact ⟨[], (List.append_nil _).symm, .none⟩
  | noItem some_ stops =>
      cases ended
      exact ⟨[], (List.append_nil _).symm, .none⟩
  | fails some_ failed other => cases ended
  | @item items text after rest value outcome some_ parsed further ih =>
      obtain ⟨more, rfl, others⟩ := ih ended
      refine ⟨value :: more, ?_, .item some_ parsed others⟩
      rw [List.append_assoc, List.singleton_append]

theorem Repeats.found (repeats : Repeats stop separator parser text (.ok (values, rest))) : Items separator parser text values rest := by
  cases repeats with
  | goesOn parsed further =>
      obtain ⟨more, rfl, others⟩ := further.moreItems rfl
      exact .intro parsed others

theorem MoreItems.shorter (shortens : Shortens separator) (progresses : Progresses parser)
    (more : MoreItems separator parser text values later) : later <:+ text ∧ later.length + values.length ≤ text.length := by
  induction more with
  | none => exact ⟨List.suffix_refl _, Nat.le_refl _⟩
  | item some_ parsed others ih =>
      have separated := shortens some_
      have read := progresses parsed
      have lengths := separated.length_le
      refine ⟨(ih.1.trans read.1).trans separated, ?_⟩
      rw [List.length_cons]
      omega

theorem Items.shorter (shortens : Shortens separator) (progresses : Progresses parser) (found : Items separator parser text values later) :
    later <:+ text ∧ later.length + values.length ≤ text.length := by
  cases found with
  | intro parsed others =>
      have read := progresses parsed
      have more := others.shorter shortens progresses
      refine ⟨more.1.trans read.1, ?_⟩
      rw [List.length_cons]
      omega

end Runs

section Tokens

variable (parsers : List (List τ → Option (List τ)))

/-- So many tokens one behind another, each read by one of the parsers. -/
inductive Tokens : Nat → List τ → List τ → Prop
  | none {text : List τ} : Tokens 0 text text
  | token {parse : List τ → Option (List τ)} {count : Nat} {text after rest : List τ} (member : parse ∈ parsers) (parsed : parse text = some after)
      (others : Tokens count after rest) : Tokens (count + 1) text rest

variable {parsers} {text after rest : List τ} {count more : Nat}

theorem Tokens.followed (tokens : Tokens parsers count text after) (others : Tokens parsers more after rest) :
    Tokens parsers (count + more) text rest := by
  induction tokens with
  | none =>
      rw [Nat.zero_add]
      exact others
  | @token parse count text middle after member parsed further ih =>
      rw [Nat.add_right_comm]
      exact .token member parsed (ih others)

theorem Tokens.shorter (progress : ∀ parse ∈ parsers, ∀ text rest, parse text = some rest → rest <:+ text ∧ rest.length < text.length)
    (tokens : Tokens parsers count text rest) : rest <:+ text ∧ rest.length + count ≤ text.length := by
  induction tokens with
  | none => exact ⟨List.suffix_refl _, Nat.le_refl _⟩
  | token member parsed others ih =>
      have read := progress _ member _ _ parsed
      exact ⟨ih.1.trans read.1, by omega⟩

end Tokens

end Etpan.Data
