import Mathlib

namespace Etpan.Data

/-! The words of a text: its longest stretches without blanks. -/

section Words

variable {α : Type} (blank : α → Bool)

def wordsFrom : List α → List α → List (List α)
  | word, [] => if word.isEmpty then [] else [word]
  | word, ch :: rest =>
      if blank ch then
        if word.isEmpty then wordsFrom [] rest else word :: wordsFrom [] rest
      else wordsFrom (word ++ [ch]) rest

def wordsOf (text : List α) : List (List α) := wordsFrom blank [] text

def joinWords (gap : α) : List (List α) → List α
  | [] => []
  | word :: words => word ++ words.flatMap (gap :: ·)

variable {blank} {gap : α} {word text : List α} {words : List (List α)}

theorem wordsFrom_step {ch : α} (solid : blank ch = false) : wordsFrom blank word (ch :: text) = wordsFrom blank (word ++ [ch]) text := by
  rw [wordsFrom, if_neg (by simp [solid])]

theorem wordsFrom_solid {more : List α} (solid : ∀ ch ∈ more, blank ch = false) :
    wordsFrom blank word (more ++ text) = wordsFrom blank (word ++ more) text := by
  induction more generalizing word with
  | nil => rw [List.nil_append, List.append_nil]
  | cons ch more ih =>
      have later := fun other member => solid other (List.mem_cons_of_mem ch member)
      rw [List.cons_append, wordsFrom_step (solid ch List.mem_cons_self), ih later, List.append_assoc, List.singleton_append]

theorem wordsFrom_blank {ch : α} (isBlank : blank ch = true) : wordsFrom blank [] (ch :: text) = wordsFrom blank [] text := by
  rw [wordsFrom, if_pos isBlank, List.isEmpty_nil, if_pos rfl]

theorem wordsFrom_ends {ch : α} (nonempty : word ≠ []) (isBlank : blank ch = true) :
    wordsFrom blank word (ch :: text) = word :: wordsFrom blank [] text := by
  rw [wordsFrom, if_pos isBlank, if_neg (by simp [nonempty])]

theorem wordsFrom_nil (nonempty : word ≠ []) : wordsFrom blank word [] = [word] := by
  rw [wordsFrom, if_neg (by simp [nonempty])]

theorem solid_snoc {ch : α} (solid : ∀ other ∈ word, blank other = false) (notBlank : blank ch = false) :
    ∀ other ∈ word ++ [ch], blank other = false := by
  intro other member
  rcases List.mem_append.mp member with early | late
  · exact solid other early
  · obtain rfl := List.mem_singleton.mp late
    exact notBlank

theorem mem_wordsFrom {found : List α} (solid : ∀ ch ∈ word, blank ch = false) (member : found ∈ wordsFrom blank word text) :
    found ≠ [] ∧ (∀ ch ∈ found, blank ch = false) ∧ found <:+: word ++ text := by
  induction text generalizing word with
  | nil =>
      cases word with
      | nil => cases member
      | cons first word =>
          obtain rfl := List.mem_singleton.mp member
          exact ⟨List.cons_ne_nil _ _, solid, by rw [List.append_nil]⟩
  | cons ch text ih =>
      by_cases isBlank : blank ch = true
      · have rest : ∀ {start : List α}, found ∈ wordsFrom blank [] text →
            found ≠ [] ∧ (∀ ch ∈ found, blank ch = false) ∧ found <:+: start ++ ch :: text := by
          intro start later
          obtain ⟨nonempty, areSolid, inText⟩ := ih (List.forall_mem_nil _) later
          exact ⟨nonempty, areSolid, inText.trans (List.suffix_append_of_suffix (List.suffix_cons ch text)).isInfix⟩
        by_cases nonempty : word = []
        · rw [nonempty, wordsFrom_blank isBlank] at member
          exact rest member
        · rw [wordsFrom_ends nonempty isBlank] at member
          rcases List.mem_cons.mp member with rfl | later
          · exact ⟨nonempty, solid, (List.prefix_append _ _).isInfix⟩
          · exact rest later
      · have notBlank := Bool.eq_false_iff.mpr isBlank
        rw [wordsFrom_step notBlank] at member
        obtain ⟨nonempty, areSolid, inText⟩ := ih (solid_snoc solid notBlank) member
        rw [List.append_assoc, List.singleton_append] at inText
        exact ⟨nonempty, areSolid, inText⟩

theorem mem_wordsOf {found : List α} (member : found ∈ wordsOf blank text) :
    found ≠ [] ∧ (∀ ch ∈ found, blank ch = false) ∧ found <:+: text :=
  mem_wordsFrom (List.forall_mem_nil _) member

theorem wordsOf_joinWords (isGap : blank gap = true) (areWords : ∀ word ∈ words, word ≠ [] ∧ ∀ ch ∈ word, blank ch = false) :
    wordsOf blank (joinWords gap words) = words := by
  have later : ∀ {words : List (List α)} {word : List α}, (∀ word ∈ words, word ≠ [] ∧ ∀ ch ∈ word, blank ch = false) → word ≠ [] →
      wordsFrom blank word (words.flatMap (gap :: ·)) = word :: words := by
    intro words
    induction words with
    | nil => exact fun _ nonempty => wordsFrom_nil nonempty
    | cons next words ih =>
        intro word areWords nonempty
        obtain ⟨nextNonempty, nextSolid⟩ := areWords next List.mem_cons_self
        rw [List.flatMap_cons, List.cons_append, wordsFrom_ends nonempty isGap, wordsFrom_solid nextSolid, List.nil_append,
          ih (fun other member => areWords other (List.mem_cons_of_mem _ member)) nextNonempty]
  cases words with
  | nil => rfl
  | cons word words =>
      obtain ⟨nonempty, solid⟩ := areWords word List.mem_cons_self
      rw [wordsOf, joinWords, wordsFrom_solid solid, List.nil_append,
        later (fun other member => areWords other (List.mem_cons_of_mem _ member)) nonempty]

end Words

end Etpan.Data
