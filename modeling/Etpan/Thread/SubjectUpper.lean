import Etpan.Thread.SubjectBase

namespace Etpan.Thread

open Etpan.Data Relation Computability SubjectGrammar

/-! Step (7): capitals are no new match for the grammar. -/

section Caseless

def Caseless (language : Language UInt8) : Prop := ∀ text : List UInt8, text.map toupper ∈ language → text ∈ language

variable {left right : Language UInt8}

theorem tolower_toupper : ∀ octet : UInt8, tolower (toupper octet) = tolower octet := forall_octet (by decide +kernel)

theorem toupper_toupper : ∀ octet : UInt8, toupper (toupper octet) = toupper octet := forall_octet (by decide +kernel)

theorem caseless_terminal (literal : String) : Caseless (terminal literal) := by
  intro text member
  show text.map tolower = _
  have same : (text.map toupper).map tolower = (asciiText literal).map tolower := member
  rw [List.map_map, show tolower ∘ toupper = tolower from funext tolower_toupper] at same
  exact same

theorem caseless_octet {isMember : UInt8 → Bool} (same : ∀ octet, isMember (toupper octet) = isMember octet) : Caseless (octet isMember) := by
  rintro text ⟨upper, member, isUpper⟩
  obtain ⟨byte, rfl, rfl⟩ := List.map_eq_singleton_iff.mp isUpper
  exact ⟨byte, by rwa [← same], rfl⟩

theorem Caseless.mul (leftCase : Caseless left) (rightCase : Caseless right) : Caseless (left * right) := by
  intro text member
  obtain ⟨first, isFirst, second, isSecond, same⟩ := Language.mem_mul.mp member
  obtain ⟨head, tail, rfl, rfl, rfl⟩ := List.map_eq_append_iff.mp same.symm
  exact Language.mem_mul.mpr ⟨head, leftCase head isFirst, tail, rightCase tail isSecond, rfl⟩

theorem Caseless.add (leftCase : Caseless left) (rightCase : Caseless right) : Caseless (left + right) := by
  intro text member
  rw [Language.mem_add] at member ⊢
  exact member.imp (leftCase text) (rightCase text)

theorem caseless_one : Caseless 1 := by
  intro text member
  rw [Language.mem_one] at member ⊢
  exact List.map_eq_nil_iff.mp member

theorem Caseless.kstar (leftCase : Caseless left) : Caseless left∗ := by
  intro text member
  obtain ⟨parts, same, areParts⟩ := Language.mem_kstar.mp member
  clear member
  induction parts generalizing text with
  | nil =>
      rw [List.map_eq_nil_iff.mp same]
      exact Language.nil_mem_kstar _
  | cons part parts ih =>
      obtain ⟨head, tail, rfl, isHead, isTail⟩ := List.map_eq_append_iff.mp same
      obtain ⟨others, rfl, areOthers⟩ := Language.mem_kstar.mp (ih tail isTail fun other listed => areParts other (List.mem_cons_of_mem part listed))
      refine Language.mem_kstar.mpr ⟨head :: others, rfl, List.forall_mem_cons.mpr ⟨leftCase head ?_, areOthers⟩⟩
      rw [isHead]
      exact areParts part (by simp)

theorem caseless_blob : Caseless subjBlob :=
  (((caseless_terminal _).mul (caseless_octet (forall_octet (by decide +kernel))).kstar).mul (caseless_terminal _)).mul (caseless_terminal _).kstar

theorem caseless_refwd : Caseless subjRefwd :=
  ((((caseless_terminal _).add ((caseless_terminal _).mul (caseless_one.add (caseless_terminal _)))).mul (caseless_terminal _).kstar).mul
    (caseless_one.add caseless_blob)).mul (caseless_terminal _)

end Caseless

section Upper

variable {text : List UInt8} {reply : Bool}

theorem trailed_upper (trailed : Trailed (text.map toupper)) : Trailed text := by
  obtain ⟨rest, trailer, isTrailer, same⟩ := trailed
  obtain ⟨head, tail, rfl, rfl, rfl⟩ := List.map_eq_append_iff.mp same
  exact ⟨head, tail, isTrailer.imp (caseless_terminal _ tail) (caseless_terminal _ tail), rfl⟩

theorem wrapped_upper (wrapped : Wrapped (text.map toupper)) : Wrapped text := by
  obtain ⟨header, rest, trailer, isHeader, isTrailer, same⟩ := wrapped
  obtain ⟨front, last, rfl, isFront, rfl⟩ := List.map_eq_append_iff.mp same
  obtain ⟨head, middle, rfl, rfl, rfl⟩ := List.map_eq_append_iff.mp isFront
  exact ⟨head, middle, last, caseless_terminal _ head isHeader, caseless_terminal _ last isTrailer, rfl⟩

theorem stuck_prefix_upper (stuck : Stuck PrefixStep (text, reply)) (other : Bool) : Stuck PrefixStep (text.map toupper, other) := by
  intro next taken
  generalize state : (text.map toupper, other) = start at taken
  cases taken with
  | refwd isLeader =>
      obtain ⟨head, tail, rfl, rfl, rfl⟩ := List.map_eq_append_iff.mp (Prod.mk.inj state).1
      exact stuck _ (.refwd (caseless_blob.kstar.mul caseless_refwd head isLeader))
  | wsp isSpace =>
      obtain ⟨head, tail, rfl, rfl, rfl⟩ := List.map_eq_append_iff.mp (Prod.mk.inj state).1
      exact stuck _ (.wsp (caseless_terminal _ head isSpace))
  | blob isBlob more =>
      obtain ⟨head, tail, rfl, rfl, rfl⟩ := List.map_eq_append_iff.mp (Prod.mk.inj state).1
      exact stuck _ (.blob (caseless_blob head isBlob) fun none' => more (List.map_eq_nil_iff.mpr none'))

theorem prefixStep_suffix {state next : List UInt8 × Bool} (taken : PrefixStep state next) : ∃ leader, state.1 = leader ++ next.1 := by
  cases taken with
  | refwd => exact ⟨_, rfl⟩
  | wsp => exact ⟨_, rfl⟩
  | blob => exact ⟨_, rfl⟩

theorem prefixSteps_suffix {state last : List UInt8 × Bool} (path : ReflTransGen PrefixStep state last) : last.1 <:+ state.1 := by
  induction path with
  | refl => exact List.suffix_rfl
  | tail _ taken ih =>
      obtain ⟨leader, same⟩ := prefixStep_suffix taken
      rw [same] at ih
      exact (List.suffix_append ..).trans ih

theorem Trailed.suffix {rest : List UInt8} (suffix : rest <:+ text) (trailed : Trailed rest) : Trailed text := by
  obtain ⟨before, rfl⟩ := suffix
  obtain ⟨head, trailer, isTrailer, rfl⟩ := trailed
  exact ⟨before ++ head, trailer, isTrailer, (List.append_assoc ..).symm⟩

theorem baseSubject_stuck {start base : List UInt8 × Bool} (found : BaseSubject start base) :
    ¬ Trailed base.1 ∧ Stuck PrefixStep base ∧ Stuck WrapperStep base := by
  induction found with
  | base trimming stripping unwrapped =>
      exact ⟨fun trailed => stuck_trailer.mp trimming.stuck (trailed.suffix (prefixSteps_suffix stripping.path)), stripping.stuck, unwrapped⟩
  | wrapped _ _ _ _ ih => exact ih

/-- The base subject in capitals is its own base subject. -/
theorem baseSubject_upper {start : List UInt8 × Bool} {base : List UInt8} (found : BaseSubject start (base, reply)) :
    BaseSubject (base.map toupper, false) (base.map toupper, false) := by
  obtain ⟨notTrailed, stripped, unwrapped⟩ := baseSubject_stuck found
  refine .base (Stuck.ends (stuck_trailer.mpr fun trailed => notTrailed (trailed_upper trailed))) (stuck_prefix_upper stripped false).ends ?_
  rw [stuck_wrapper]
  exact fun wrapped => stuck_wrapper.mp unwrapped (wrapped_upper wrapped)

end Upper

end Etpan.Thread
