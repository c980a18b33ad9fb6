import Mathlib

namespace Etpan.Data

/-! Finite maps and lists of their entries. -/

variable {κ ν : Type} [DecidableEq κ]

/-- The list has one entry for each key that the map has a value for, and no other. -/
structure Tabulates (entries : List (κ × ν)) (map : κ → Option ν) : Prop where
  distinct : (entries.map Prod.fst).Nodup
  exact (key : κ) (value : ν) : map key = some value ↔ (key, value) ∈ entries

variable {entries others : List (κ × ν)} {map : κ → Option ν} {key : κ} {value old : ν}

omit [DecidableEq κ] in
theorem Tabulates.nil : Tabulates ([] : List (κ × ν)) fun _ => none :=
  ⟨List.nodup_nil, fun _ _ => by simp⟩

omit [DecidableEq κ] in
theorem Tabulates.perm (tabulates : Tabulates entries map) (same : entries.Perm others) : Tabulates others map :=
  ⟨(same.map Prod.fst).nodup_iff.mp tabulates.distinct, fun key value => (tabulates.exact key value).trans same.mem_iff⟩

omit [DecidableEq κ] in
theorem Tabulates.absent (tabulates : Tabulates entries map) : map key = none ↔ key ∉ entries.map Prod.fst := by
  constructor
  · intro none member
    obtain ⟨⟨_, value⟩, inside, rfl⟩ := List.mem_map.mp member
    exact absurd ((tabulates.exact _ value).mpr inside) (by simp [none])
  · intro notMember
    cases found : map key with
    | none => rfl
    | some value =>
        exact absurd (List.mem_map_of_mem ((tabulates.exact key value).mp found)) notMember

theorem Tabulates.cons (tabulates : Tabulates entries map) (absent : map key = none) (value : ν) :
    Tabulates ((key, value) :: entries) (Function.update map key (some value)) := by
  have notMember := tabulates.absent.mp absent
  refine ⟨List.nodup_cons.mpr ⟨notMember, tabulates.distinct⟩, ?_⟩
  intro other content
  by_cases same : other = key
  · subst same
    have alone : (other, content) ∉ entries := fun member => notMember (List.mem_map_of_mem member)
    simp [alone, eq_comm]
  · rw [Function.update_of_ne same, tabulates.exact, List.mem_cons]
    simp [same]

theorem Tabulates.tail (tabulates : Tabulates ((key, old) :: entries) map) :
    Tabulates entries (Function.update map key none) := by
  obtain ⟨notMember, distinct⟩ := List.nodup_cons.mp tabulates.distinct
  refine ⟨distinct, ?_⟩
  intro other content
  by_cases same : other = key
  · subst same
    have alone : (other, content) ∉ entries := fun member => notMember (List.mem_map.mpr ⟨_, member, rfl⟩)
    simp [alone]
  · rw [Function.update_of_ne same, tabulates.exact, List.mem_cons]
    simp [same]

theorem Tabulates.replace (tabulates : Tabulates ((key, old) :: entries) map) (value : ν) :
    Tabulates ((key, value) :: entries) (Function.update map key (some value)) := by
  have replaced := tabulates.tail.cons (Function.update_self key none map) value
  rwa [Function.update_idem] at replaced

theorem flatten_perm {α : Type} {lists : List (List α)} {index : Nat} {list : List α} (here : lists[index]? = some list) :
    lists.flatten.Perm (list ++ (lists.eraseIdx index).flatten) := by
  obtain ⟨inside, rfl⟩ := List.getElem?_eq_some_iff.mp here
  exact (List.getElem_cons_eraseIdx_perm inside).symm.flatten

theorem set_flatten_perm {α : Type} {lists : List (List α)} {index : Nat} (inside : index < lists.length) (list : List α) :
    (lists.set index list).flatten.Perm (list ++ (lists.eraseIdx index).flatten) := by
  have here : (lists.set index list)[index]? = some list := List.getElem?_set_self inside
  rw [← List.eraseIdx_set_eq (l := lists) (a := list)]
  exact flatten_perm here

/-! ### The first element of a kind -/

section

variable {α : Type} {found : α → Bool} {change : α → List α} {list after : List α}

/-- Other elements take the place of the first one that is found; `none` where there is no such one. -/
def changeFirst (found : α → Bool) (change : α → List α) : List α → Option (List α)
  | [] => none
  | element :: rest => if found element then some (change element ++ rest) else (changeFirst found change rest).map (element :: ·)

theorem changeFirst_some (changed : changeFirst found change list = some after) :
    ∃ front element back, list = front ++ element :: back ∧ found element = true ∧ after = front ++ (change element ++ back) := by
  induction list generalizing after with
  | nil => cases changed
  | cons first rest ih =>
      rw [changeFirst] at changed
      split at changed
      · next here =>
        cases changed
        exact ⟨[], first, rest, rfl, here, rfl⟩
      · obtain ⟨later, changedLater, rfl⟩ := Option.map_eq_some_iff.mp changed
        obtain ⟨front, element, back, rfl, here, rfl⟩ := ih changedLater
        exact ⟨first :: front, element, back, rfl, here, rfl⟩

theorem changeFirst_none (unchanged : changeFirst found change list = none) : ∀ element ∈ list, found element = false := by
  induction list with
  | nil => exact fun element member => absurd member List.not_mem_nil
  | cons first rest ih =>
      rw [changeFirst] at unchanged
      split at unchanged
      · cases unchanged
      · next notFirst =>
        intro element member
        rcases List.mem_cons.mp member with rfl | later
        · simpa using notFirst
        · exact ih (Option.map_eq_none_iff.mp unchanged) element later

end

end Etpan.Data
