import Mathlib

namespace Etpan.Data

/-! A loop that replaces a group of a list by one item at the end of the list, while it
goes over that list. -/

section Collapse

variable {Item Group : Type} (group : Item → Group) (live : Item → Bool) (made : Item → Item)

/-- After a replacement the loop goes on at the second item, whatever the first one is. -/
def collapse [DecidableEq Group] : Nat → List Item → Nat → Option (List Item)
  | 0, _, _ => none
  | turns + 1, items, cursor =>
      match items[cursor]? with
      | none => some items
      | some item =>
          if live item then collapse turns (items.filter (fun other => group other ≠ group item) ++ [made item]) 1
          else collapse turns items (cursor + 1)

/-- Nothing is left before `place` once the loop gets there, so that it is never looked at. -/
def Hidden (items : List Item) (place : Nat) : Prop :=
  0 < place ∧ ∀ earlier < place, ∃ (other : Nat) (_ : other < place),
    (∃ item past, items[other]? = some item ∧ items[earlier]? = some past ∧ live item = true ∧ group item = group past) ∧
      ¬ Hidden items other
termination_by place

/-- The group is replaced before the loop gets to `place`. -/
def Gone (items : List Item) (place : Nat) (key : Group) : Prop :=
  ∃ earlier < place, ∃ item, items[earlier]? = some item ∧ live item = true ∧ group item = key ∧ ¬ Hidden group live items earlier

variable {group live made} {items : List Item} {place : Nat} {key : Group}

theorem hidden_iff (within : place ≤ items.length) :
    Hidden group live items place ↔ 0 < place ∧ ∀ past ∈ items.take place, Gone group live items place (group past) := by
  rw [Hidden]
  constructor
  · rintro ⟨positive, covered⟩
    refine ⟨positive, fun past member => ?_⟩
    obtain ⟨earlier, before, here⟩ := List.mem_take_iff_getElem.mp member
    obtain ⟨other, otherBefore, ⟨item, found, isItem, isFound, isLive, same⟩, shown⟩ := covered earlier (by omega)
    have isPast : items[earlier]? = some past := by
      rw [← here]
      exact List.getElem?_eq_getElem _
    rw [isPast, Option.some.injEq] at isFound
    exact ⟨other, otherBefore, item, isItem, isLive, isFound ▸ same, shown⟩
  · rintro ⟨positive, covered⟩
    refine ⟨positive, fun earlier before => ?_⟩
    have inside : earlier < items.length := by omega
    have member : items[earlier] ∈ items.take place := List.mem_take_iff_getElem.mpr ⟨earlier, by omega, rfl⟩
    obtain ⟨other, otherBefore, item, isItem, isLive, same, shown⟩ := covered _ member
    exact ⟨other, otherBefore, ⟨item, items[earlier], isItem, List.getElem?_eq_getElem inside, isLive, same⟩, shown⟩

theorem Hidden.positive (isHidden : Hidden group live items place) : 0 < place := by
  rw [Hidden] at isHidden
  exact isHidden.1

theorem Gone.mono {later : Nat} (gone : Gone group live items place key) (le : place ≤ later) : Gone group live items later key := by
  obtain ⟨earlier, before, rest⟩ := gone
  exact ⟨earlier, before.trans_le le, rest⟩

theorem gone_succ {item : Item} (here : items[place]? = some item) :
    Gone group live items (place + 1) key ↔
      Gone group live items place key ∨ live item = true ∧ group item = key ∧ ¬ Hidden group live items place := by
  constructor
  · rintro ⟨earlier, before, other, isOther, isLive, same, shown⟩
    rcases Nat.lt_succ_iff_lt_or_eq.mp before with sooner | rfl
    · exact .inl ⟨earlier, sooner, other, isOther, isLive, same, shown⟩
    · rw [here, Option.some.injEq] at isOther
      exact .inr ⟨isOther ▸ isLive, isOther ▸ same, shown⟩
  · rintro (gone | ⟨isLive, same, shown⟩)
    · exact gone.mono (Nat.le_succ _)
    · exact ⟨place, Nat.lt_succ_self _, item, here, isLive, same, shown⟩

open Classical in
/-- The items of `part` that are still there when the loop gets to `place`. -/
noncomputable def keptOf (group : Item → Group) (live : Item → Bool) (items : List Item) (place : Nat) (part : List Item) : List Item :=
  part.filter fun item => ¬ Gone group live items place (group item)

theorem mem_keptOf {part : List Item} {item : Item} :
    item ∈ keptOf group live items place part ↔ item ∈ part ∧ ¬ Gone group live items place (group item) := by
  simp only [keptOf, List.mem_filter, decide_eq_true_eq]

theorem keptOf_append (left right : List Item) :
    keptOf group live items place (left ++ right) = keptOf group live items place left ++ keptOf group live items place right :=
  List.filter_append _ _

theorem keptOf_succ_same {item : Item} (here : items[place]? = some item)
    (same : live item = true → ¬ Hidden group live items place → Gone group live items place (group item)) (part : List Item) :
    keptOf group live items (place + 1) part = keptOf group live items place part := by
  refine List.filter_congr fun other _ => ?_
  rw [decide_eq_decide, gone_succ here]
  refine not_congr ⟨?_, .inl⟩
  rintro (gone | ⟨isLive, isGroup, shown⟩)
  · exact gone
  · exact isGroup ▸ same isLive shown

theorem keptOf_succ_filter [DecidableEq Group] {item : Item} (here : items[place]? = some item) (isLive : live item = true)
    (shown : ¬ Hidden group live items place) (part : List Item) :
    keptOf group live items (place + 1) part = (keptOf group live items place part).filter fun other => group other ≠ group item := by
  rw [keptOf, keptOf, List.filter_filter]
  refine List.filter_congr fun other _ => ?_
  rw [Bool.eq_iff_iff]
  simp only [Bool.and_eq_true, decide_eq_true_eq, gone_succ here, not_or]
  rw [and_comm]
  refine and_congr_left fun _ => ?_
  constructor
  · exact fun not isGroup => not ⟨isLive, isGroup.symm, shown⟩
  · exact fun differs isGroup => differs isGroup.2.1.symm

/-- What the loop has replaced when it gets to `place`. -/
structure Replaced (group : Item → Group) (live : Item → Bool) (items : List Item) (place : Nat) (pivots : List Item) : Prop where
  distinct : (pivots.map group).Nodup
  gone : ∀ key, key ∈ pivots.map group ↔ Gone group live items place key
  live : ∀ pivot ∈ pivots, pivot ∈ items ∧ live pivot = true

theorem Replaced.same {pivots : List Item} {item : Item} (replaced : Replaced group live items place pivots) (here : items[place]? = some item)
    (same : live item = true → ¬ Hidden group live items place → Gone group live items place (group item)) :
    Replaced group live items (place + 1) pivots := by
  refine { replaced with gone := fun key => ?_ }
  rw [replaced.gone, gone_succ here]
  refine ⟨.inl, ?_⟩
  rintro (gone | ⟨isLive, isGroup, shown⟩)
  · exact gone
  · exact isGroup ▸ same isLive shown

theorem Replaced.concat {pivots : List Item} {item : Item} (replaced : Replaced group live items place pivots) (here : items[place]? = some item)
    (isLive : live item = true) (shown : ¬ Hidden group live items place) (fresh : ¬ Gone group live items place (group item)) :
    Replaced group live items (place + 1) (pivots ++ [item]) where
  distinct := by
    rw [List.map_append, List.nodup_append]
    refine ⟨replaced.distinct, List.nodup_singleton _, ?_⟩
    intro key member other isOther
    rw [List.map_singleton, List.mem_singleton] at isOther
    rintro rfl
    exact fresh ((replaced.gone _).mp (isOther ▸ member))
  gone key := by
    rw [List.map_append, List.mem_append, replaced.gone, gone_succ here, List.map_singleton, List.mem_singleton]
    refine or_congr_right ⟨fun same => ⟨isLive, same.symm, shown⟩, fun found => found.2.1.symm⟩
  live pivot member := by
    rcases List.mem_append.mp member with old | new
    · exact replaced.live pivot old
    · rw [List.mem_singleton.mp new]
      exact ⟨List.mem_of_getElem? here, isLive⟩

/-- Where the cursor is when the loop gets to `place`: on that item, or behind it because the loop went on at the second item. -/
def AtPlace (group : Item → Group) (live : Item → Bool) (items : List Item) (place cursor : Nat) : Prop :=
  let before := keptOf group live items place (items.take place)
  cursor = before.length ∧ (place = 0 ∨ before ≠ []) ∨ 0 < place ∧ before = [] ∧ cursor = 1

theorem keptOf_dead {first : Item} {others : List Item} (within : place ≤ items.length)
    (before : keptOf group live items place (items.take place) = first :: others) : ∀ other ∈ others, live other = false := by
  intro other member
  by_contra isLive
  rw [Bool.not_eq_false] at isLive
  obtain ⟨between, behind, rfl⟩ := List.append_of_mem member
  rw [← List.cons_append] at before
  obtain ⟨left, right, split, leftKept, rightKept⟩ := List.filter_eq_append_iff.mp before
  obtain ⟨passed, rest, rfl, -, otherKept, -⟩ := List.filter_eq_cons_iff.mp rightKept
  rw [← List.append_assoc] at split
  obtain ⟨tail, whole⟩ : ∃ tail, items = left ++ passed ++ other :: tail :=
    ⟨rest ++ items.drop place, by rw [← List.cons_append, ← List.append_assoc, ← split, List.take_append_drop]⟩
  have there : items[(left ++ passed).length]? = some other := by
    rw [whole, List.getElem?_append_right le_rfl, Nat.sub_self]
    rfl
  have taken : items.take (left ++ passed).length = left ++ passed := by
    rw [whole, List.take_left]
  have before' : (left ++ passed).length < place := by
    have sameLength := congrArg List.length split
    simp only [List.length_take, List.length_append, List.length_cons] at sameLength ⊢
    omega
  have stillThere : ¬ Gone group live items place (group other) := by simpa only [decide_eq_true_eq] using otherKept
  have isHidden : Hidden group live items (left ++ passed).length := by
    by_contra shown
    exact stillThere ⟨_, before', other, there, isLive, rfl, shown⟩
  have firstMember : first ∈ keptOf group live items place left := by
    rw [keptOf, leftKept]
    exact List.mem_cons_self
  obtain ⟨inLeft, firstStill⟩ := mem_keptOf.mp firstMember
  have firstGone := ((hidden_iff (by omega)).mp isHidden).2 first (by rw [taken]; exact List.mem_append_left _ inLeft)
  exact firstStill (firstGone.mono before'.le)

theorem keptOf_singleton {item : Item} (fresh : ¬ Gone group live items place (group item)) : keptOf group live items place [item] = [item] := by
  simp only [keptOf, List.filter_singleton, fresh, not_false_iff, decide_true, cond_true]

theorem keptOf_singleton_gone {item : Item} (gone : Gone group live items place (group item)) : keptOf group live items place [item] = [] := by
  simp only [keptOf, List.filter_singleton, gone, not_true, decide_false, cond_false]

theorem take_succ_of_getElem? {item : Item} (here : items[place]? = some item) : items.take (place + 1) = items.take place ++ [item] := by
  rw [List.take_add_one, here, Option.toList_some]

theorem AtPlace.gone {item : Item} {cursor : Nat} (position : AtPlace group live items place cursor) (here : items[place]? = some item)
    (gone : Gone group live items place (group item)) : AtPlace group live items (place + 1) cursor := by
  have before : keptOf group live items (place + 1) (items.take (place + 1)) = keptOf group live items place (items.take place) := by
    rw [keptOf_succ_same here (fun _ _ => gone), take_succ_of_getElem? here, keptOf_append, keptOf_singleton_gone gone, List.append_nil]
  rw [AtPlace, before]
  rcases position with ⟨atCursor, started⟩ | ⟨-, isEmpty, atCursor⟩
  · refine .inl ⟨atCursor, .inr ?_⟩
    rcases started with rfl | nonempty
    · obtain ⟨earlier, impossible, -⟩ := gone
      exact absurd impossible (Nat.not_lt_zero _)
    · exact nonempty
  · exact .inr ⟨Nat.succ_pos _, isEmpty, atCursor⟩

theorem AtPlace.stays {item : Item} (here : items[place]? = some item)
    (fresh : ¬ Gone group live items place (group item)) (same : live item = true → Hidden group live items place) :
    AtPlace group live items (place + 1) (keptOf group live items place (items.take place) ++ [item]).length := by
  have before : keptOf group live items (place + 1) (items.take (place + 1)) = keptOf group live items place (items.take place) ++ [item] := by
    rw [keptOf_succ_same here (fun isLive shown => absurd (same isLive) shown), take_succ_of_getElem? here, keptOf_append,
      keptOf_singleton fresh]
  rw [AtPlace, before]
  exact .inl ⟨rfl, .inr (List.append_ne_nil_of_right_ne_nil _ (List.cons_ne_nil _ _))⟩

theorem keptOf_take_nil_iff (within : place ≤ items.length) (positive : 0 < place) :
    keptOf group live items place (items.take place) = [] ↔ Hidden group live items place := by
  rw [hidden_iff within, List.eq_nil_iff_forall_not_mem]
  constructor
  · refine fun none' => ⟨positive, fun past member => ?_⟩
    by_contra fresh
    exact none' past (mem_keptOf.mpr ⟨member, fresh⟩)
  · rintro ⟨-, covered⟩ past member
    exact (mem_keptOf.mp member).2 (covered past (mem_keptOf.mp member).1)

variable [DecidableEq Group]

variable (group made) in
theorem collapse_pass (before part after : List Item) (dead : ∀ item ∈ part, live item = false) (turns : Nat) :
    collapse group live made (turns + part.length) (before ++ part ++ after) before.length =
      collapse group live made turns (before ++ part ++ after) (before ++ part).length := by
  induction part generalizing before with
  | nil => rw [List.append_nil, List.length_nil, Nat.add_zero]
  | cons item part ih =>
      have there : (before ++ item :: part ++ after)[before.length]? = some item := by
        rw [List.append_assoc, List.getElem?_append_right le_rfl, Nat.sub_self]
        rfl
      have next := ih (before ++ [item]) fun other member => dead other (List.mem_cons_of_mem _ member)
      rw [List.length_cons, ← Nat.add_assoc, collapse, there]
      simp only [dead item List.mem_cons_self, Bool.false_eq_true, if_false]
      rw [List.append_cons before item part]
      rw [List.length_append, List.length_singleton] at next
      exact next

variable (group made) in
theorem collapse_end {cursor : Nat} {part : List Item} (dead : ∀ item ∈ part.drop cursor, live item = false) :
    ∃ turns, collapse group live made turns part cursor = some part := by
  rcases Nat.lt_or_ge part.length cursor with outside | inside
  · refine ⟨1, ?_⟩
    rw [collapse, List.getElem?_eq_none outside.le]
  · have passing := collapse_pass group made (part.take cursor) (part.drop cursor) [] dead 1
    rw [List.append_nil, List.take_append_drop, List.length_take, Nat.min_eq_left inside, collapse, List.getElem?_eq_none le_rfl] at passing
    exact ⟨_, passing⟩

theorem Replaced.filter_made {pivots : List Item} (replaced : Replaced group live items place pivots)
    (madeGroup : ∀ item ∈ items, live item = true → group (made item) = group item) (fresh : ¬ Gone group live items place key) :
    (pivots.map made).filter (fun other => group other ≠ key) = pivots.map made := by
  rw [List.filter_eq_self]
  intro other member
  obtain ⟨pivot, isPivot, rfl⟩ := List.mem_map.mp member
  obtain ⟨inItems, isLive⟩ := replaced.live pivot isPivot
  rw [decide_eq_true_eq, madeGroup pivot inItems isLive]
  rintro rfl
  exact fresh ((replaced.gone _).mp (List.mem_map_of_mem isPivot))

section Run

variable (madeGroup : ∀ item ∈ items, live item = true → group (made item) = group item)
  (madeDead : ∀ item ∈ items, live item = true → live (made item) = false)

include madeGroup madeDead

/-- The loop goes on at `place` as if it had never gone back to the second item. -/
theorem collapse_from {rest pivots : List Item} {cursor : Nat} (ahead : items.drop place = rest) (within : place ≤ items.length)
    (replaced : Replaced group live items place pivots) (position : AtPlace group live items place cursor) :
    ∃ turns pivots', collapse group live made turns (keptOf group live items place items ++ pivots.map made) cursor =
        some (keptOf group live items items.length items ++ pivots'.map made) ∧
      Replaced group live items items.length pivots' := by
  have madePivots : ∀ item ∈ pivots.map made, live item = false := by
    intro item member
    obtain ⟨pivot, isPivot, rfl⟩ := List.mem_map.mp member
    exact madeDead pivot (replaced.live pivot isPivot).1 (replaced.live pivot isPivot).2
  induction rest generalizing place pivots cursor with
  | nil =>
      have atEnd : place = items.length := le_antisymm within (List.drop_eq_nil_iff.mp ahead)
      subst atEnd
      have behind : ∀ item ∈ (keptOf group live items items.length items ++ pivots.map made).drop cursor, live item = false := by
        intro item member
        rcases position with ⟨atCursor, -⟩ | ⟨-, before, -⟩
        · rw [atCursor, List.take_length, List.drop_left] at member
          exact madePivots item member
        · rw [List.take_length] at before
          rw [before, List.nil_append] at member
          exact madePivots item (List.mem_of_mem_drop member)
      obtain ⟨turns, ends⟩ := collapse_end group made behind
      exact ⟨turns, pivots, ends, replaced⟩
  | cons item rest ih =>
      have here : items[place]? = some item := by
        rw [← Nat.add_zero place, ← List.getElem?_drop, ahead]
        rfl
      have inside : place < items.length := (List.getElem?_eq_some_iff.mp here).1
      have next : items.drop (place + 1) = rest := by
        rw [← List.drop_drop, ahead, List.drop_one, List.tail_cons]
      have split : keptOf group live items place items =
          keptOf group live items place (items.take place) ++ keptOf group live items place [item] ++ keptOf group live items place rest := by
        rw [← keptOf_append, ← keptOf_append, List.append_assoc, List.singleton_append, ← ahead, List.take_append_drop]
      by_cases gone : Gone group live items place (group item)
      · have unchanged := keptOf_succ_same here (fun _ _ => gone) items
        rw [← unchanged]
        exact ih next inside (replaced.same here fun _ _ => gone) (position.gone here gone) madePivots
      rw [keptOf_singleton gone] at split
      -- The loop looks at the item: it is the next one, unless nothing before it was kept.
      have looks : (live item = true → Hidden group live items place) → ∃ turns pivots',
          collapse group live made turns (keptOf group live items place items ++ pivots.map made)
              (keptOf group live items place (items.take place) ++ [item]).length =
            some (keptOf group live items items.length items ++ pivots'.map made) ∧
          Replaced group live items items.length pivots' := by
        intro same
        have unchanged := keptOf_succ_same here (fun isLive shown => absurd (same isLive) shown) items
        rw [← unchanged]
        exact ih next inside (replaced.same here fun isLive shown => absurd (same isLive) shown) (AtPlace.stays here gone same) madePivots
      by_cases isHidden : Hidden group live items place
      · have nothing := (keptOf_take_nil_iff within isHidden.positive).mpr isHidden
        have atSecond : cursor = 1 := by
          rcases position with ⟨-, started | nonempty⟩ | ⟨-, -, atSecond⟩
          · exact absurd started isHidden.positive.ne'
          · exact absurd nothing nonempty
          · exact atSecond
        have looked := looks fun _ => isHidden
        rw [nothing] at looked
        exact atSecond ▸ looked
      have atCursor : cursor = (keptOf group live items place (items.take place)).length := by
        rcases position with ⟨atCursor, -⟩ | ⟨positive, nothing, -⟩
        · exact atCursor
        · exact absurd ((keptOf_take_nil_iff within positive).mp nothing) isHidden
      have found : (keptOf group live items place items ++ pivots.map made)[cursor]? = some item := by
        rw [split, atCursor, List.append_assoc, List.append_assoc, List.getElem?_append_right le_rfl, Nat.sub_self]
        rfl
      rcases Bool.eq_false_or_eq_true (live item) with isLive | dead
      · -- The group of the item is replaced, and the loop comes back to where it is.
        have madeItem := madeDead item (List.mem_of_getElem? here) isLive
        have replaced' := replaced.concat here isLive isHidden gone
        have list' : (keptOf group live items place items ++ pivots.map made).filter (fun other => group other ≠ group item) ++ [made item] =
            keptOf group live items (place + 1) items ++ (pivots ++ [item]).map made := by
          rw [List.filter_append, replaced.filter_made madeGroup gone, ← keptOf_succ_filter here isLive isHidden, List.map_append,
            List.append_assoc, List.map_singleton]
        have madePivots' : ∀ other ∈ (pivots ++ [item]).map made, live other = false := by
          intro other member
          rw [List.map_append, List.mem_append, List.map_singleton, List.mem_singleton] at member
          rcases member with old | rfl
          · exact madePivots other old
          · exact madeItem
        have returns : ∃ turns pivots', collapse group live made turns (keptOf group live items (place + 1) items ++ (pivots ++ [item]).map made) 1 =
              some (keptOf group live items items.length items ++ pivots'.map made) ∧
            Replaced group live items items.length pivots' := by
          rcases before : keptOf group live items (place + 1) (items.take (place + 1)) with _ | ⟨first, others⟩
          · exact ih next inside replaced' (.inr ⟨Nat.succ_pos _, before, rfl⟩) madePivots'
          · obtain ⟨turns, pivots', ends, all⟩ := ih next inside replaced' (.inl ⟨rfl, .inr (by rw [before]; exact List.cons_ne_nil _ _)⟩) madePivots'
            have cut : keptOf group live items (place + 1) items =
                [first] ++ others ++ keptOf group live items (place + 1) (items.drop (place + 1)) := by
              rw [List.singleton_append, ← before, ← keptOf_append, List.take_append_drop]
            have passing := collapse_pass group made [first] others
              (keptOf group live items (place + 1) (items.drop (place + 1)) ++ (pivots ++ [item]).map made) (keptOf_dead inside before) turns
            rw [← List.append_assoc, ← cut, List.length_singleton] at passing
            rw [before] at ends
            exact ⟨turns + others.length, pivots', passing.trans ends, all⟩
        obtain ⟨turns, pivots', ends, all⟩ := returns
        refine ⟨turns + 1, pivots', ?_, all⟩
        rw [collapse, found]
        simp only [isLive, if_true]
        rw [list', ends]
      · obtain ⟨turns, pivots', ends, all⟩ := looks fun isLive => absurd isLive (by rw [dead]; exact Bool.false_ne_true)
        rw [List.length_append, List.length_singleton, ← atCursor] at ends
        refine ⟨turns + 1, pivots', ?_, all⟩
        rw [collapse, found]
        simp only [dead, Bool.false_eq_true, if_false]
        exact ends

/-- The loop ends, and every group with a live item that it can see has been replaced. -/
theorem collapse_run : ∃ turns pivots, collapse group live made turns items 0 =
      some (keptOf group live items items.length items ++ pivots.map made) ∧ Replaced group live items items.length pivots := by
  have nothing : ∀ key, ¬ Gone group live items 0 key := fun key ⟨_, impossible, _⟩ => absurd impossible (Nat.not_lt_zero _)
  have all : keptOf group live items 0 items = items := by
    simp only [keptOf, nothing, not_false_iff, decide_true, List.filter_true]
  have started : Replaced group live items 0 [] :=
    { distinct := List.nodup_nil
      gone := fun key => ⟨fun member => absurd member List.not_mem_nil, fun gone => absurd gone (nothing key)⟩
      live := fun _ member => absurd member List.not_mem_nil }
  have run := collapse_from madeGroup madeDead List.drop_zero (Nat.zero_le _) started
    (.inl ⟨by rw [List.take_zero, keptOf, List.filter_nil, List.length_nil], .inl rfl⟩)
  rw [all, List.map_nil, List.append_nil] at run
  exact run

end Run

end Collapse

end Etpan.Data
