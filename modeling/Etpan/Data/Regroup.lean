import Mathlib

namespace Etpan.Data

/-! Splitting a sorted array into runs of equal elements, by a scan that fills the hole of
each element it takes with the last one of the array. -/

variable {α : Type*}

def lastFirst : List α → List α
  | [] => []
  | first :: rest => (first :: rest).getLast (List.cons_ne_nil first rest) :: (first :: rest).dropLast

@[simp] theorem lastFirst_length (array : List α) : (lastFirst array).length = array.length := by
  cases array <;> simp [lastFirst]

@[simp] theorem lastFirst_concat (array : List α) (last : α) : lastFirst (array ++ [last]) = last :: array := by
  cases array with
  | nil => rfl
  | cons first rest =>
      rw [List.cons_append, lastFirst]
      simp only [← List.cons_append, List.getLast_append_singleton, List.dropLast_concat]

theorem lastFirst_perm (array : List α) : (lastFirst array).Perm array := by
  rcases List.eq_nil_or_concat array with rfl | ⟨before, last, rfl⟩
  · exact List.Perm.refl []
  · rw [List.concat_eq_append, lastFirst_concat]
    exact (List.perm_append_singleton last before).symm

section Scan

variable (same : α → α → Bool)

/-- The threads that the scan makes of what is left of the array, `before` and `last` being
the elements of the current one. -/
def regroup (before : List α) (last : α) : List α → List (List α)
  | [] => [before ++ [last]]
  | next :: rest =>
      if same last next then regroup (before ++ [last]) next (lastFirst rest)
      else (before ++ [last]) :: regroup [] next rest
termination_by array => array.length

def scanThreads : List α → List (List α)
  | [] => []
  | first :: rest => regroup same [] first rest

structure Runs (runs : List (List α)) : Prop where
  nonempty : ∀ run ∈ runs, run ≠ []
  alike : ∀ run ∈ runs, run.Pairwise fun a b => same a b = true
  apart : runs.Pairwise fun left right => ∀ a ∈ left, ∀ b ∈ right, same a b = false

/-- Equal elements are in one thread, and each thread is in order. -/
structure WellSplit (le : α → α → Prop) (threads : List (List α)) : Prop where
  ordered : ∀ thread ∈ threads, thread.Pairwise le
  apart : threads.Pairwise fun left right => ∀ a ∈ left, ∀ b ∈ right, same a b = false

/-- No element comes after a later one: in a sorted list, all of them are tied. -/
def Tied (le : α → α → Prop) (list : List α) : Prop := list.Pairwise fun a b => le b a

/-- When the scan leaves the runs whole and in order: up to the first run of two or more
elements all is well.  Behind that one, its third element gets lost unless it is the last
run, and the last run loses its last element to the hole unless that is all of it. -/
def KeepsRuns (le : α → α → Prop) : List (List α) → Prop
  | [] => True
  | run :: rest =>
      if run.length ≤ 1 then KeepsRuns le rest
      else if rest = [] then Tied le (run.drop 2)
      else run.length = 2 ∧
        (((rest.getLast?).map List.length = some 1 ∧ KeepsRuns le rest.dropLast) ∨
          ∃ other, rest = [other] ∧ Tied le other)
termination_by runs => runs.length

variable {same} {le : α → α → Prop}

theorem regroup_perm (before : List α) (last : α) (array : List α) :
    (regroup same before last array).flatten.Perm (before ++ last :: array) := by
  fun_induction regroup same before last array with
  | case1 before last => simp
  | case2 before last next rest equal ih =>
      refine ih.trans ?_
      rw [List.append_assoc, List.singleton_append]
      exact (((lastFirst_perm rest).cons next).cons last).append_left before
  | case3 before last next rest differ ih =>
      rw [List.flatten_cons, List.append_assoc, List.singleton_append]
      exact (ih.cons last).append_left before

theorem scanThreads_perm (array : List α) : (scanThreads same array).flatten.Perm array := by
  cases array with
  | nil => exact List.Perm.refl []
  | cons first rest => exact regroup_perm [] first rest

theorem regroup_differs {before rest : List α} {last next : α} (differ : same last next = false) :
    regroup same before last (next :: rest) = (before ++ [last]) :: scanThreads same (next :: rest) := by
  rw [regroup, if_neg (by simp [differ]), scanThreads]

theorem regroup_equal {before rest : List α} {last next : α} (equal : same last next = true) :
    regroup same before last (next :: rest) = regroup same (before ++ [last]) next (lastFirst rest) := by
  rw [regroup, if_pos equal]

theorem regroup_alike (symmetric : ∀ a b, same a b = same b a) {array : List α} :
    ∀ (before : List α) (last : α), (last :: array).Pairwise (fun a b => same a b = true) →
      regroup same before last (lastFirst array) = [before ++ last :: array.reverse] := by
  induction array using List.reverseRecOn with
  | nil =>
      intro before last _
      rw [lastFirst, regroup, List.reverse_nil]
  | append_singleton array other ih =>
      intro before last alike
      rw [← List.cons_append, List.pairwise_append] at alike
      obtain ⟨inFront, _, across⟩ := alike
      have equal : same last other = true := across last (by simp) other (by simp)
      have others : (other :: array).Pairwise fun a b => same a b = true := by
        rw [List.pairwise_cons]
        refine ⟨fun a member => ?_, (List.pairwise_cons.mp inFront).2⟩
        rw [symmetric]
        exact across a (by simp [member]) other (by simp)
      rw [lastFirst_concat, regroup_equal equal, ih (before ++ [last]) other others]
      simp

theorem mem_scanThreads {array thread : List α} (isThread : thread ∈ scanThreads same array) {a : α} (member : a ∈ thread) :
    a ∈ array :=
  (scanThreads_perm array).subset (List.mem_flatten.mpr ⟨thread, isThread, member⟩)

theorem exists_scanThreads {array : List α} {a : α} (member : a ∈ array) : ∃ thread ∈ scanThreads same array, a ∈ thread := by
  simpa using (@scanThreads_perm α same array).symm.subset member

theorem wellSplit_cons {array thread : List α} (apart : ∀ a ∈ thread, ∀ b ∈ array, same a b = false) :
    WellSplit same le (thread :: scanThreads same array) ↔ thread.Pairwise le ∧ WellSplit same le (scanThreads same array) := by
  constructor
  · intro split
    exact ⟨split.ordered thread (by simp), fun other member => split.ordered other (by simp [member]),
      (List.pairwise_cons.mp split.apart).2⟩
  · rintro ⟨ordered, split⟩
    refine ⟨fun other member => ?_, List.pairwise_cons.mpr ⟨fun other member a inThread b inOther => ?_, split.apart⟩⟩
    · rcases List.mem_cons.mp member with rfl | later
      · exact ordered
      · exact split.ordered other later
    · exact apart a inThread b (mem_scanThreads member inOther)

theorem not_wellSplit_cons {array thread : List α} {a b : α} (inThread : a ∈ thread) (inArray : b ∈ array)
    (equal : same a b = true) : ¬ WellSplit same le (thread :: scanThreads same array) := by
  intro split
  obtain ⟨other, member, inOther⟩ := @exists_scanThreads α same _ _ inArray
  have differ := (List.pairwise_cons.mp split.apart).1 other member a inThread b inOther
  rw [equal] at differ
  cases differ

theorem Runs.tail {run : List α} {runs : List (List α)} (isRuns : Runs same (run :: runs)) : Runs same runs where
  nonempty other member := isRuns.nonempty other (by simp [member])
  alike other member := isRuns.alike other (by simp [member])
  apart := (List.pairwise_cons.mp isRuns.apart).2

theorem Runs.sublist {runs fewer : List (List α)} (isRuns : Runs same runs) (sublist : fewer.Sublist runs) :
    Runs same fewer where
  nonempty other member := isRuns.nonempty other (sublist.subset member)
  alike other member := isRuns.alike other (sublist.subset member)
  apart := isRuns.apart.sublist sublist

theorem Runs.differ {run : List α} {runs : List (List α)} (isRuns : Runs same (run :: runs)) :
    ∀ a ∈ run, ∀ b ∈ runs.flatten, same a b = false := by
  intro a inRun b inRuns
  obtain ⟨other, member, inOther⟩ := List.mem_flatten.mp inRuns
  exact (List.pairwise_cons.mp isRuns.apart).1 other member a inRun b inOther

theorem regroup_apart {before array : List α} {last : α} (differ : ∀ b ∈ array, same last b = false) :
    regroup same before last array = (before ++ [last]) :: scanThreads same array := by
  cases array with
  | nil => rw [regroup, scanThreads]
  | cons next rest => exact regroup_differs (differ next (by simp))

theorem wellSplit_nil : WellSplit same le [] := ⟨by simp, List.Pairwise.nil⟩

theorem wellSplit_singleton (thread : List α) : WellSplit same le [thread] ↔ thread.Pairwise le :=
  ⟨fun split => split.ordered thread (by simp), fun ordered => ⟨by simpa using ordered, List.pairwise_singleton _ _⟩⟩

/-- The last run is taken whole, behind its second element from the end. -/
theorem wellSplit_run (symmetric : ∀ a b, same a b = same b a) {a b : α} {others : List α}
    (alike : (a :: b :: others).Pairwise fun a b => same a b = true) (sorted : (a :: b :: others).Pairwise le) :
    WellSplit same le (scanThreads same (a :: b :: others)) ↔ Tied le others := by
  obtain ⟨first, rest⟩ := List.pairwise_cons.mp alike
  obtain ⟨firstBelow, restSorted⟩ := List.pairwise_cons.mp sorted
  obtain ⟨secondBelow, othersSorted⟩ := List.pairwise_cons.mp restSorted
  rw [scanThreads, regroup_equal (first b (by simp)), regroup_alike symmetric _ _ rest, wellSplit_singleton, List.nil_append,
    List.singleton_append, List.pairwise_cons, List.pairwise_cons, List.pairwise_reverse]
  constructor
  · intro ordered
    exact ordered.2.2
  · intro tied
    refine ⟨fun c member => firstBelow c ?_, fun c member => secondBelow c (List.mem_reverse.mp member), tied⟩
    rcases List.mem_cons.mp member with rfl | later
    · exact List.mem_cons_self
    · exact List.mem_cons_of_mem _ (List.mem_reverse.mp later)

theorem wellSplit_moved (symmetric : ∀ a b, same a b = same b a) {first last : α} {middle : List α}
    (alike : (first :: middle ++ [last]).Pairwise fun a b => same a b = true) (sorted : (first :: middle ++ [last]).Pairwise le)
    (trans : ∀ a ∈ first :: middle ++ [last], ∀ b ∈ first :: middle ++ [last], ∀ c ∈ first :: middle ++ [last],
      le a b → le b c → le a c) :
    WellSplit same le (scanThreads same (last :: first :: middle)) ↔ Tied le (first :: middle ++ [last]) := by
  obtain ⟨_, _, across⟩ := List.pairwise_append.mp alike
  obtain ⟨inFront, _, below⟩ := List.pairwise_append.mp sorted
  have moved : (last :: first :: middle).Pairwise fun a b => same a b = true := by
    refine List.pairwise_cons.mpr ⟨fun a member => ?_, (List.pairwise_append.mp alike).1⟩
    rw [symmetric]
    exact across a member last (by simp)
  obtain ⟨firstAlike, rest⟩ := List.pairwise_cons.mp moved
  obtain ⟨firstBelow, middleSorted⟩ := List.pairwise_cons.mp inFront
  rw [scanThreads, regroup_equal (firstAlike first (by simp)), regroup_alike symmetric _ _ rest, wellSplit_singleton,
    List.nil_append, List.singleton_append, List.pairwise_cons, List.pairwise_cons, List.pairwise_reverse, Tied,
    List.pairwise_append, List.pairwise_cons]
  constructor
  · rintro ⟨lastBelow, _, tied⟩
    have lastFirst : le last first := lastBelow first (by simp)
    refine ⟨⟨fun a member => ?_, tied⟩, List.pairwise_singleton _ _, fun a member b isLast => ?_⟩
    · -- an element of the middle is not after the last one, which is not after the first
      exact trans a (by simp [member]) last (by simp) first (by simp)
        (below a (List.mem_cons_of_mem _ member) last (by simp)) lastFirst
    · rw [List.mem_singleton] at isLast
      subst b
      rcases List.mem_cons.mp member with rfl | inMiddle
      · exact lastFirst
      · exact lastBelow a (List.mem_cons_of_mem _ (List.mem_reverse.mpr inMiddle))
  · rintro ⟨⟨_, tied⟩, _, lastBelow⟩
    refine ⟨fun a member => ?_, fun a member => firstBelow a (List.mem_reverse.mp member), tied⟩
    rcases List.mem_cons.mp member with rfl | inMiddle
    · exact lastBelow a (by simp) last (by simp)
    · exact lastBelow a (List.mem_cons_of_mem _ (List.mem_reverse.mp inMiddle)) last (by simp)

theorem keepsRuns_single {a : α} {rest : List (List α)} : KeepsRuns le ([a] :: rest) ↔ KeepsRuns le rest := by
  rw [KeepsRuns, if_pos (by simp)]

theorem keepsRuns_last {a b : α} {others : List α} : KeepsRuns le [a :: b :: others] ↔ Tied le others := by
  rw [KeepsRuns, if_neg (by simp), if_pos rfl]
  rfl

theorem keepsRuns_concat {a b : α} {others last : List α} {front : List (List α)} :
    KeepsRuns le ((a :: b :: others) :: (front ++ [last])) ↔
      others = [] ∧ ((last.length = 1 ∧ KeepsRuns le front) ∨ (front = [] ∧ Tied le last)) := by
  rw [KeepsRuns, if_neg (by simp), if_neg (by simp)]
  refine and_congr (by simp) (or_congr (by simp) ?_)
  constructor
  · rintro ⟨other, same, tied⟩
    cases front with
    | nil =>
        cases same
        exact ⟨rfl, tied⟩
    | cons first rest => simp at same
  · rintro ⟨rfl, tied⟩
    exact ⟨last, rfl, tied⟩

/-- The scan of an array behind its first run of two elements, when another run follows. -/
theorem scanThreads_pair {a b last : α} {others array : List α} (equal : same a b = true) (differ : same b last = false) :
    scanThreads same (a :: b :: (others ++ (array ++ [last]))) = [a, b] :: scanThreads same (last :: (others ++ array)) := by
  rw [scanThreads, regroup_equal equal, ← List.append_assoc, lastFirst_concat, regroup_differs differ]
  rfl

/-- An array of runs whose last element has moved to the front. -/
theorem wellSplit_lastMoved (symmetric : ∀ a b, same a b = same b a) {front : List (List α)} {init : List α} {moved : α}
    (isRuns : Runs same (front ++ [init ++ [moved]])) (sorted : (front ++ [init ++ [moved]]).flatten.Pairwise le)
    (trans : ∀ a ∈ (front ++ [init ++ [moved]]).flatten, ∀ b ∈ (front ++ [init ++ [moved]]).flatten,
      ∀ c ∈ (front ++ [init ++ [moved]]).flatten, le a b → le b c → le a c)
    (others : WellSplit same le (scanThreads same front.flatten) ↔ KeepsRuns le front) :
    WellSplit same le (scanThreads same (moved :: (front.flatten ++ init))) ↔
      ((init ++ [moved]).length = 1 ∧ KeepsRuns le front) ∨ (front = [] ∧ Tied le (init ++ [moved])) := by
  have alike := isRuns.alike (init ++ [moved]) (by simp)
  have apart : ∀ x ∈ front.flatten, same moved x = false := by
    intro x member
    obtain ⟨run, inFront, inRun⟩ := List.mem_flatten.mp member
    rw [symmetric]
    exact (List.pairwise_append.mp isRuns.apart).2.2 run inFront (init ++ [moved]) (by simp) x inRun moved (by simp)
  cases init with
  | nil =>
      rw [List.append_nil, scanThreads, regroup_apart apart, List.nil_append, wellSplit_cons (by simpa using apart), others]
      constructor
      · rintro ⟨_, keeps⟩
        exact Or.inl ⟨rfl, keeps⟩
      · rintro (⟨_, keeps⟩ | ⟨rfl, _⟩)
        · exact ⟨List.pairwise_singleton _ _, keeps⟩
        · exact ⟨List.pairwise_singleton _ _, by rw [KeepsRuns]; trivial⟩
  | cons first middle =>
      have long : ¬ (first :: middle ++ [moved]).length = 1 := by simp
      rw [or_iff_right fun both => long both.1]
      cases front with
      | nil =>
          simp only [List.nil_append, List.flatten_cons, List.flatten_nil, List.append_nil] at sorted trans ⊢
          rw [wellSplit_moved symmetric alike sorted trans, true_and]
      | cons run rest =>
          -- the element of another run stands between the moved one and those equal to it
          obtain ⟨head, tail, rfl⟩ := List.exists_cons_of_ne_nil (isRuns.nonempty run (by simp))
          have equal : same moved first = true := by
            rw [symmetric]
            exact (List.pairwise_append.mp alike).2.2 first (by simp) moved (by simp)
          have array : ((head :: tail) :: rest).flatten ++ first :: middle = head :: (tail ++ rest.flatten ++ first :: middle) := by
            simp
          rw [array, scanThreads, regroup_differs (apart head (by simp)), List.nil_append]
          have lost := @not_wellSplit_cons _ same le (head :: (tail ++ rest.flatten ++ first :: middle)) _ _ _
            (show moved ∈ [moved] by simp) (show first ∈ _ by simp) equal
          exact iff_of_false lost (by simp)

theorem wellSplit_scanThreads_iff (symmetric : ∀ a b, same a b = same b a) {runs : List (List α)} (isRuns : Runs same runs)
    (sorted : runs.flatten.Pairwise le)
    (trans : ∀ a ∈ runs.flatten, ∀ b ∈ runs.flatten, ∀ c ∈ runs.flatten, le a b → le b c → le a c) :
    WellSplit same le (scanThreads same runs.flatten) ↔ KeepsRuns le runs := by
  induction size : runs.length using Nat.strong_induction_on generalizing runs with
  | _ length ih =>
  cases runs with
  | nil => simp [scanThreads, KeepsRuns, wellSplit_nil]
  | cons run rest =>
      have differ := isRuns.differ
      have alike := isRuns.alike run (by simp)
      rw [List.flatten_cons] at sorted trans ⊢
      have restSorted := (List.pairwise_append.mp sorted).2.1
      have runSorted := (List.pairwise_append.mp sorted).1
      have restTrans : ∀ x ∈ rest.flatten, ∀ y ∈ rest.flatten, ∀ z ∈ rest.flatten, le x y → le y z → le x z :=
        fun x inX y inY z inZ => trans x (List.mem_append_right _ inX) y (List.mem_append_right _ inY) z
          (List.mem_append_right _ inZ)
      match run, isRuns.nonempty run (by simp) with
      | [a], _ =>
          have here := ih rest.length (by simp [← size]) isRuns.tail restSorted restTrans rfl
          rw [keepsRuns_single, ← here, List.singleton_append, scanThreads, regroup_apart (differ a (by simp)),
            List.nil_append, wellSplit_cons (by simpa using differ a (by simp))]
          simp
      | a :: b :: others, _ =>
          rcases List.eq_nil_or_concat rest with rfl | ⟨front, last, rfl⟩
          · rw [List.flatten_nil, List.append_nil, keepsRuns_last]
            exact wellSplit_run symmetric alike runSorted
          · rw [List.concat_eq_append] at isRuns differ sorted trans restSorted restTrans size ⊢
            obtain ⟨init, moved, rfl⟩ : ∃ init moved, last = init ++ [moved] := by
              rcases List.eq_nil_or_concat last with rfl | ⟨init, moved, rfl⟩
              · exact absurd rfl (isRuns.nonempty [] (by simp))
              · exact ⟨init, moved, List.concat_eq_append⟩
            have lastAlike := isRuns.alike (init ++ [moved]) (by simp)
            have array : (a :: b :: others) ++ (front ++ [init ++ [moved]]).flatten =
                a :: b :: (others ++ ((front.flatten ++ init) ++ [moved])) := by simp
            have equal : same a b = true := (List.pairwise_cons.mp alike).1 b (by simp)
            have kept : (moved :: (front.flatten ++ init)).Perm (front ++ [init ++ [moved]]).flatten := by
              rw [List.flatten_append, List.flatten_singleton, ← List.append_assoc]
              exact (List.perm_append_singleton moved _).symm
            have apart : ∀ x ∈ a :: b :: others, ∀ y ∈ moved :: (front.flatten ++ init), same x y = false :=
              fun x inRun y inRest => differ x inRun y (kept.subset inRest)
            rw [array, scanThreads_pair equal (apart b (by simp) moved (by simp)), keepsRuns_concat]
            cases others with
            | cons c more =>
                -- the third element of the run is behind another one now
                have lost := @not_wellSplit_cons _ same le (moved :: (c :: more ++ (front.flatten ++ init))) _ _ _
                  (show a ∈ [a, b] by simp) (show c ∈ _ by simp) ((List.pairwise_cons.mp alike).1 c (by simp))
                exact iff_of_false lost (by simp)
            | nil =>
                rw [List.nil_append, wellSplit_cons fun x inRun y inRest => apart x inRun y inRest, and_iff_right runSorted,
                  and_iff_right rfl]
                have frontSorted := (List.pairwise_append.mp (List.flatten_append ▸ restSorted)).1
                have inFront : ∀ x ∈ front.flatten, x ∈ (front ++ [init ++ [moved]]).flatten := fun x member => by
                  rw [List.flatten_append]
                  exact List.mem_append_left _ member
                have here := ih front.length (by simp only [← size, List.length_cons, List.length_append, List.length_nil]; omega) (isRuns.tail.sublist (List.sublist_append_left _ _))
                  frontSorted (fun x inX y inY z inZ => restTrans x (inFront x inX) y (inFront y inY) z (inFront z inZ)) rfl
                exact wellSplit_lastMoved symmetric isRuns.tail restSorted restTrans here

theorem regroup_threads (transitive : ∀ a b c, same a b = true → same b c = true → same a c = true)
    (before : List α) (last : α) (array : List α) (alike : (before ++ [last]).Pairwise fun a b => same a b = true) :
    ∀ thread ∈ regroup same before last array, thread.Pairwise fun a b => same a b = true := by
  fun_induction regroup same before last array with
  | case1 before last => simpa using alike
  | case2 before last next rest equal ih =>
      refine ih (List.pairwise_append.mpr ⟨alike, List.pairwise_singleton _ _, fun a member b isNext => ?_⟩)
      rw [List.mem_singleton.mp isNext]
      rcases List.mem_append.mp member with early | atEnd
      · exact transitive a last next ((List.pairwise_append.mp alike).2.2 a early last (by simp)) equal
      · rwa [List.mem_singleton.mp atEnd]
  | case3 before last next rest differ ih =>
      intro thread member
      rcases List.mem_cons.mp member with rfl | later
      · exact alike
      · exact ih (List.pairwise_singleton _ _) thread later

theorem scanThreads_threads (transitive : ∀ a b c, same a b = true → same b c = true → same a c = true) (array : List α) :
    ∀ thread ∈ scanThreads same array, thread.Pairwise fun a b => same a b = true := by
  cases array with
  | nil => simp [scanThreads]
  | cons first rest => exact regroup_threads transitive [] first rest (List.pairwise_singleton _ _)

theorem apart_iff (symmetric : ∀ a b, same a b = same b a) {threads : List (List α)} (nodup : threads.flatten.Nodup) :
    (threads.Pairwise fun left right => ∀ a ∈ left, ∀ b ∈ right, same a b = false) ↔
      ∀ a ∈ threads.flatten, ∀ b ∈ threads.flatten, a ≠ b → same a b = true → ∃ thread ∈ threads, a ∈ thread ∧ b ∈ thread := by
  have disjoint := (List.nodup_flatten.mp nodup).2
  constructor
  · intro apart a inA b inB _ equal
    obtain ⟨left, isLeft, inLeft⟩ := List.mem_flatten.mp inA
    obtain ⟨right, isRight, inRight⟩ := List.mem_flatten.mp inB
    by_cases one : left = right
    · exact ⟨left, isLeft, inLeft, one ▸ inRight⟩
    · have both : Std.Symm fun left right : List α => ∀ a ∈ left, ∀ b ∈ right, same a b = false :=
        ⟨fun left right differ a inRight b inLeft => by rw [symmetric]; exact differ b inLeft a inRight⟩
      have differ := apart.forall isLeft isRight one a inLeft b inRight
      rw [equal] at differ
      cases differ
  · intro together
    refine disjoint.imp_of_mem fun {left right} isLeft isRight different a inLeft b inRight => ?_
    by_contra equal
    rw [Bool.not_eq_false] at equal
    have distinct : a ≠ b := fun one => different inLeft (one ▸ inRight)
    obtain ⟨thread, isThread, hasA, hasB⟩ := together a (List.mem_flatten.mpr ⟨left, isLeft, inLeft⟩) b
      (List.mem_flatten.mpr ⟨right, isRight, inRight⟩) distinct equal
    have one : thread = left := by
      by_contra another
      have both : Std.Symm (List.Disjoint (α := α)) := ⟨fun _ _ disjoint _ inRight inLeft => disjoint inLeft inRight⟩
      exact disjoint.forall isThread isLeft another hasA inLeft
    exact different (one ▸ hasB) inRight

/-- What stands between equal elements of a sorted array equals them. -/
def Convex (same : α → α → Bool) (le : α → α → Prop) (array : List α) : Prop :=
  ∀ a ∈ array, ∀ b ∈ array, ∀ c ∈ array, le a b → le b c → same a c = true → same a b = true ∧ same b c = true

theorem runs_apart {runs : List (List α)} (nonempty : [] ∉ runs)
    (breaks : runs.IsChain fun left right => ∃ hLeft hRight, same (left.getLast hLeft) (right.head hRight) = false)
    (sorted : runs.flatten.Pairwise le) (convex : Convex same le runs.flatten) :
    runs.Pairwise fun left right => ∀ a ∈ left, ∀ b ∈ right, same a b = false := by
  induction runs with
  | nil => exact List.Pairwise.nil
  | cons left rest ih =>
      rw [List.flatten_cons] at sorted convex
      obtain ⟨leftSorted, restSorted, across⟩ := List.pairwise_append.mp sorted
      refine List.pairwise_cons.mpr ⟨fun right isRight x inLeft y inRight => ?_,
        ih (fun member => nonempty (by simp [member])) breaks.tail restSorted
          fun a inA b inB c inC => convex a (List.mem_append_right _ inA) b (List.mem_append_right _ inB) c
            (List.mem_append_right _ inC)⟩
      by_contra equal
      rw [Bool.not_eq_false] at equal
      obtain ⟨next, others, rfl⟩ := List.exists_cons_of_ne_nil (List.ne_nil_of_mem isRight)
      obtain ⟨⟨hLeft, hNext, differ⟩, _⟩ := List.isChain_cons_cons.mp breaks
      obtain ⟨init, last, rfl⟩ : ∃ init last, left = init ++ [last] :=
        ⟨left.dropLast, left.getLast hLeft, (List.dropLast_append_getLast hLeft).symm⟩
      obtain ⟨head, tail, rfl⟩ := List.exists_cons_of_ne_nil hNext
      have inFlatten : y ∈ ((head :: tail) :: others).flatten := List.mem_flatten.mpr ⟨right, isRight, inRight⟩
      simp only [List.getLast_append_singleton, List.head_cons] at differ
      have fromLast : same last y = true := by
        rcases List.mem_append.mp inLeft with early | atEnd
        · have below : le x last := (List.pairwise_append.mp leftSorted).2.2 x early last (by simp)
          exact (convex x (List.mem_append_left _ inLeft) last (by simp) y (List.mem_append_right _ inFlatten) below
            (across last (by simp) y inFlatten) equal).2
        · rwa [List.mem_singleton.mp atEnd] at equal
      have toHead : same last head = true := by
        rw [List.flatten_cons, List.cons_append] at inFlatten restSorted
        rcases List.mem_cons.mp inFlatten with rfl | later
        · exact fromLast
        · exact (convex last (by simp) head (by simp) y (by simp at later ⊢; tauto)
            (across last (by simp) head (by simp)) ((List.pairwise_cons.mp restSorted).1 y later) fromLast).1
      rw [differ] at toHead
      cases toHead

/-- The runs of a sorted array are whole. -/
theorem runs_splitBy {array : List α} (transitive : ∀ a b c, same a b = true → same b c = true → same a c = true)
    (sorted : array.Pairwise le) (convex : Convex same le array) : Runs same (array.splitBy same) where
  nonempty run member := List.ne_nil_of_mem_splitBy member
  alike run member := by
    have chain := List.isChain_of_mem_splitBy member
    have trans : IsTrans α fun a b => same a b = true := ⟨transitive⟩
    exact List.isChain_iff_pairwise.mp chain
  apart := runs_apart (List.nil_notMem_splitBy same array) (List.isChain_getLast_head_splitBy same array)
    (by rwa [List.flatten_splitBy]) (by rwa [List.flatten_splitBy])

end Scan

end Etpan.Data
