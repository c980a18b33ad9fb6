import Mathlib

namespace Etpan.Data

/-! Comparison functions in the manner of the C library: the sign of the result is the order. -/

section Orders

variable {α : Type*} {compare exact first second : α → α → Int} {items : Set α}

structure Orders (compare : α → α → Int) (items : Set α) : Prop where
  antisymmetric : ∀ a ∈ items, ∀ b ∈ items, compare a b < 0 ↔ 0 < compare b a
  transitive : ∀ a ∈ items, ∀ b ∈ items, ∀ c ∈ items, compare a b ≤ 0 → compare b c ≤ 0 → compare a c ≤ 0

def Agree (compare exact : α → α → Int) (items : Set α) : Prop :=
  ∀ a ∈ items, ∀ b ∈ items, (compare a b).sign = (exact a b).sign

theorem sign_eq_iff {x y : Int} : x.sign = y.sign ↔ (x < 0 ↔ y < 0) ∧ (0 < x ↔ 0 < y) := by
  rcases lt_trichotomy x 0 with below | rfl | above
  · rw [Int.sign_eq_neg_one_of_neg below, eq_comm, Int.sign_eq_neg_one_iff_neg]
    omega
  · rw [Int.sign_zero, eq_comm, Int.sign_eq_zero_iff_zero]
    omega
  · rw [Int.sign_eq_one_of_pos above, eq_comm, Int.sign_eq_one_iff_pos]
    omega

theorem Orders.mono {larger : Set α} (orders : Orders compare larger) (subset : items ⊆ larger) :
    Orders compare items where
  antisymmetric a inA b inB := orders.antisymmetric a (subset inA) b (subset inB)
  transitive a inA b inB c inC := orders.transitive a (subset inA) b (subset inB) c (subset inC)

theorem Agree.symm (agree : Agree compare exact items) : Agree exact compare items :=
  fun a inA b inB => (agree a inA b inB).symm

theorem Agree.orders (agree : Agree compare exact items) (orders : Orders exact items) : Orders compare items where
  antisymmetric a inA b inB := by
    have forwards := sign_eq_iff.mp (agree a inA b inB)
    have backwards := sign_eq_iff.mp (agree b inB a inA)
    rw [forwards.1, backwards.2]
    exact orders.antisymmetric a inA b inB
  transitive a inA b inB c inC left right := by
    have ab := sign_eq_iff.mp (agree a inA b inB)
    have bc := sign_eq_iff.mp (agree b inB c inC)
    have ac := sign_eq_iff.mp (agree a inA c inC)
    have ordered := orders.transitive a inA b inB c inC (by omega) (by omega)
    omega

theorem Agree.orders_iff (agree : Agree compare exact items) : Orders compare items ↔ Orders exact items :=
  ⟨agree.symm.orders, agree.orders⟩

theorem Orders.zero_symm (orders : Orders compare items) {a b : α} (inA : a ∈ items) (inB : b ∈ items)
    (tied : compare a b = 0) : compare b a = 0 := by
  have forwards := orders.antisymmetric a inA b inB
  have backwards := orders.antisymmetric b inB a inA
  omega

theorem Orders.of_key {β : Type*} [LinearOrder β] (key : α → β)
    (below : ∀ a b, compare a b < 0 ↔ key a < key b) (above : ∀ a b, 0 < compare a b ↔ key b < key a) :
    Orders compare items where
  antisymmetric a _ b _ := by rw [below, above]
  transitive a _ b _ c _ left right := by
    have ab : key a ≤ key b := not_lt.mp fun greater => absurd ((above a b).mpr greater) (not_lt.mpr left)
    have bc : key b ≤ key c := not_lt.mp fun greater => absurd ((above b c).mpr greater) (not_lt.mpr right)
    exact not_lt.mp fun greater => absurd ((above a c).mp greater) (not_lt.mpr (ab.trans bc))

def lexCompare (first second : α → α → Int) (a b : α) : Int :=
  if first a b ≠ 0 then first a b else second a b

def tiedWith (first : α → α → Int) (items : Set α) (a : α) : Set α := {b ∈ items | first a b = 0}

theorem Orders.tied (orders : Orders first items) {a b c : α} (inA : a ∈ items)
    (inB : b ∈ tiedWith first items a) (inC : c ∈ tiedWith first items a) : first b c = 0 := by
  have ba := orders.zero_symm inA inB.1 inB.2
  have ca := orders.zero_symm inA inC.1 inC.2
  have bc := orders.transitive b inB.1 a inA c inC.1 (by omega) (by have := inC.2; omega)
  have cb := orders.transitive c inC.1 a inA b inB.1 (by omega) (by have := inB.2; omega)
  have opposite := orders.antisymmetric b inB.1 c inC.1
  omega

theorem orders_lexCompare_iff (orders : Orders first items) :
    Orders (lexCompare first second) items ↔ ∀ a ∈ items, Orders second (tiedWith first items a) := by
  constructor
  · intro whole a inA
    have decided : ∀ b ∈ tiedWith first items a, ∀ c ∈ tiedWith first items a,
        lexCompare first second b c = second b c := by
      intro b inB c inC
      rw [lexCompare, if_neg (not_not.mpr (orders.tied inA inB inC))]
    constructor
    · intro b inB c inC
      rw [← decided b inB c inC, ← decided c inC b inB]
      exact whole.antisymmetric b inB.1 c inC.1
    · intro b inB c inC d inD
      rw [← decided b inB c inC, ← decided c inC d inD, ← decided b inB d inD]
      exact whole.transitive b inB.1 c inC.1 d inD.1
  · intro classes
    constructor
    · intro a inA b inB
      rw [lexCompare, lexCompare]
      have forwards := orders.antisymmetric a inA b inB
      have backwards := orders.antisymmetric b inB a inA
      by_cases equal : first a b = 0
      · have aa : first a a = 0 := by
          have self := orders.antisymmetric a inA a inA
          omega
        rw [if_neg (not_not.mpr equal), if_neg (by omega)]
        exact (classes a inA).antisymmetric a ⟨inA, aa⟩ b ⟨inB, equal⟩
      · rw [if_pos equal, if_pos (by omega)]
        exact forwards
    · intro a inA b inB c inC left right
      have ab : first a b ≤ 0 := by
        by_cases equal : first a b = 0
        · omega
        · rwa [lexCompare, if_pos equal] at left
      have bc : first b c ≤ 0 := by
        by_cases equal : first b c = 0
        · omega
        · rwa [lexCompare, if_pos equal] at right
      have ac := orders.transitive a inA b inB c inC ab bc
      rw [lexCompare]
      by_cases equal : first a c = 0
      · have ca := orders.zero_symm inA inC equal
        have aa : first a a = 0 := by
          have self := orders.antisymmetric a inA a inA
          omega
        have ba := orders.transitive b inB c inC a inA bc (by omega)
        have backwards := orders.antisymmetric a inA b inB
        have tiedB : first a b = 0 := by omega
        have cb := orders.transitive c inC a inA b inB (by omega) (by omega)
        have opposite := orders.antisymmetric b inB c inC
        rw [if_neg (not_not.mpr equal)]
        rw [lexCompare, if_neg (not_not.mpr tiedB)] at left
        rw [lexCompare, if_neg (by omega)] at right
        exact (classes a inA).transitive a ⟨inA, aa⟩ b ⟨inB, tiedB⟩ c ⟨inC, equal⟩ left right
      · rwa [if_pos equal]

theorem agree_lexCompare_iff :
    Agree (lexCompare first second) (lexCompare first exact) items ↔
      ∀ a ∈ items, ∀ b ∈ items, first a b = 0 → (second a b).sign = (exact a b).sign := by
  refine forall₄_congr fun a inA b inB => ?_
  rw [lexCompare, lexCompare]
  by_cases equal : first a b = 0
  · simp only [equal, ne_eq, not_true_eq_false, if_false, forall_const]
  · simp only [equal, ne_eq, not_false_eq_true, if_true, false_implies]

end Orders

section Strings

def strcmp : List UInt8 → List UInt8 → Int
  | [], [] => 0
  | [], _ :: _ => -1
  | _ :: _, [] => 1
  | x :: xs, y :: ys => if x = y then strcmp xs ys else if x.toNat < y.toNat then -1 else 1

def octetNumbers (text : List UInt8) : List Nat := text.map UInt8.toNat

theorem octetNumbers_injective : Function.Injective octetNumbers :=
  List.map_injective_iff.mpr fun _ _ => UInt8.toNat_inj.mp

theorem strcmp_neg_iff (left right : List UInt8) : strcmp left right < 0 ↔ octetNumbers left < octetNumbers right := by
  fun_induction strcmp left right with
  | case1 => simp [octetNumbers]
  | case2 => simp [octetNumbers]
  | case3 => simp [octetNumbers]
  | case4 y xs ys ih => rw [ih]; simp [octetNumbers]
  | case5 x xs y ys differ below => simp [octetNumbers, List.cons_lt_cons_iff, below]
  | case6 x xs y ys differ above =>
      have apart : x.toNat ≠ y.toNat := fun same => differ (UInt8.toNat_inj.mp same)
      simp [octetNumbers, List.cons_lt_cons_iff, apart, not_lt.mp above]

theorem strcmp_swap (left right : List UInt8) : strcmp right left = - strcmp left right := by
  fun_induction strcmp left right with
  | case1 => rfl
  | case2 => rfl
  | case3 => rfl
  | case4 y xs ys ih => rw [strcmp, if_pos rfl, ih]
  | case5 x xs y ys differ below => rw [strcmp, if_neg (Ne.symm differ), if_neg (by omega), neg_neg]
  | case6 x xs y ys differ above =>
      have apart : x.toNat ≠ y.toNat := fun same => differ (UInt8.toNat_inj.mp same)
      rw [strcmp, if_neg (Ne.symm differ), if_pos (by omega)]

theorem strcmp_pos_iff (left right : List UInt8) : 0 < strcmp left right ↔ octetNumbers right < octetNumbers left := by
  rw [← strcmp_neg_iff, strcmp_swap left right]
  omega

theorem strcmp_eq_zero_iff (left right : List UInt8) : strcmp left right = 0 ↔ left = right := by
  have below := strcmp_neg_iff left right
  have above := strcmp_pos_iff left right
  constructor
  · intro equal
    refine octetNumbers_injective (le_antisymm (not_lt.mp fun greater => ?_) (not_lt.mp fun less => ?_))
    · exact absurd (above.mpr greater) (by omega)
    · exact absurd (below.mpr less) (by omega)
  · rintro rfl
    have irreflexive := lt_irrefl (octetNumbers left)
    have notBelow : ¬ strcmp left left < 0 := fun less => irreflexive (below.mp less)
    have notAbove : ¬ 0 < strcmp left left := fun less => irreflexive (above.mp less)
    omega

end Strings

section Cut

/-- A difference keeps its sign in the given number of low bits. -/
def KeepsSign (bits : Nat) (difference : Int) : Prop :=
  (0 < difference → 0 < difference % 2 ^ bits ∧ 2 * (difference % 2 ^ bits) < 2 ^ bits) ∧
    (difference < 0 → 2 ^ bits ≤ 2 * (difference % 2 ^ bits))

theorem bmod_sign_iff {bits : Nat} (some_bits : 0 < bits) (difference : Int) :
    (difference.bmod (2 ^ bits)).sign = difference.sign ↔ KeepsSign bits difference := by
  have even : ∃ half : Nat, 0 < half ∧ 2 ^ bits = 2 * half := by
    obtain ⟨fewer, rfl⟩ : ∃ fewer, bits = fewer + 1 := ⟨bits - 1, by omega⟩
    exact ⟨2 ^ fewer, by positivity, by rw [Nat.pow_succ, Nat.mul_comm]⟩
  obtain ⟨half, positive, twice⟩ := even
  have twice_int : (2 : Int) ^ bits = 2 * half := by exact_mod_cast twice
  rw [sign_eq_iff, KeepsSign, Int.bmod_def, twice, twice_int]
  push_cast
  have small := Int.emod_nonneg difference (b := 2 * (half : Int)) (by omega)
  have large := Int.emod_lt_of_pos difference (b := 2 * (half : Int)) (by omega)
  have zero : difference = 0 → difference % (2 * (half : Int)) = 0 := by
    rintro rfl
    exact Int.zero_emod _
  generalize difference % (2 * (half : Int)) = rest at *
  rcases lt_trichotomy difference 0 with below | none | above
  · split_ifs <;> omega
  · have := zero none
    split_ifs <;> omega
  · split_ifs <;> omega

end Cut

section Keyed

variable {α : Type*}

/-- The comparison of elements that all have an index and of which some have a date: by
the dates of two dated ones, else by the indices. -/
def keyedDifference (date : α → Option Int) (index : α → Int) (a b : α) : Int :=
  match date a, date b with
  | some first, some second => first - second
  | _, _ => index a - index b

/-- An element without a date lies between others only where their dates are in the order
of the indices. -/
def Separates (date : α → Option Int) (index : α → Int) (items : Set α) : Prop :=
  ∀ undated ∈ items, ∀ a ∈ items, ∀ b ∈ items, ∀ first second,
    date undated = none → date a = some first → date b = some second →
      index a ≤ index undated → index undated ≤ index b →
        first ≤ second ∧ (index a < index b → first < second)

variable {date : α → Option Int} {index : α → Int} {items : Set α}

theorem keyedDifference_dated {a b : α} {first second : Int} (datedA : date a = some first)
    (datedB : date b = some second) : keyedDifference date index a b = first - second := by
  rw [keyedDifference, datedA, datedB]

theorem keyedDifference_undated {a b : α} (undated : date a = none ∨ date b = none) :
    keyedDifference date index a b = index a - index b := by
  rw [keyedDifference]
  rcases undated with missing | missing
  · rw [missing]
  · rw [missing]
    cases date a <;> rfl

theorem keyedDifference_neg (a b : α) : keyedDifference date index a b = - keyedDifference date index b a := by
  rw [keyedDifference, keyedDifference]
  cases date a <;> cases date b <;> simp

theorem Orders.separates (orders : Orders (keyedDifference date index) items) : Separates date index items := by
  intro undated inU a inA b inB first second missing datedA datedB before after
  have au := @keyedDifference_undated _ date index a undated (Or.inr missing)
  have ub := @keyedDifference_undated _ date index undated b (Or.inl missing)
  have ab := @keyedDifference_dated _ date index _ _ _ _ datedA datedB
  have ordered := orders.transitive a inA undated inU b inB (by omega) (by omega)
  refine ⟨by omega, fun apart => ?_⟩
  by_contra reversed
  have ba := @keyedDifference_dated _ date index _ _ _ _ datedB datedA
  by_cases atA : index a = index undated
  · -- `b` is not after `a`, which is not after the one without a date
    have bu := @keyedDifference_undated _ date index b undated (Or.inr missing)
    have below := orders.transitive b inB a inA undated inU (by omega) (by omega)
    omega
  · have ua := @keyedDifference_undated _ date index undated a (Or.inl missing)
    have below := orders.transitive undated inU b inB a inA (by omega) (by omega)
    omega

theorem Separates.orders (separates : Separates date index items) :
    Orders (keyedDifference date index) items := by
  constructor
  · intro a inA b inB
    rw [keyedDifference_neg a b]
    omega
  · intro a inA b inB c inC left right
    cases datedA : date a with
    | none =>
        rw [keyedDifference_undated (Or.inl datedA)] at left ⊢
        cases datedB : date b with
        | none =>
            rw [keyedDifference_undated (Or.inl datedB)] at right
            omega
        | some second =>
            cases datedC : date c with
            | none =>
                rw [keyedDifference_undated (Or.inr datedC)] at right
                omega
            | some third =>
                rw [keyedDifference_dated datedB datedC] at right
                by_contra reversed
                have apart := separates a inA c inC b inB third second datedA datedC datedB (by omega) (by omega)
                have strict := apart.2 (by omega)
                omega
    | some first =>
        cases datedC : date c with
        | none =>
            rw [keyedDifference_undated (Or.inr datedC)] at right ⊢
            cases datedB : date b with
            | none =>
                rw [keyedDifference_undated (Or.inr datedB)] at left
                omega
            | some second =>
                rw [keyedDifference_dated datedA datedB] at left
                by_contra reversed
                have apart := separates c inC b inB a inA second first datedC datedB datedA (by omega) (by omega)
                have strict := apart.2 (by omega)
                omega
        | some third =>
            rw [keyedDifference_dated datedA datedC]
            cases datedB : date b with
            | none =>
                rw [keyedDifference_undated (Or.inr datedB)] at left
                rw [keyedDifference_undated (Or.inl datedB)] at right
                have apart := separates b inB a inA c inC first third datedB datedA datedC (by omega) (by omega)
                omega
            | some second =>
                rw [keyedDifference_dated datedA datedB] at left
                rw [keyedDifference_dated datedB datedC] at right
                omega

end Keyed

end Etpan.Data
