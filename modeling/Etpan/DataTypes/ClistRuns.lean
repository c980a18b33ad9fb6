import Etpan.DataTypes.ClistChains

namespace Etpan.DataTypes

open Etpan.Data

/-! Programs of list operations: which runs keep every list as it should be. -/

open Lists

variable {ι α : Type} [DecidableEq ι]

/-- `iter` and `malloc` are NULL where they are `none`. -/
inductive ListOperation (ι α : Type) where
  | insertBefore (lst : ι) (iter : Option Nat) (data : α) (malloc : Option Nat)
  | insertAfter (lst : ι) (iter : Option Nat) (data : α) (malloc : Option Nat)
  | prepend (lst : ι) (data : α) (malloc : Option Nat)
  | append (lst : ι) (data : α) (malloc : Option Nat)
  | delete (lst : ι) (iter : Option Nat)
  | concat (dest src : ι)

namespace ListOperation

def step (s : Lists ι α) : ListOperation ι α → Lists ι α
  | insertBefore lst iter data malloc => (clistInsertBefore s lst iter data malloc).2
  | insertAfter lst iter data malloc => (clistInsertAfter s lst iter data malloc).2
  | prepend lst data malloc => (clistPrepend s lst data malloc).2
  | append lst data malloc => (clistAppend s lst data malloc).2
  | delete lst iter => (clistDelete s lst iter).2
  | concat dest src => clistConcat s dest src

end ListOperation

def IsIterator (s : Lists ι α) (lst : ι) (iter : Option Nat) : Prop :=
  ∀ cell, iter = some cell → ∃ chain, Follows s.links.next (s.list lst).first chain ∧ cell ∈ chain

/-- An allocation gives NULL or an address that is not in use. -/
def IsAllocation (s : Lists ι α) (malloc : Option Nat) : Prop := ∀ cell, malloc = some cell → s.cell cell = none

def INT_MAX : Int32 := 0x7fffffff

namespace ListOperation

def Legal (s : Lists ι α) : ListOperation ι α → Prop
  | insertBefore lst iter _ malloc | insertAfter lst iter _ malloc => IsIterator s lst iter ∧ IsAllocation s malloc
  | prepend _ _ malloc | append _ _ malloc => IsAllocation s malloc
  | delete lst iter => IsIterator s lst iter
  | concat _ _ => True

/-- A list that cells are taken from by clist_concat has none, and a list that gets a cell can count it. -/
def Safe (s : Lists ι α) : ListOperation ι α → Prop
  | insertBefore lst _ _ malloc | insertAfter lst _ _ malloc | prepend lst _ malloc | append lst _ malloc =>
      malloc.isSome → (s.list lst).count ≠ INT_MAX
  | delete _ _ => True
  | concat _ src => (s.list src).first = none

end ListOperation

/-- Forward and backward chains mirror each other, the counts are right and no cell is in two lists. -/
def Sound (s : Lists ι α) : Prop :=
  ∃ chain : ι → List Nat,
    (∀ i, Follows s.links.next (s.list i).first (chain i) ∧ Follows s.links.previous (s.list i).last (chain i).reverse ∧
      (chain i).Nodup ∧ (s.list i).count.toInt = (chain i).length) ∧
    ∀ i j cell, cell ∈ chain i → cell ∈ chain j → i = j

/-- The cells of the second list came behind those of the first, and it is a new list. -/
def Concatenated (s after : Lists ι α) (dest src : ι) : Prop :=
  ∀ front back, Follows s.links.next (s.list dest).first front → Follows s.links.next (s.list src).first back →
    Follows after.links.next (after.list dest).first (front ++ back) ∧ after.list src = clistNew

def ListOperation.Good (s : Lists ι α) (operation : ListOperation ι α) : Prop :=
  Sound (operation.step s) ∧ ∀ dest src, operation = concat dest src → Concatenated s (operation.step s) dest src

/-- The invariant of the runs: chains that the counts agree with. -/
def Held (s : Lists ι α) : Prop :=
  ∃ chain, Represents s chain ∧ ∀ i, (s.list i).count.toInt = (chain i).length

section

variable {s after : Lists ι α} {chain : ι → List Nat} {lst : ι} {iter malloc : Option Nat} {c : Nat} {data : α}
  {front back : List Nat}

omit [DecidableEq ι] in
theorem Represents.follows (represents : Represents s chain) (i : ι) : Follows s.links.next (s.list i).first (chain i) := by
  rw [(represents.heads i).first]
  exact (represents.segment i).follows_next

omit [DecidableEq ι] in
theorem Held.sound (held : Held s) : Sound s := by
  obtain ⟨chain, represents, counted⟩ := held
  refine ⟨chain, fun i => ⟨represents.follows i, ?_, represents.distinct i, counted i⟩, represents.apart⟩
  rw [(represents.heads i).last]
  exact (represents.segment i).follows_previous

omit [DecidableEq ι] in
theorem Represents.counted (represents : Represents s chain) (sound : Sound s) (i : ι) :
    (s.list i).count.toInt = (chain i).length := by
  obtain ⟨other, parts, _⟩ := sound
  obtain ⟨follows, _, _, count⟩ := parts i
  rw [count, (represents.follows i).unique follows]

omit [DecidableEq ι] in
theorem Represents.iterator (represents : Represents s chain) (isIterator : IsIterator s lst iter) :
    ∀ cell, iter = some cell → cell ∈ chain lst := by
  intro cell isCell
  obtain ⟨other, follows, member⟩ := isIterator cell isCell
  rwa [(represents.follows lst).unique follows]

theorem count_succ {count : Int32} : count ≠ INT_MAX ↔ (count + 1).toInt = count.toInt + 1 := by
  have most : INT_MAX.toInt = 2147483647 := rfl
  have one : (1 : Int32).toInt = 1 := rfl
  have upper := count.toInt_lt
  have lower := count.le_toInt
  have same : count = INT_MAX ↔ count.toInt = 2147483647 := by rw [← most, Int32.toInt_inj]
  rw [ne_eq, same, Int32.toInt_add, one]
  constructor
  · intro notMost
    rw [Int.bmod_eq_of_le (by omega) (by omega)]
  · intro exact isMost
    rw [isMost] at exact
    revert exact
    decide

theorem count_pred {count : Int32} (positive : 0 < count.toInt) : (count - 1).toInt = count.toInt - 1 := by
  have one : (1 : Int32).toInt = 1 := rfl
  have upper := count.toInt_lt
  rw [Int32.toInt_sub, one, Int.bmod_eq_of_le (by omega) (by omega)]

theorem Inserted.sound_iff (inserted : Inserted s after chain lst front back c)
    (counted : ∀ i, (s.list i).count.toInt = (chain i).length) :
    (Sound after ↔ (s.list lst).count ≠ INT_MAX) ∧ ((s.list lst).count ≠ INT_MAX → Held after) := by
  have length : (chain lst).length + 1 = (front ++ c :: back).length := by
    rw [inserted.parts]
    simp
    omega
  have holds : (s.list lst).count ≠ INT_MAX → Held after := by
    intro room
    refine ⟨_, inserted.represents, ?_⟩
    intro i
    by_cases same : i = lst
    · subst same
      rw [Function.update_self, inserted.count, count_succ.mp room, counted, ← length]
      rfl
    · rw [Function.update_of_ne same, inserted.others i same, counted]
  refine ⟨⟨?_, fun room => (holds room).sound⟩, holds⟩
  intro sound
  have count := inserted.represents.counted sound lst
  rw [Function.update_self, inserted.count, ← length] at count
  rw [count_succ, count, counted]
  rfl

theorem Deleted.held {cell : Nat} (deleted : Deleted s after chain lst front back cell)
    (counted : ∀ i, (s.list i).count.toInt = (chain i).length) : Held after := by
  refine ⟨_, deleted.represents, ?_⟩
  intro i
  by_cases same : i = lst
  · subst same
    have before := counted i
    rw [deleted.parts] at before
    simp only [List.length_append, List.length_cons] at before
    rw [Function.update_self, deleted.count, count_pred (by omega), before]
    simp only [List.length_append]
    omega
  · rw [Function.update_of_ne same, deleted.others i same, counted]

/-- An insertion is sound exactly where the count does not overflow. -/
theorem clistInsert_sound {link : Lists ι α → ι → Nat → Nat → Lists ι α} (into : LinksInto link) (held : Held s)
    (iterator : IsIterator s lst iter) (allocation : IsAllocation s malloc) :
    (Sound (clistInsert link s lst iter data malloc).2 ↔ (malloc.isSome → (s.list lst).count ≠ INT_MAX)) ∧
      ((malloc.isSome → (s.list lst).count ≠ INT_MAX) → Held (clistInsert link s lst iter data malloc).2) := by
  cases malloc with
  | none => exact ⟨⟨fun _ absent => (nomatch absent), fun _ => held.sound⟩, fun _ => held⟩
  | some c =>
      obtain ⟨chain, represents, counted⟩ := held
      obtain ⟨front, back, inserted⟩ :=
        @clistInsert_inserted _ _ _ lst c data _ into _ _ represents iter (allocation c rfl) (represents.iterator iterator)
      obtain ⟨exact, holds⟩ := inserted.sound_iff counted
      exact ⟨exact.trans ⟨fun room _ => room, fun room => room rfl⟩, fun room => holds (room rfl)⟩

omit [DecidableEq ι] in
theorem Held.ends (held : Held s) (lst : ι) : IsIterator s lst (s.list lst).first ∧ IsIterator s lst (s.list lst).last := by
  obtain ⟨chain, represents, _⟩ := held
  constructor
  · intro cell here
    rw [(represents.heads lst).first] at here
    exact ⟨chain lst, represents.follows lst, List.mem_of_mem_head? here⟩
  · intro cell here
    rw [(represents.heads lst).last] at here
    exact ⟨chain lst, represents.follows lst, List.mem_of_mem_getLast? here⟩

theorem clistDelete_held (held : Held s) (iterator : IsIterator s lst iter) : Held (clistDelete s lst iter).2 := by
  obtain ⟨chain, represents, counted⟩ := held
  cases iter with
  | none => exact ⟨chain, represents, counted⟩
  | some cell =>
      obtain ⟨front, back, deleted⟩ := clistDelete_deleted represents (represents.iterator iterator cell rfl)
      exact deleted.held counted

variable {dest src : ι}

theorem clistConcat_empty (held : Held s) (empty : (s.list src).first = none) :
    Held (clistConcat s dest src) ∧ Concatenated s (clistConcat s dest src) dest src := by
  obtain ⟨chain, represents, counted⟩ := held
  have nothing : chain src = [] := by
    have first := (represents.heads src).first
    rw [empty] at first
    exact List.head?_eq_none_iff.mp first.symm
  have count : (s.list src).count = 0 := by
    apply Int32.toInt_inj.mp
    rw [counted, nothing]
    rfl
  have header : s.list src = clistNew := by
    have last := (represents.heads src).last
    rw [nothing] at last
    rw [show s.list src = ⟨(s.list src).first, (s.list src).last, (s.list src).count⟩ from rfl, empty, last, count]
    rfl
  have same : clistConcat s dest src = s := by
    have destCount : s.setCount dest ((s.list dest).count + (s.list src).count) = s := by
      rw [count, Int32.add_zero]
      exact congrArg (Lists.mk s.cell) (Function.update_eq_self dest s.list)
    have srcHeader : (s.setFirst src none).setLast src none = s := by
      refine congrArg (Lists.mk s.cell) ?_
      simp only [list_setFirst, Function.update_self, Function.update_idem, header]
      exact (congrArg (Function.update s.list src) header.symm).trans (Function.update_eq_self src s.list)
    simp only [clistConcat, empty, destCount, srcHeader]
  rw [same]
  refine ⟨⟨chain, represents, counted⟩, ?_⟩
  intro front back follows none
  rw [empty] at none
  cases back with
  | nil => exact ⟨by rwa [List.append_nil], header⟩
  | cons cell rest => cases none.1

theorem clistConcat_nonempty (held : Held s) (nonempty : (s.list src).first ≠ none) :
    ¬Concatenated s (clistConcat s dest src) dest src := by
  obtain ⟨chain, represents, counted⟩ := held
  intro concatenated
  have after := (concatenated _ _ (represents.follows dest) (represents.follows src)).2
  have some : 0 < (chain src).length := by
    rw [(represents.heads src).first] at nonempty
    exact List.length_pos_iff.mpr fun nothing => nonempty (by rw [nothing]; rfl)
  have upper := (s.list src).count.toInt_lt
  have count := counted src
  by_cases differs : src = dest
  · subst differs
    have twice : ((clistConcat s src src).list src).count = (s.list src).count + (s.list src).count := by
      obtain ⟨first, here⟩ := Option.ne_none_iff_exists'.mp nonempty
      cases last : (s.list src).last <;> simp [clistConcat, here, last]
    rw [after] at twice
    have zero := congrArg Int32.toInt twice
    rw [Int32.toInt_add, count] at zero
    change (0 : Int) = _ at zero
    have divides := Int.dvd_of_bmod_eq_zero zero.symm
    omega
  · have stale := (clistConcat_represents represents differs).2.2.1
    rw [after] at stale
    have zero : (s.list src).count = 0 := (congrArg Clist.count stale).symm
    rw [zero] at count
    change (0 : Int) = _ at count
    omega

theorem ListOperation.good_iff (held : Held s) (operation : ListOperation ι α) (legal : operation.Legal s) :
    (operation.Good s ↔ operation.Safe s) ∧ (operation.Safe s → Held (operation.step s)) := by
  have alone : (∀ dest src, operation ≠ concat dest src) → (operation.Good s ↔ Sound (operation.step s)) := fun other =>
    ⟨fun good => good.1, fun sound => ⟨sound, fun dest src same => absurd same (other dest src)⟩⟩
  cases operation with
  | insertBefore lst iter data malloc =>
      obtain ⟨exact, holds⟩ := @clistInsert_sound _ _ _ s lst iter malloc data _ linkBefore_linksInto held legal.1 legal.2
      exact ⟨(alone fun _ _ => by simp).trans exact, holds⟩
  | insertAfter lst iter data malloc =>
      obtain ⟨exact, holds⟩ := @clistInsert_sound _ _ _ s lst iter malloc data _ linkAfter_linksInto held legal.1 legal.2
      exact ⟨(alone fun _ _ => by simp).trans exact, holds⟩
  | prepend lst data malloc =>
      obtain ⟨exact, holds⟩ :=
        @clistInsert_sound _ _ _ s lst _ malloc data _ linkBefore_linksInto held (held.ends lst).1 legal
      exact ⟨(alone fun _ _ => by simp).trans exact, holds⟩
  | append lst data malloc =>
      obtain ⟨exact, holds⟩ :=
        @clistInsert_sound _ _ _ s lst _ malloc data _ linkAfter_linksInto held (held.ends lst).2 legal
      exact ⟨(alone fun _ _ => by simp).trans exact, holds⟩
  | delete lst iter =>
      have kept := clistDelete_held held legal
      exact ⟨(alone fun _ _ => by simp).trans ⟨fun _ => trivial, fun _ => kept.sound⟩, fun _ => kept⟩
  | concat dest src =>
      refine ⟨⟨?_, ?_⟩, fun empty => (clistConcat_empty held empty).1⟩
      · intro good
        by_contra nonempty
        exact clistConcat_nonempty held nonempty (good.2 dest src rfl)
      · intro empty
        obtain ⟨kept, concatenated⟩ := @clistConcat_empty _ _ _ s dest src held empty
        refine ⟨kept.sound, ?_⟩
        rintro dest' src' ⟨⟩
        exact concatenated

omit [DecidableEq ι] in
theorem new_held : Held (Lists.new : Lists ι α) := by
  refine ⟨fun _ => [], ⟨fun _ => trivial, fun _ => ⟨rfl, rfl⟩, fun _ => List.nodup_nil, ?_⟩, fun _ => rfl⟩
  exact fun i j cell member => absurd member List.not_mem_nil

/-- In a program on new lists every state that is reached is sound exactly where no list with cells is the source of a
clist_concat and no count overflows. -/
theorem clistRun_sound_iff (operations : List (ListOperation ι α))
    (legal : EachStep (fun s operation => operation.step s) ListOperation.Legal Lists.new operations) :
    EachStep (fun s operation => operation.step s) ListOperation.Good Lists.new operations ↔
      EachStep (fun s operation => operation.step s) ListOperation.Safe Lists.new operations :=
  EachStep.iff_safe (fun _ operation held legal => (ListOperation.good_iff held operation legal).1)
    (fun _ operation held legal => (ListOperation.good_iff held operation legal).2) new_held legal

/-- One cell that is appended and deleted again. -/
theorem clistRun_sound_iff_deleted :
    let operations : List (ListOperation Bool Nat) := [.append false 5 (some 0), .delete false (some 0)]
    EachStep (fun s operation => operation.step s) ListOperation.Good Lists.new operations ↔
      EachStep (fun s operation => operation.step s) ListOperation.Safe Lists.new operations := by
  refine clistRun_sound_iff _ ⟨fun _ _ => rfl, ?_, trivial⟩
  rintro cell ⟨⟩
  exact ⟨[0], ⟨rfl, none, rfl, rfl⟩, List.mem_singleton_self 0⟩

/-- After a list of one cell was appended to another one, it is empty and its count is 1. -/
theorem clistRun_stale_count :
    let operations : List (ListOperation Bool Nat) := [.append true 5 (some 0), .concat false true]
    let after : Lists Bool Nat := operations.foldl (fun s operation => operation.step s) Lists.new
    (after.list true).first = none ∧ (after.list true).count = 1 ∧
      EachStep (fun s operation => operation.step s) ListOperation.Legal Lists.new operations ∧
      ¬EachStep (fun s operation => operation.step s) ListOperation.Good Lists.new operations := by
  intro operations after
  refine ⟨rfl, rfl, ⟨fun _ _ => rfl, trivial, trivial⟩, ?_⟩
  rintro ⟨_, good, _⟩
  have stale : (after.list true).count.toInt = 1 := rfl
  obtain ⟨chain, parts, _⟩ := good.1
  obtain ⟨follows, _, _, count⟩ := parts true
  cases here : chain true with
  | nil =>
      rw [here] at count
      exact absurd (stale.symm.trans count) (by decide)
  | cons cell rest =>
      rw [here] at follows
      cases follows.1

end

end Etpan.DataTypes
