import Mathlib

namespace Etpan.Data

/-! Doubly linked chains in memory.

A live cell is known by where its two links lead, to the cell before it and to the one behind;
`none` is a null link. -/

variable {ι : Type}

abbrev Links (ι : Type) := ι → Option (Option ι × Option ι)

def Follows (follow : ι → Option (Option ι)) : Option ι → List ι → Prop
  | start, [] => start = none
  | start, cell :: rest => start = some cell ∧ ∃ next, follow cell = some next ∧ Follows follow next rest

def Links.previous (links : Links ι) (cell : ι) : Option (Option ι) := (links cell).map Prod.fst
def Links.next (links : Links ι) (cell : ι) : Option (Option ι) := (links cell).map Prod.snd

/-- Cells that are linked both ways, with the links that lead out of them on either side. -/
def Segment (links : Links ι) (before : Option ι) : List ι → Option ι → Prop
  | [], _ => True
  | cell :: rest, behind =>
      links cell = some (before, rest.head?.or behind) ∧ Segment links (some cell) rest behind

variable {links after : Links ι} {before behind target : Option ι} {cells front back : List ι} {cell : ι}

theorem Segment.frame (segment : Segment links before cells behind) (same : ∀ cell ∈ cells, after cell = links cell) :
    Segment after before cells behind := by
  induction cells generalizing before with
  | nil => trivial
  | cons cell rest ih =>
      exact ⟨(same cell List.mem_cons_self).trans segment.1,
        ih segment.2 fun other member => same other (List.mem_cons_of_mem cell member)⟩

theorem segment_append : Segment links before (front ++ back) behind ↔
    Segment links before front (back.head?.or behind) ∧ Segment links (front.getLast?.or before) back behind := by
  induction front generalizing before with
  | nil => simp [Segment]
  | cons cell rest ih =>
      have head : (rest ++ back).head?.or behind = rest.head?.or (back.head?.or behind) := by
        rw [List.head?_append, Option.or_assoc]
      have last : (cell :: rest).getLast?.or before = rest.getLast?.or (some cell) := by
        cases rest with
        | nil => rfl
        | cons other rest => simp [List.getLast?_eq_getLast_of_ne_nil]
      simp only [List.cons_append, Segment, head, last, ih, and_assoc]

theorem Segment.live (segment : Segment links before cells behind) (member : cell ∈ cells) : links cell ≠ none := by
  induction cells generalizing before with
  | nil => cases member
  | cons first rest ih =>
      rcases List.mem_cons.mp member with rfl | later
      · rw [segment.1]
        exact Option.some_ne_none _
      · exact ih segment.2 later

theorem Segment.follows_next (segment : Segment links before cells none) : Follows links.next cells.head? cells := by
  induction cells generalizing before with
  | nil => rfl
  | cons cell rest ih =>
      refine ⟨rfl, rest.head?, ?_, ih segment.2⟩
      rw [Links.next, segment.1, Option.or_none]
      rfl

theorem Segment.follows_previous (segment : Segment links none cells behind) :
    Follows links.previous cells.getLast? cells.reverse := by
  induction cells using List.reverseRecOn generalizing behind with
  | nil => rfl
  | append_singleton front last ih =>
      obtain ⟨left, here, _⟩ := segment_append.mp segment
      rw [List.getLast?_concat, List.reverse_concat]
      refine ⟨rfl, front.getLast?, ?_, ih left⟩
      rw [Links.previous, here, Option.or_none]
      rfl

theorem Follows.unique {follow : ι → Option (Option ι)} {start : Option ι} {other : List ι}
    (one : Follows follow start cells) (two : Follows follow start other) : cells = other := by
  induction cells generalizing start other with
  | nil =>
      cases other with
      | nil => rfl
      | cons cell rest => cases one.symm.trans two.1
  | cons cell rest ih =>
      obtain ⟨rfl, next, followed, further⟩ := one
      cases other with
      | nil => cases two
      | cons cell' rest' =>
          obtain ⟨same, next', followed', further'⟩ := two
          cases same
          cases followed.symm.trans followed'
          rw [ih further further']

section

variable [DecidableEq ι]

/-- A null pointer has no cell to change. -/
def setPrevious (links : Links ι) : Option ι → Option ι → Links ι
  | none, _ => links
  | some cell, target => Function.update links cell ((links cell).map fun old => (target, old.2))

def setNext (links : Links ι) : Option ι → Option ι → Links ι
  | none, _ => links
  | some cell, target => Function.update links cell ((links cell).map fun old => (old.1, target))

theorem setPrevious_of_ne (apart : before ≠ some cell) : setPrevious links before target cell = links cell := by
  cases before with
  | none => rfl
  | some changed => exact Function.update_of_ne (fun same => apart (congrArg some same.symm)) _ _

theorem setNext_of_ne (apart : before ≠ some cell) : setNext links before target cell = links cell := by
  cases before with
  | none => rfl
  | some changed => exact Function.update_of_ne (fun same => apart (congrArg some same.symm)) _ _

theorem setPrevious_other (apart : ∀ cell, before = some cell → cell ∉ cells) :
    ∀ cell ∈ cells, setPrevious links before target cell = links cell := by
  exact fun cell member => setPrevious_of_ne fun here => apart cell here member

theorem setNext_other (apart : ∀ cell, before = some cell → cell ∉ cells) :
    ∀ cell ∈ cells, setNext links before target cell = links cell := by
  exact fun cell member => setNext_of_ne fun here => apart cell here member

theorem Segment.setPrevious (segment : Segment links before cells behind) (distinct : cells.Nodup) :
    Segment (setPrevious links cells.head? target) target cells behind := by
  cases cells with
  | nil => trivial
  | cons cell rest =>
      refine ⟨?_, segment.2.frame (setPrevious_other ?_)⟩
      · change Function.update links cell _ cell = _
        rw [Function.update_self, segment.1]
        rfl
      · rintro other ⟨⟩
        exact (List.nodup_cons.mp distinct).1

theorem Segment.setNext (segment : Segment links before cells behind) (distinct : cells.Nodup) :
    Segment (setNext links cells.getLast? target) before cells target := by
  rcases List.eq_nil_or_concat cells with rfl | ⟨front, last, rfl⟩
  · trivial
  · rw [List.concat_eq_append, List.nodup_append] at distinct
    have apart : ∀ cell, some last = some cell → cell ∉ front := by
      rintro cell ⟨⟩ member
      exact distinct.2.2 last member last (List.mem_singleton_self last) rfl
    rw [List.concat_eq_append, segment_append] at segment
    rw [List.concat_eq_append, List.getLast?_concat, segment_append]
    refine ⟨segment.1.frame (setNext_other apart), ?_, trivial⟩
    have old := segment.2.1
    change Function.update links last _ last = _
    rw [Function.update_self, old]
    rfl

theorem Segment.join (left : Segment links none front before) (right : Segment links behind back none)
    (distinct : (front ++ back).Nodup) :
    Segment (Data.setPrevious (Data.setNext links front.getLast? back.head?) back.head? front.getLast?) none
      (front ++ back) none := by
  obtain ⟨leftDistinct, rightDistinct, apart⟩ := List.nodup_append.mp distinct
  have headApart : ∀ cell, back.head? = some cell → cell ∉ front := fun cell first member =>
    apart cell member cell (List.mem_of_mem_head? first) rfl
  have lastApart : ∀ cell, front.getLast? = some cell → cell ∉ back := fun cell last member =>
    apart cell (List.mem_of_mem_getLast? last) cell member rfl
  rw [segment_append, Option.or_none, Option.or_none]
  exact ⟨(left.setNext leftDistinct).frame (setPrevious_other headApart),
    (right.frame (setNext_other lastApart)).setPrevious rightDistinct⟩

/-- The links after a new cell got between the ends of two chains. -/
def insertLinks (links : Links ι) (front : Option ι) (cell : ι) (back : Option ι) : Links ι :=
  setNext (setPrevious (Function.update links cell (some (front, back))) back (some cell)) front (some cell)

theorem insertLinks_of_ne {other : ι} (notFront : before ≠ some other) (notCell : other ≠ cell) (notBack : behind ≠ some other) :
    insertLinks links before cell behind other = links other := by
  rw [insertLinks, setNext_of_ne notFront, setPrevious_of_ne notBack, Function.update_of_ne notCell]

theorem Segment.insert (segment : Segment links none (front ++ back) none) (distinct : (front ++ back).Nodup)
    (fresh : cell ∉ front ++ back) :
    Segment (insertLinks links front.getLast? cell back.head?) none (front ++ cell :: back) none := by
  obtain ⟨leftDistinct, rightDistinct, apart⟩ := List.nodup_append.mp distinct
  rw [List.mem_append, not_or] at fresh
  obtain ⟨left, right⟩ := segment_append.mp segment
  rw [Option.or_none] at right
  have headApart : ∀ other, back.head? = some other → other ∉ front := fun other first member =>
    apart other member other (List.mem_of_mem_head? first) rfl
  have lastApart : ∀ other, front.getLast? = some other → other ∉ back := fun other last member =>
    apart other (List.mem_of_mem_getLast? last) other member rfl
  have fresher : ∀ other ∈ front ++ back, Function.update links cell (some (front.getLast?, back.head?)) other = links other := by
    intro other member
    refine Function.update_of_ne ?_ _ _
    rintro rfl
    rcases List.mem_append.mp member with inFront | inBack
    · exact fresh.1 inFront
    · exact fresh.2 inBack
  rw [segment_append]
  refine ⟨?_, ?_, ?_⟩
  · have framed := left.frame fun other member => fresher other (List.mem_append_left _ member)
    exact (framed.frame (setPrevious_other headApart)).setNext leftDistinct
  · rw [insertLinks, setNext_of_ne, setPrevious_of_ne, Function.update_self, Option.or_none, Option.or_none]
    · exact fun first => fresh.2 (List.mem_of_mem_head? first)
    · exact fun last => fresh.1 (List.mem_of_mem_getLast? last)
  · have framed := right.frame fun other member => fresher other (List.mem_append_right _ member)
    exact (framed.setPrevious rightDistinct).frame (setNext_other lastApart)

/-- The links after a cell was taken out from between two others. -/
def removeLinks (links : Links ι) (front : Option ι) (cell : ι) (back : Option ι) : Links ι :=
  Function.update (setPrevious (setNext links front back) back front) cell none

theorem removeLinks_of_ne {other : ι} (notFront : before ≠ some other) (notCell : other ≠ cell) (notBack : behind ≠ some other) :
    removeLinks links before cell behind other = links other := by
  rw [removeLinks, Function.update_of_ne notCell, setPrevious_of_ne notBack, setNext_of_ne notFront]

theorem Segment.remove (segment : Segment links none (front ++ cell :: back) none) (distinct : (front ++ cell :: back).Nodup) :
    Segment (removeLinks links front.getLast? cell back.head?) none (front ++ back) none := by
  rw [List.nodup_middle, List.nodup_cons] at distinct
  obtain ⟨left, right⟩ := segment_append.mp segment
  refine (Segment.join left right.2 distinct.2).frame fun other member => Function.update_of_ne ?_ _ _
  rintro rfl
  exact distinct.1 member

end

end Etpan.Data
