import Etpan.Data.Loop
import Etpan.DataTypes.Clist

namespace Etpan.DataTypes

open Etpan.Data

/-! The chains of the lists of a program, and what each operation makes of them. -/

variable {ι α : Type}

namespace Lists

def links (s : Lists ι α) : Links Nat := fun cell => (s.cell cell).map fun c => (c.previous, c.next)

variable (s : Lists ι α) (pointer target : Option Nat) (cell c : Nat)

theorem links_update (content : Option (Clistcell α)) :
    (fun a => (Function.update s.cell cell content a).map fun c => (c.previous, c.next)) =
      Function.update s.links cell (content.map fun c => (c.previous, c.next)) := by
  funext a
  by_cases same : a = cell
  · subst same
    simp only [Function.update_self]
  · simp only [Function.update_of_ne same, links]

@[simp] theorem links_setPrevious : (s.setPrevious pointer target).links = Data.setPrevious s.links pointer target := by
  cases pointer with
  | none => rfl
  | some cell =>
      apply (links_update s cell _).trans
      rw [Data.setPrevious, links, Option.map_map, Option.map_map]
      rfl

@[simp] theorem links_setNext : (s.setNext pointer target).links = Data.setNext s.links pointer target := by
  cases pointer with
  | none => rfl
  | some cell =>
      apply (links_update s cell _).trans
      rw [Data.setNext, links, Option.map_map, Option.map_map]
      rfl

@[simp] theorem links_place (data : α) : (s.place cell data).links = Function.update s.links cell (some (none, none)) :=
  links_update s cell _

@[simp] theorem links_free : (s.free cell).links = Function.update s.links cell none :=
  links_update s cell _

@[simp] theorem list_setPrevious : (s.setPrevious pointer target).list = s.list := by
  cases pointer <;> rfl

@[simp] theorem list_setNext : (s.setNext pointer target).list = s.list := by
  cases pointer <;> rfl

@[simp] theorem list_place (data : α) : (s.place cell data).list = s.list := rfl
@[simp] theorem list_free : (s.free cell).list = s.list := rfl

/-! ### Reading a link that was set -/

theorem previous_links : s.previous cell = (s.links cell).bind Prod.fst := by
  rw [previous, links, Option.bind_map]
  rfl

theorem next_links : s.next cell = (s.links cell).bind Prod.snd := by
  rw [next, links, Option.bind_map]
  rfl

@[simp] theorem previous_setNext : (s.setNext pointer target).previous cell = s.previous cell := by
  rw [previous_links, previous_links, links_setNext]
  cases pointer with
  | none => rfl
  | some changed =>
      rw [Data.setNext, Function.update_apply]
      split
      · next here => rw [here]; cases s.links changed <;> rfl
      · rfl

@[simp] theorem next_setPrevious : (s.setPrevious pointer target).next cell = s.next cell := by
  rw [next_links, next_links, links_setPrevious]
  cases pointer with
  | none => rfl
  | some changed =>
      rw [Data.setPrevious, Function.update_apply]
      split
      · next here => rw [here]; cases s.links changed <;> rfl
      · rfl

variable {s pointer target cell c}

theorem previous_setPrevious (apart : pointer ≠ some cell) : (s.setPrevious pointer target).previous cell = s.previous cell := by
  rw [previous_links, previous_links, links_setPrevious, setPrevious_of_ne apart]

theorem next_setNext (apart : pointer ≠ some cell) : (s.setNext pointer target).next cell = s.next cell := by
  rw [next_links, next_links, links_setNext, setNext_of_ne apart]

theorem previous_setPrevious_self (live : s.links cell ≠ none) : (s.setPrevious (some cell) target).previous cell = target := by
  obtain ⟨linked, here⟩ := Option.ne_none_iff_exists'.mp live
  rw [previous_links, links_setPrevious, Data.setPrevious, Function.update_self, here]
  rfl

theorem next_setNext_self (live : s.links cell ≠ none) : (s.setNext (some cell) target).next cell = target := by
  obtain ⟨linked, here⟩ := Option.ne_none_iff_exists'.mp live
  rw [next_links, links_setNext, Data.setNext, Function.update_self, here]
  rfl

theorem setPrevious_live (live : s.links cell ≠ none) : (s.setPrevious pointer target).links cell ≠ none := by
  rw [links_setPrevious]
  cases pointer with
  | none => exact live
  | some changed =>
      rw [Data.setPrevious, Function.update_apply]
      split
      · next here => simpa only [ne_eq, Option.map_eq_none_iff, ← here] using live
      · exact live

end Lists

open Lists

variable [DecidableEq ι]

namespace Lists

variable (s : Lists ι α) (lst : ι)

@[simp] theorem links_setFirst (first : Option Nat) : (s.setFirst lst first).links = s.links := rfl
@[simp] theorem links_setLast (last : Option Nat) : (s.setLast lst last).links = s.links := rfl
@[simp] theorem links_setCount (count : Int32) : (s.setCount lst count).links = s.links := rfl

@[simp] theorem list_setFirst (first : Option Nat) :
    (s.setFirst lst first).list = Function.update s.list lst { s.list lst with first := first } := rfl
@[simp] theorem list_setLast (last : Option Nat) :
    (s.setLast lst last).list = Function.update s.list lst { s.list lst with last := last } := rfl
@[simp] theorem list_setCount (count : Int32) :
    (s.setCount lst count).list = Function.update s.list lst { s.list lst with count := count } := rfl

end Lists

structure Heads (header : Clist) (chain : List Nat) : Prop where
  first : header.first = chain.head?
  last : header.last = chain.getLast?

structure Represents (s : Lists ι α) (chain : ι → List Nat) : Prop where
  segment (i : ι) : Segment s.links none (chain i) none
  heads (i : ι) : Heads (s.list i) (chain i)
  distinct (i : ι) : (chain i).Nodup
  apart (i j : ι) (cell : Nat) : cell ∈ chain i → cell ∈ chain j → i = j

section Represents

variable {s after : Lists ι α} {chain : ι → List Nat} {lst : ι} {cell : Nat} {front back cells : List Nat}

omit [DecidableEq ι] in
theorem Represents.live (represents : Represents s chain) (member : cell ∈ chain lst) : s.links cell ≠ none :=
  (represents.segment lst).live member

omit [DecidableEq ι] in
theorem Heads.isempty {header : Clist} (heads : Heads header cells) : clistIsempty header = true ↔ cells = [] := by
  rw [clistIsempty, heads.first, heads.last]
  cases cells with
  | nil => simp
  | cons cell rest => simp [List.getLast?_eq_some_getLast]

theorem Represents.replace (represents : Represents s chain) (segment : Segment after.links none cells none)
    (heads : Heads (after.list lst) cells) (distinct : cells.Nodup)
    (foreign : ∀ other, other ≠ lst → ∀ cell ∈ chain other, cell ∉ cells)
    (others : ∀ other, other ≠ lst → after.list other = s.list other ∧ ∀ cell ∈ chain other, after.links cell = s.links cell) :
    Represents after (Function.update chain lst cells) := by
  constructor
  · intro i
    by_cases same : i = lst
    · subst same
      simpa only [Function.update_self] using segment
    · rw [Function.update_of_ne same]
      exact (represents.segment i).frame (others i same).2
  · intro i
    by_cases same : i = lst
    · subst same
      simpa only [Function.update_self] using heads
    · rw [Function.update_of_ne same, (others i same).1]
      exact represents.heads i
  · intro i
    by_cases same : i = lst
    · subst same
      simpa only [Function.update_self] using distinct
    · rw [Function.update_of_ne same]
      exact represents.distinct i
  · intro i j cell inI inJ
    by_cases isI : i = lst
    · subst isI
      by_cases isJ : j = i
      · exact isJ.symm
      · rw [Function.update_self] at inI
        rw [Function.update_of_ne isJ] at inJ
        exact absurd inI (foreign j isJ cell inJ)
    · rw [Function.update_of_ne isI] at inI
      by_cases isJ : j = lst
      · subst isJ
        rw [Function.update_self] at inJ
        exact absurd inJ (foreign i isI cell inI)
      · rw [Function.update_of_ne isJ] at inJ
        exact represents.apart i j cell inI inJ

end Represents

section Insert

variable {s : Lists ι α} {lst : ι} {iter c : Nat} {front back chain : List Nat} {data : α}

theorem setBoth {links : Links Nat} {before behind : Option Nat} (live : links c ≠ none) :
    Data.setNext (Data.setPrevious links (some c) before) (some c) behind = Function.update links c (some (before, behind)) := by
  obtain ⟨linked, here⟩ := Option.ne_none_iff_exists'.mp live
  simp only [Data.setNext, Data.setPrevious, Function.update_self, Function.update_idem, here, Option.map_some]

theorem linkBefore_links (live : s.links c ≠ none) (differs : c ≠ iter) :
    (linkBefore s lst iter c).links = insertLinks s.links (s.previous iter) c (some iter) ∧
      (linkBefore s lst iter c).list = Function.update s.list lst
        { s.list lst with first := if s.previous iter = none then some c else (s.list lst).first } := by
  have stays : some iter ≠ some c := fun same => differs (Option.some.inj same).symm
  have next : (((s.setPrevious (some c) (s.previous iter)).setNext (some c) (some iter))).next c = some iter :=
    next_setNext_self (setPrevious_live live)
  have previous : (((s.setPrevious (some c) (s.previous iter)).setNext (some c) (some iter)).setPrevious (some iter)
      (some c)).previous c = s.previous iter := by
    rw [previous_setPrevious stays, previous_setNext, previous_setPrevious_self live]
  rw [linkBefore, next, previous]
  cases before : s.previous iter with
  | none =>
      refine ⟨?_, by simp⟩
      simp only [links_setFirst, links_setPrevious, links_setNext, setBoth live]
      rfl
  | some previous => simp [insertLinks, setBoth live]

theorem linkAfter_links (live : s.links c ≠ none) (differs : c ≠ iter) (apart : s.next iter ≠ some c) :
    (linkAfter s lst iter c).links = insertLinks s.links (some iter) c (s.next iter) ∧
      (linkAfter s lst iter c).list = Function.update s.list lst
        { s.list lst with last := if s.next iter = none then some c else (s.list lst).last } := by
  have stays : some c ≠ some iter := fun same => differs (Option.some.inj same)
  have next : ((s.setPrevious (some c) (some iter)).setNext (some c) (s.next iter)).next c = s.next iter :=
    next_setNext_self (setPrevious_live live)
  have previous : ((s.setPrevious (some c) (some iter)).setNext (some c) (s.next iter)).previous c = some iter := by
    rw [previous_setNext, previous_setPrevious_self live]
  rw [linkAfter, next_setPrevious, next]
  cases behind : s.next iter with
  | none =>
      rw [behind] at previous
      have kept : (((s.setPrevious (some c) (some iter)).setNext (some c) none).setLast lst (some c)).previous c = some iter :=
        previous
      rw [kept]
      refine ⟨?_, by simp⟩
      simp only [links_setLast, links_setPrevious, links_setNext, setBoth live]
      rfl
  | some following =>
      rw [behind] at previous apart
      rw [previous_setPrevious apart, previous]
      simp [insertLinks, setBoth live]

theorem linkFirst_links (live : s.links c ≠ none) :
    (((s.setNext (some c) none).setPrevious (some c) none).setLast lst (some c) |>.setFirst lst (some c)).links =
      insertLinks s.links none c none := by
  obtain ⟨linked, here⟩ := Option.ne_none_iff_exists'.mp live
  simp only [links_setFirst, links_setLast, links_setPrevious, links_setNext]
  simp only [insertLinks, Data.setNext, Data.setPrevious, Function.update_self, Function.update_idem, here, Option.map_some]

omit [DecidableEq ι] in
theorem linkLast_links {last : Nat} (live : s.links c ≠ none) (differs : c ≠ last) :
    (((s.setPrevious (some c) (some last)).setNext (some last) (some c)).setNext (some c) none).links =
      insertLinks s.links (some last) c none := by
  obtain ⟨linked, here⟩ := Option.ne_none_iff_exists'.mp live
  simp only [links_setPrevious, links_setNext]
  funext other
  simp only [insertLinks, Data.setNext, Data.setPrevious]
  by_cases isCell : other = c
  · subst isCell
    simp [here, Function.update_of_ne differs]
  · by_cases isLast : other = last
    · subst isLast
      simp [Function.update_of_ne isCell]
    · simp [Function.update_of_ne isCell, Function.update_of_ne isLast]

/-- A new cell got into the chain of a list, and nothing else changed. -/
structure Inserted (s after : Lists ι α) (chain : ι → List Nat) (lst : ι) (front back : List Nat) (c : Nat) : Prop where
  parts : chain lst = front ++ back
  represents : Represents after (Function.update chain lst (front ++ c :: back))
  count : (after.list lst).count = (s.list lst).count + 1
  others (other : ι) : other ≠ lst → after.list other = s.list other

theorem Represents.inserted {s after : Lists ι α} {chain : ι → List Nat} (represents : Represents s chain)
    (parts : chain lst = front ++ back) (fresh : s.links c = none)
    (links : after.links = insertLinks (Function.update s.links c (some (none, none))) front.getLast? c back.head?)
    (list : after.list = Function.update s.list lst
      { first := (front ++ c :: back).head?, last := (front ++ c :: back).getLast?, count := (s.list lst).count + 1 }) :
    Inserted s after chain lst front back c := by
  have distinct := represents.distinct lst
  have segment := represents.segment lst
  have absent : ∀ other, c ∉ chain other := fun other member => represents.live member fresh
  have notOwn := absent lst
  rw [parts] at distinct segment notOwn
  have same : after.links = insertLinks s.links front.getLast? c back.head? := by
    rw [links, insertLinks, Function.update_idem]
    rfl
  refine ⟨parts, represents.replace ?_ ?_ ?_ ?_ ?_, ?_, ?_⟩
  · rw [same]
    exact segment.insert distinct notOwn
  · rw [list, Function.update_self]
    exact ⟨rfl, rfl⟩
  · rw [List.nodup_middle, List.nodup_cons]
    exact ⟨notOwn, distinct⟩
  · intro other differs cell member inside
    have own : ∀ cell ∈ front ++ back, cell ∉ chain other := fun cell inside member =>
      differs (represents.apart other lst cell member (parts ▸ inside))
    rw [List.mem_append, List.mem_cons] at inside
    rcases inside with inFront | rfl | inBack
    · exact own cell (List.mem_append_left _ inFront) member
    · exact absent other member
    · exact own cell (List.mem_append_right _ inBack) member
  · intro other differs
    refine ⟨by rw [list, Function.update_of_ne differs], ?_⟩
    intro cell member
    have foreign : ∀ own ∈ front ++ back, own ≠ cell := by
      rintro own inside rfl
      exact differs (represents.apart other lst own member (parts ▸ inside))
    rw [same]
    refine insertLinks_of_ne ?_ ?_ ?_
    · exact fun last => foreign cell (List.mem_append_left _ (List.mem_of_mem_getLast? last)) rfl
    · exact fun here => absent other (here ▸ member)
    · exact fun first => foreign cell (List.mem_append_right _ (List.mem_of_mem_head? first)) rfl
  · rw [list, Function.update_self]
  · exact fun other differs => by rw [list, Function.update_of_ne differs]

def LinksInto (link : Lists ι α → ι → Nat → Nat → Lists ι α) : Prop :=
  ∀ (s : Lists ι α) (lst : ι) (iter c : Nat) (cells : List Nat), Segment s.links none cells none → Heads (s.list lst) cells →
    c ∉ cells → s.links c ≠ none → iter ∈ cells →
      ∃ front back, cells = front ++ back ∧ (link s lst iter c).links = insertLinks s.links front.getLast? c back.head? ∧
        (link s lst iter c).list = Function.update s.list lst
          { s.list lst with first := (front ++ c :: back).head?, last := (front ++ c :: back).getLast? }

theorem linkBefore_linksInto : LinksInto (linkBefore : Lists ι α → ι → Nat → Nat → Lists ι α) := by
  intro s lst iter c cells segment heads fresh live member
  obtain ⟨front, back, rfl⟩ := List.append_of_mem member
  have differs : c ≠ iter := fun same => fresh (same ▸ member)
  have here := (segment_append.mp segment).2.1
  rw [Option.or_none] at here
  have previous : s.previous iter = front.getLast? := by
    rw [previous_links, here]
    rfl
  obtain ⟨links, list⟩ := @linkBefore_links _ _ _ s lst iter c live differs
  refine ⟨front, iter :: back, rfl, by rw [links, previous]; rfl, ?_⟩
  have first : (if s.previous iter = none then some c else (s.list lst).first) = (front ++ c :: iter :: back).head? := by
    rw [previous, heads.first]
    cases front with
    | nil => rfl
    | cons cell rest => simp [List.getLast?_eq_some_getLast]
  have last : (s.list lst).last = (front ++ c :: iter :: back).getLast? := by
    rw [heads.last]
    simp
  rw [list, first, ← last]

theorem linkAfter_linksInto : LinksInto (linkAfter : Lists ι α → ι → Nat → Nat → Lists ι α) := by
  intro s lst iter c cells segment heads fresh live member
  obtain ⟨front, back, rfl⟩ := List.append_of_mem member
  have differs : c ≠ iter := fun same => fresh (same ▸ member)
  have here := (segment_append.mp segment).2.1
  rw [Option.or_none] at here
  have next : s.next iter = back.head? := by
    rw [next_links, here, Option.or_none]
    rfl
  have apart : s.next iter ≠ some c := by
    rw [next]
    exact fun first => fresh (List.mem_append_right _ (List.mem_cons_of_mem _ (List.mem_of_mem_head? first)))
  obtain ⟨links, list⟩ := @linkAfter_links _ _ _ s lst iter c live differs apart
  have parts : front ++ iter :: back = (front ++ [iter]) ++ back := by simp
  refine ⟨front ++ [iter], back, parts, by rw [links, next, List.getLast?_concat], ?_⟩
  have last : (if s.next iter = none then some c else (s.list lst).last) = (front ++ [iter] ++ c :: back).getLast? := by
    rw [next, heads.last]
    cases back with
    | nil => simp
    | cons cell rest => simp
  have first : (s.list lst).first = (front ++ [iter] ++ c :: back).head? := by
    rw [heads.first]
    cases front <;> rfl
  rw [list, last, ← first]

theorem clistInsert_inserted {link : Lists ι α → ι → Nat → Nat → Lists ι α} (into : LinksInto link) {s : Lists ι α}
    {chain : ι → List Nat} (represents : Represents s chain) {pointer : Option Nat} (fresh : s.cell c = none)
    (iterator : ∀ iter, pointer = some iter → iter ∈ chain lst) :
    ∃ front back, Inserted s (clistInsert link s lst pointer data (some c)).2 chain lst front back c := by
  have unlinked : s.links c = none := by rw [links, fresh]; rfl
  have absent : c ∉ chain lst := fun member => represents.live member unlinked
  generalize placed : (s.place c data).setCount lst ((s.list lst).count + 1) = s₀
  have links₀ : s₀.links = Function.update s.links c (some (none, none)) := by rw [← placed]; simp
  have list₀ : s₀.list = Function.update s.list lst { s.list lst with count := (s.list lst).count + 1 } := by rw [← placed]; rfl
  have header : s₀.list lst = { s.list lst with count := (s.list lst).count + 1 } := by rw [list₀, Function.update_self]
  have heads : Heads (s₀.list lst) (chain lst) := by
    rw [header]
    exact ⟨(represents.heads lst).first, (represents.heads lst).last⟩
  have live : s₀.links c ≠ none := by rw [links₀, Function.update_self]; exact Option.some_ne_none _
  have update (first last : Option Nat) : Function.update s₀.list lst { s₀.list lst with first := first, last := last } =
      Function.update s.list lst { first := first, last := last, count := (s.list lst).count + 1 } := by
    rw [header, list₀, Function.update_idem]
  simp only [clistInsert, placed]
  by_cases empty : clistIsempty (s₀.list lst) = true
  · have nothing : chain lst = [] := heads.isempty.mp empty
    simp only [if_pos empty]
    refine ⟨[], [], represents.inserted nothing unlinked ?_ ?_⟩
    · rw [linkFirst_links live, links₀]
      rfl
    · simp [Function.update_idem, header, list₀]
  · simp only [if_neg empty]
    have nonempty : chain lst ≠ [] := fun nothing => empty (heads.isempty.mpr nothing)
    cases pointer with
    | some iter =>
        have segment : Segment s₀.links none (chain lst) none := by
          rw [links₀]
          refine (represents.segment lst).frame fun cell member => Function.update_of_ne ?_ _ _
          rintro rfl
          exact absent member
        obtain ⟨front, back, parts, links, list⟩ := into s₀ lst iter c (chain lst) segment heads absent live (iterator iter rfl)
        refine ⟨front, back, represents.inserted parts unlinked ?_ ?_⟩
        · rw [links, links₀]
        · rw [list, update]
    | none =>
        have last := heads.last
        rw [List.getLast?_eq_some_getLast nonempty] at last
        have differs : c ≠ (chain lst).getLast nonempty := fun same => absent (same ▸ List.getLast_mem nonempty)
        have previous : (s₀.setPrevious (some c) (s₀.list lst).last).previous c = (s₀.list lst).last :=
          previous_setPrevious_self live
        refine ⟨chain lst, [], represents.inserted (List.append_nil _).symm unlinked ?_ ?_⟩
        · rw [previous, last, links_setLast, linkLast_links live differs, links₀, List.getLast?_eq_some_getLast nonempty]
          rfl
        · have first : (s₀.list lst).first = (chain lst ++ [c]).head? := by
            rw [heads.first, List.head?_append_of_ne_nil _ nonempty]
          rw [list_setLast, list_setNext, list_setNext, list_setPrevious, List.getLast?_concat, ← first, ← update]

end Insert

section Delete

variable {s : Lists ι α} {lst : ι} {iter : Nat} {front back : List Nat} {chain : ι → List Nat}

theorem clistDelete_links (apart : s.previous iter ≠ some iter) :
    (clistDelete s lst (some iter)).2.links = removeLinks s.links (s.previous iter) iter (s.next iter) ∧
      (clistDelete s lst (some iter)).2.list = Function.update s.list lst
        { first := if s.previous iter = none then s.next iter else (s.list lst).first
          last := if s.next iter = none then s.previous iter else (s.list lst).last
          count := (s.list lst).count - 1 } := by
  cases before : s.previous iter with
  | none =>
      have kept : (s.setFirst lst (s.next iter)).next iter = s.next iter := rfl
      have keptPrevious : (s.setFirst lst (s.next iter)).previous iter = s.previous iter := rfl
      simp only [clistDelete, before, kept, keptPrevious]
      cases after : s.next iter with
      | none => simp [removeLinks, Data.setNext, Data.setPrevious, Function.update_idem]
      | some next => simp [removeLinks, Data.setNext, Function.update_idem]
  | some previous =>
      have kept : (s.setNext (some previous) (s.next iter)).next iter = s.next iter := next_setNext (before ▸ apart)
      simp only [clistDelete, before, kept, previous_setNext]
      cases after : s.next iter with
      | none => simp [removeLinks, Data.setPrevious, Function.update_idem]
      | some next => simp [removeLinks]

structure Deleted (s after : Lists ι α) (chain : ι → List Nat) (lst : ι) (front back : List Nat) (iter : Nat) : Prop where
  parts : chain lst = front ++ iter :: back
  represents : Represents after (Function.update chain lst (front ++ back))
  count : (after.list lst).count = (s.list lst).count - 1
  others (other : ι) : other ≠ lst → after.list other = s.list other

theorem clistDelete_deleted (represents : Represents s chain) (member : iter ∈ chain lst) :
    ∃ front back, Deleted s (clistDelete s lst (some iter)).2 chain lst front back iter := by
  obtain ⟨front, back, parts⟩ := List.append_of_mem member
  have distinct := represents.distinct lst
  have segment := represents.segment lst
  have heads := represents.heads lst
  rw [parts] at distinct segment heads
  have here := (segment_append.mp segment).2.1
  rw [Option.or_none, Option.or_none] at here
  have previous : s.previous iter = front.getLast? := by
    rw [previous_links, here]
    rfl
  have next : s.next iter = back.head? := by
    rw [next_links, here]
    rfl
  obtain ⟨absent, shorter⟩ := List.nodup_cons.mp (List.nodup_middle.mp distinct)
  rw [List.mem_append, not_or] at absent
  obtain ⟨links, list⟩ := @clistDelete_links _ _ _ s lst iter
    (by rw [previous]; exact fun last => absent.1 (List.mem_of_mem_getLast? last))
  rw [previous, next] at links list
  refine ⟨front, back, parts, represents.replace ?_ ?_ shorter ?_ ?_, ?_, ?_⟩
  · rw [links]
    exact segment.remove distinct
  · rw [list, Function.update_self]
    constructor
    · rw [heads.first]
      cases front with
      | nil => rfl
      | cons cell rest => simp [List.getLast?_eq_some_getLast]
    · rw [heads.last]
      cases back with
      | nil => simp
      | cons cell rest => simp
  · intro other differs cell member inside
    have own : cell ∈ chain lst := by
      rw [parts]
      rcases List.mem_append.mp inside with inFront | inBack
      · exact List.mem_append_left _ inFront
      · exact List.mem_append_right _ (List.mem_cons_of_mem _ inBack)
    exact differs (represents.apart other lst cell member own)
  · intro other differs
    refine ⟨by rw [list, Function.update_of_ne differs], ?_⟩
    intro cell inOther
    have foreign : ∀ own ∈ chain lst, own ≠ cell := by
      rintro own inside rfl
      exact differs (represents.apart other lst own inOther inside)
    rw [parts] at foreign
    rw [links]
    refine removeLinks_of_ne ?_ ?_ ?_
    · exact fun last => foreign cell (List.mem_append_left _ (List.mem_of_mem_getLast? last)) rfl
    · exact (foreign iter (List.mem_append_right _ List.mem_cons_self)).symm
    · exact fun first => foreign cell (List.mem_append_right _ (List.mem_cons_of_mem _ (List.mem_of_mem_head? first))) rfl
  · rw [list, Function.update_self]
  · exact fun other differs => by rw [list, Function.update_of_ne differs]

end Delete

section Concat

variable {s : Lists ι α} {dest src : ι} {chain : ι → List Nat}

omit [DecidableEq ι] in
theorem Represents.appended (represents : Represents s chain) (differs : src ≠ dest) : (chain dest ++ chain src).Nodup := by
  refine List.nodup_append.mpr ⟨represents.distinct dest, represents.distinct src, ?_⟩
  rintro cell inDest other inSrc rfl
  exact differs (represents.apart src dest cell inSrc inDest)

theorem clistConcat_links (represents : Represents s chain) (differs : src ≠ dest) :
    Segment (clistConcat s dest src).links none (chain dest ++ chain src) none ∧
      (∀ cell, cell ∉ chain dest ++ chain src → (clistConcat s dest src).links cell = s.links cell) ∧
      (clistConcat s dest src).list = Function.update (Function.update s.list dest
        { first := (chain dest ++ chain src).head?, last := (chain dest ++ chain src).getLast?
          count := (s.list dest).count + (s.list src).count }) src { clistNew with count := (s.list src).count } := by
  have destHeads := represents.heads dest
  have srcHeads := represents.heads src
  cases srcCells : chain src with
  | nil =>
      rw [srcCells] at srcHeads
      have first : (s.list src).first = none := srcHeads.first
      simp only [clistConcat, first, List.append_nil]
      refine ⟨represents.segment dest, fun _ _ => rfl, ?_⟩
      simp [Function.update_idem, Function.update_of_ne differs, ← destHeads.first, ← destHeads.last, clistNew]
  | cons cell rest =>
      have first : (s.list src).first = some cell := by rw [srcHeads.first, srcCells]; rfl
      cases destCells : (chain dest).getLast? with
      | none =>
          have empty : chain dest = [] := List.getLast?_eq_none_iff.mp destCells
          have last : (s.list dest).last = none := by rw [destHeads.last, destCells]
          rw [empty, List.nil_append, ← srcCells]
          simp only [clistConcat, first, last]
          refine ⟨represents.segment src, fun _ _ => rfl, ?_⟩
          simp [Function.update_idem, Function.update_of_ne differs, ← first, ← srcHeads.first, ← srcHeads.last, clistNew]
      | some tail =>
          have last : (s.list dest).last = some tail := by rw [destHeads.last, destCells]
          have joined := Segment.join (represents.segment dest) (represents.segment src) (represents.appended differs)
          have srcHead : (chain src).head? = some cell := by rw [srcCells]; rfl
          rw [destCells, srcHead] at joined
          have links : (clistConcat s dest src).links =
              Data.setPrevious (Data.setNext s.links (some tail) (some cell)) (some cell) (some tail) := by
            simp [clistConcat, first, last]
          rw [links, ← srcCells]
          refine ⟨joined, ?_, ?_⟩
          · intro other outside
            rw [List.mem_append, not_or] at outside
            rw [setPrevious_of_ne, setNext_of_ne]
            · rintro ⟨⟩
              exact outside.1 (List.mem_of_mem_getLast? destCells)
            · rintro ⟨⟩
              exact outside.2 (List.mem_of_mem_head? srcHead)
          · have nonempty : chain dest ≠ [] := by
              intro empty
              rw [empty] at destCells
              cases destCells
            have srcNonempty : chain src ≠ [] := by rw [srcCells]; exact List.cons_ne_nil _ _
            have headSame : (chain dest ++ chain src).head? = (s.list dest).first := by
              rw [destHeads.first, List.head?_append_of_ne_nil _ nonempty]
            have lastSame : (chain dest ++ chain src).getLast? = (s.list src).last := by
              rw [srcHeads.last, List.getLast?_append_of_ne_nil _ srcNonempty]
            rw [headSame, lastSame]
            simp [clistConcat, first, last, Function.update_idem, Function.update_of_ne differs, clistNew]

theorem clistConcat_represents (represents : Represents s chain) (differs : src ≠ dest) :
    Represents (clistConcat s dest src)
        (Function.update (Function.update chain src []) dest (chain dest ++ chain src)) ∧
      ((clistConcat s dest src).list dest).count = (s.list dest).count + (s.list src).count ∧
      ((clistConcat s dest src).list src) = { clistNew with count := (s.list src).count } ∧
      ∀ other, other ≠ dest → other ≠ src → (clistConcat s dest src).list other = s.list other := by
  -- the header of the other list is emptied first, so that no cell is in two lists
  have emptied : Represents ({ s with list := Function.update s.list src { clistNew with count := (s.list src).count } } : Lists ι α)
      (Function.update chain src []) := by
    refine represents.replace trivial ?_ List.nodup_nil ?_ ?_
    · simp only [Function.update_self]
      exact ⟨rfl, rfl⟩
    · exact fun other _ cell _ => List.not_mem_nil
    · exact fun other differs => ⟨Function.update_of_ne differs _ _, fun _ _ => rfl⟩
  have foreign : ∀ other, other ≠ dest → ∀ cell ∈ Function.update chain src [] other, cell ∉ chain dest ++ chain src := by
    intro other notDest cell member inside
    by_cases isSrc : other = src
    · subst isSrc
      rw [Function.update_self] at member
      cases member
    · rw [Function.update_of_ne isSrc] at member
      rcases List.mem_append.mp inside with inDest | inSrc
      · exact notDest (represents.apart other dest cell member inDest)
      · exact isSrc (represents.apart other src cell member inSrc)
  obtain ⟨segment, others, list⟩ := clistConcat_links represents differs
  have destList : (clistConcat s dest src).list dest =
      ⟨(chain dest ++ chain src).head?, (chain dest ++ chain src).getLast?, (s.list dest).count + (s.list src).count⟩ := by
    rw [list, Function.update_of_ne differs.symm, Function.update_self]
  have srcList : (clistConcat s dest src).list src = { clistNew with count := (s.list src).count } := by
    rw [list, Function.update_self]
  have otherList : ∀ other, other ≠ dest → other ≠ src → (clistConcat s dest src).list other = s.list other := by
    intro other notDest notSrc
    rw [list, Function.update_of_ne notSrc, Function.update_of_ne notDest]
  refine ⟨emptied.replace segment ?_ (represents.appended differs) foreign ?_, ?_, srcList, otherList⟩
  · rw [destList]
    exact ⟨rfl, rfl⟩
  · intro other notDest
    refine ⟨?_, fun cell member => others cell (foreign other notDest cell member)⟩
    by_cases isSrc : other = src
    · subst isSrc
      simp only [srcList, Function.update_self]
    · simp only [otherList other notDest isSrc, Function.update_of_ne isSrc]
  · rw [destList]

end Concat

end Etpan.DataTypes
