import Etpan.Imap.StatusParse
import Etpan.Data.Delimited

namespace Etpan.Imap

open Etpan.Data

/-! What `mailimap_struct_list_parse` reads of items that stand in the buffer with a symbol between them. -/

section List

variable {α β : Type} (symbol : UInt8) (parser : Parser α) (text : β → List UInt8) (value : β → α) (source : Source)

/-- Each of the items is read where it stands, if what may follow an item stands behind it. -/
structure ReadsItems (Follows : List UInt8 → Prop) (items : List β) : Prop where
  read : ∀ item ∈ items, ∀ {indx : Nat} {rest : List UInt8}, Follows rest → source.buffer.drop indx = text item ++ rest →
    parser source indx = (.ok (value item, indx + (text item).length), source)
  separated : ∀ item ∈ items, ∀ rest, Follows (symbol :: (text item ++ rest))
  separator : ∀ item ∈ items, ∀ {indx : Nat} {rest : List UInt8}, source.buffer.drop indx = symbol :: (text item ++ rest) →
    mailimapUnstrictCharParse source.buffer indx symbol = some (indx + 1)

def StopsList (rest : List UInt8) : Prop := ∀ {indx turns : Nat} {structList : List α}, source.buffer.drop indx = rest →
  structListLoop symbol parser (turns + 1) source indx structList indx = (.ok (structList, indx), source)

variable {symbol parser text value source} {Follows : List UInt8 → Prop} {rest : List UInt8}

theorem ReadsItems.tail {item : β} {items : List β} (reads : ReadsItems symbol parser text value source Follows (item :: items)) :
    ReadsItems symbol parser text value source Follows items where
  read := fun other member => reads.read other (List.mem_cons_of_mem _ member)
  separated := fun other member => reads.separated other (List.mem_cons_of_mem _ member)
  separator := fun other member => reads.separator other (List.mem_cons_of_mem _ member)

theorem ReadsItems.follows {items : List β} (reads : ReadsItems symbol parser text value source Follows items) (ends : Follows rest) :
    Follows (items.flatMap (fun item => symbol :: text item) ++ rest) := by
  cases items with
  | nil => exact ends
  | cons item items =>
      rw [List.flatMap_cons, List.cons_append, List.cons_append, List.append_assoc]
      exact reads.separated item List.mem_cons_self _

theorem structListLoop_at {items : List β} (reads : ReadsItems symbol parser text value source Follows items) (ends : Follows rest)
    (stops : StopsList symbol parser source rest) {turns indx : Nat} {structList : List α} (enough : items.length < turns)
    (at_ : source.buffer.drop indx = items.flatMap (fun item => symbol :: text item) ++ rest) :
    structListLoop symbol parser turns source indx structList indx =
      (.ok (structList ++ items.map value, indx + (items.flatMap fun item => symbol :: text item).length), source) := by
  induction items generalizing turns indx structList with
  | nil =>
      obtain ⟨turns, rfl⟩ := Nat.exists_eq_add_of_lt enough
      rw [stops at_, List.map_nil, List.append_nil]
      rfl
  | cons item items ih =>
      obtain ⟨turns, rfl⟩ := Nat.exists_eq_add_of_lt enough
      rw [List.flatMap_cons, List.cons_append, List.cons_append, List.append_assoc] at at_
      have behind : source.buffer.drop (indx + 1) = text item ++ (items.flatMap (fun item => symbol :: text item) ++ rest) :=
        @drop_behind _ _ _ [symbol] at_
      have parsed := reads.read item List.mem_cons_self (reads.tail.follows ends) behind
      have token : indx + 1 + (text item).length + (items.flatMap fun item => symbol :: text item).length =
          indx + ((item :: items).flatMap fun item => symbol :: text item).length := by
        rw [List.flatMap_cons, List.length_append, List.length_cons]
        omega
      rw [structListLoop, reads.separator item List.mem_cons_self at_]
      simp only [parsed]
      rw [ih reads.tail (by rw [List.length_cons]; omega) (drop_behind behind), token, List.map_cons, List.append_assoc, List.singleton_append]

theorem mailimapStructListParse_at {first : β} {items : List β} (reads : ReadsItems symbol parser text value source Follows (first :: items))
    (ends : Follows rest) (stops : StopsList symbol parser source rest) {indx : Nat}
    (at_ : source.buffer.drop indx = joined symbol text (first :: items) ++ rest) :
    mailimapStructListParse symbol parser source indx =
      (.ok ((first :: items).map value, indx + (joined symbol text (first :: items)).length), source) := by
  rw [joined, List.append_assoc] at at_
  have parsed := reads.read first List.mem_cons_self (reads.tail.follows ends) at_
  have behind := drop_behind at_
  have enough : items.length < source.octets + 1 := by
    have fits := congrArg List.length behind
    have many : items.length ≤ (items.flatMap fun item => symbol :: text item).length :=
      length_le_flatMap (fun _ => by rw [List.length_cons]; exact Nat.succ_pos _) items
    rw [List.length_drop, List.length_append] at fits
    rw [Source.octets]
    omega
  rw [mailimapStructListParse, parsed]
  dsimp only
  rw [structListLoop_at reads.tail ends stops enough behind, joined, List.length_append, Nat.add_assoc]
  rfl

end List

end Etpan.Imap
