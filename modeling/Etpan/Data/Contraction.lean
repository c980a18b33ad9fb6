import Etpan.Data.Forest

namespace Etpan.Data

open Relation

/-! A node of a forest is taken out, and its children go where it was. -/

variable {ι : Type}

inductive Through (kind : ι → Prop) (children : ι → List ι) : ι → ι → Prop
  | single {holder child} (held : child ∈ children holder) : Through kind children holder child
  | head {holder middle child} (held : middle ∈ children holder) (isKind : kind middle) (rest : Through kind children middle child) :
      Through kind children holder child

theorem Forest.not_self {children : ι → List ι} (forest : Forest children) {node : ι} : node ∉ children node :=
  fun held => forest.acyclic node (.single held)

variable [DecidableEq ι]

/-- `node` leaves the array of `holder`, which gets its children, in some order. -/
structure Contracts (children children' : ι → List ι) (holder node : ι) : Prop where
  held : node ∈ children holder
  promoted : (children' holder).Perm ((children holder).erase node ++ children node)
  emptied : children' node = []
  others : ∀ other, other ≠ holder → other ≠ node → children' other = children other

namespace Contracts

variable {children children' : ι → List ι} {holder node : ι} (contracts : Contracts children children' holder node) (forest : Forest children)

include contracts forest

theorem holder_ne : holder ≠ node := by
  intro same
  have held := contracts.held
  rw [same] at held
  exact forest.acyclic node (.single held)

theorem mem_iff {parent child : ι} (differs : parent ≠ node) :
    child ∈ children' parent ↔ child ≠ node ∧ (child ∈ children parent ∨ parent = holder ∧ child ∈ children node) := by
  by_cases same : parent = holder
  · subst same
    rw [contracts.promoted.mem_iff, List.mem_append, (forest.nodup parent).mem_erase_iff]
    constructor
    · rintro (⟨notNode, old⟩ | promoted)
      · exact ⟨notNode, .inl old⟩
      · exact ⟨fun isNode => forest.not_self (isNode ▸ promoted), .inr ⟨rfl, promoted⟩⟩
    · rintro ⟨notNode, old | ⟨_, promoted⟩⟩
      · exact .inl ⟨notNode, old⟩
      · exact .inr promoted
  · rw [contracts.others parent same differs]
    constructor
    · intro held
      refine ⟨fun isNode => same ?_, .inl held⟩
      rw [isNode] at held
      exact forest.unique held contracts.held
    · rintro ⟨_, held | ⟨isHolder, _⟩⟩
      · exact held
      · exact absurd isHolder same

theorem held_before {parent child : ι} (held : child ∈ children' parent) :
    parent ≠ node ∧ child ≠ node ∧ (child ∈ children parent ∨ parent = holder ∧ child ∈ children node) := by
  have differs : parent ≠ node := by
    rintro rfl
    rw [contracts.emptied] at held
    cases held
  exact ⟨differs, (contracts.mem_iff forest differs).mp held⟩

theorem path_before {above below : ι} (path : TransGen (Holds children') above below) : TransGen (Holds children) above below := by
  have edge : ∀ {parent child}, child ∈ children' parent → TransGen (Holds children) parent child := by
    intro parent child held
    rcases (contracts.held_before forest held).2.2 with old | ⟨rfl, promoted⟩
    · exact .single old
    · exact .tail (.single contracts.held) promoted
  induction path with
  | single held => exact edge held
  | tail _ held ih => exact ih.trans (edge held)

theorem path_after {above below : ι} (path : TransGen (Holds children) above below) (belowStays : below ≠ node) (aboveStays : above ≠ node) :
    TransGen (Holds children') above below := by
  have both : (above ≠ node → TransGen (Holds children') above below) ∧ (above = node → TransGen (Holds children') holder below) := by
    clear aboveStays
    induction path using TransGen.head_induction_on with
    | single held =>
        refine ⟨fun stays => .single ((contracts.mem_iff forest stays).mpr ⟨belowStays, .inl held⟩), ?_⟩
        rintro rfl
        exact .single ((contracts.mem_iff forest (contracts.holder_ne forest)).mpr ⟨belowStays, .inr ⟨rfl, held⟩⟩)
    | @head above middle held _ ih =>
        refine ⟨fun stays => ?_, ?_⟩
        · by_cases isNode : middle = node
          · have same : above = holder := forest.unique held (isNode ▸ contracts.held)
            rw [same]
            exact ih.2 isNode
          · exact .head ((contracts.mem_iff forest stays).mpr ⟨isNode, .inl held⟩) (ih.1 isNode)
        · rintro rfl
          have stays : middle ≠ above := fun same => forest.not_self (same ▸ held)
          exact .head ((contracts.mem_iff forest (contracts.holder_ne forest)).mpr ⟨stays, .inr ⟨rfl, held⟩⟩) (ih.1 stays)
  exact both.1 aboveStays

theorem path_iff {above below : ι} (belowStays : below ≠ node) (aboveStays : above ≠ node) :
    TransGen (Holds children') above below ↔ TransGen (Holds children) above below :=
  ⟨contracts.path_before forest, fun path => contracts.path_after forest path belowStays aboveStays⟩

theorem forest' : Forest children' where
  nodup parent := by
    by_cases isNode : parent = node
    · rw [isNode, contracts.emptied]
      exact List.nodup_nil
    · by_cases same : parent = holder
      · rw [same, contracts.promoted.nodup_iff]
        refine ((forest.nodup holder).erase node).append (forest.nodup node) fun child old promoted => ?_
        exact contracts.holder_ne forest (forest.unique (List.mem_of_mem_erase old) promoted)
      · rw [contracts.others parent same isNode]
        exact forest.nodup parent
  unique {first second child} inFirst inSecond := by
    rcases (contracts.held_before forest inFirst).2.2 with old | ⟨rfl, promoted⟩
    · rcases (contracts.held_before forest inSecond).2.2 with old' | ⟨rfl, promoted'⟩
      · exact forest.unique old old'
      · exact absurd (forest.unique old promoted') (contracts.held_before forest inFirst).1
    · rcases (contracts.held_before forest inSecond).2.2 with old' | ⟨rfl, _⟩
      · exact absurd (forest.unique old' promoted) (contracts.held_before forest inSecond).1
      · rfl
  acyclic other cycle := forest.acyclic other (contracts.path_before forest cycle)

variable {kind : ι → Prop} (isKind : kind node)

include isKind

theorem through_iff {above below : ι} (belowStays : below ≠ node) (aboveStays : above ≠ node) :
    Through kind children' above below ↔ Through kind children above below := by
  constructor
  · intro path
    clear aboveStays
    induction path with
    | single held =>
        rcases (contracts.held_before forest held).2.2 with old | ⟨rfl, promoted⟩
        · exact .single old
        · exact .head contracts.held isKind (.single promoted)
    | head held middleKind _ ih =>
        rcases (contracts.held_before forest held).2.2 with old | ⟨rfl, promoted⟩
        · exact .head old middleKind (ih belowStays)
        · exact .head contracts.held isKind (.head promoted middleKind (ih belowStays))
  · intro path
    have both : (above ≠ node → Through kind children' above below) ∧ (above = node → Through kind children' holder below) := by
      clear aboveStays
      induction path with
      | single held =>
          refine ⟨fun stays => .single ((contracts.mem_iff forest stays).mpr ⟨belowStays, .inl held⟩), ?_⟩
          rintro rfl
          exact .single ((contracts.mem_iff forest (contracts.holder_ne forest)).mpr ⟨belowStays, .inr ⟨rfl, held⟩⟩)
      | @head above middle below held middleKind _ ih =>
          refine ⟨fun stays => ?_, ?_⟩
          · by_cases isNode : middle = node
            · have same : above = holder := forest.unique held (isNode ▸ contracts.held)
              rw [same]
              exact (ih belowStays).2 isNode
            · exact .head ((contracts.mem_iff forest stays).mpr ⟨isNode, .inl held⟩) middleKind ((ih belowStays).1 isNode)
          · rintro rfl
            have stays : middle ≠ above := fun same => forest.not_self (same ▸ held)
            exact .head ((contracts.mem_iff forest (contracts.holder_ne forest)).mpr ⟨stays, .inr ⟨rfl, held⟩⟩) middleKind
              ((ih belowStays).1 stays)
    exact both.1 aboveStays

end Contracts

end Etpan.Data
