import Mathlib

namespace Etpan.Data

open Relation

/-! Forests given by the child array of each node. -/

variable {ι : Type}

def Holds (children : ι → List ι) (holder child : ι) : Prop := child ∈ children holder

def Orphan (children : ι → List ι) (node : ι) : Prop := ∀ holder, node ∉ children holder

/-- No node is in two arrays, or twice in one, or below itself. -/
structure Forest (children : ι → List ι) : Prop where
  nodup : ∀ holder, (children holder).Nodup
  unique : ∀ {first second child}, child ∈ children first → child ∈ children second → first = second
  acyclic : ∀ node, ¬ TransGen (Holds children) node node

namespace Forest

variable {children children' : ι → List ι}

theorem shrink (forest : Forest children) (nodup : ∀ holder, (children' holder).Nodup)
    (fewer : ∀ holder, children' holder ⊆ children holder) : Forest children' where
  nodup := nodup
  unique first second := forest.unique (fewer _ first) (fewer _ second)
  acyclic node cycle := forest.acyclic node (TransGen.mono (fun holder _ held => fewer holder held) _ _ cycle)

theorem perm (forest : Forest children) (same : ∀ holder, (children' holder).Perm (children holder)) :
    Forest children' :=
  forest.shrink (fun holder => (same holder).nodup_iff.mpr (forest.nodup holder))
    fun holder => (same holder).subset

theorem transGen_attach {parent child : ι} (more : ∀ holder node, node ∈ children' holder →
      node ∈ children holder ∨ holder = parent ∧ node = child) {first last : ι}
    (path : TransGen (Holds children') first last) :
    TransGen (Holds children) first last ∨
      ReflTransGen (Holds children) first parent ∧ ReflTransGen (Holds children) child last := by
  induction path with
  | single held =>
      rcases more _ _ held with old | ⟨rfl, rfl⟩
      · exact .inl (.single old)
      · exact .inr ⟨.refl, .refl⟩
  | tail _ held ih =>
      rcases more _ _ held with old | ⟨rfl, rfl⟩
      · rcases ih with before | ⟨above, below⟩
        · exact .inl (before.tail old)
        · exact .inr ⟨above, below.tail old⟩
      · rcases ih with before | ⟨above, -⟩
        · exact .inr ⟨before.to_reflTransGen, .refl⟩
        · exact .inr ⟨above, .refl⟩

theorem attach (forest : Forest children) {parent child : ι} (orphan : Orphan children child)
    (notBelow : ¬ ReflTransGen (Holds children) child parent)
    (grown : (children' parent).Perm (child :: children parent))
    (same : ∀ holder, holder ≠ parent → children' holder = children holder) : Forest children' := by
  have more : ∀ holder node, node ∈ children' holder → node ∈ children holder ∨ holder = parent ∧ node = child := by
    intro holder node member
    by_cases here : holder = parent
    · subst here
      rcases List.mem_cons.mp (grown.subset member) with rfl | old
      · exact .inr ⟨rfl, rfl⟩
      · exact .inl old
    · rw [same holder here] at member
      exact .inl member
  constructor
  case nodup =>
    intro holder
    by_cases here : holder = parent
    · subst here
      exact grown.nodup_iff.mpr (List.nodup_cons.mpr ⟨orphan holder, forest.nodup holder⟩)
    · rw [same holder here]
      exact forest.nodup holder
  case unique =>
    intro first second node inFirst inSecond
    rcases more _ _ inFirst with old | ⟨rfl, rfl⟩
    · rcases more _ _ inSecond with old' | ⟨rfl, rfl⟩
      · exact forest.unique old old'
      · exact absurd old (orphan first)
    · rcases more _ _ inSecond with old' | ⟨rfl, -⟩
      · exact absurd old' (orphan second)
      · rfl
  case acyclic =>
    intro node cycle
    rcases transGen_attach more cycle with old | ⟨above, below⟩
    · exact forest.acyclic node old
    · exact notBelow (below.trans above)

theorem eq_of_below_orphan {root node : ι} (orphan : Orphan children root)
    (below : ReflTransGen (Holds children) node root) : node = root := by
  cases below with
  | refl => rfl
  | tail _ held => exact absurd held (orphan _)

theorem eq_of_below_top (forest : Forest children) {root top node : ι} (orphan : Orphan children root)
    (held : top ∈ children root) (below : ReflTransGen (Holds children) node top) : node = top ∨ node = root := by
  cases below with
  | refl => exact .inl rfl
  | tail before last =>
      have same := forest.unique last held
      subst same
      exact .inr (eq_of_below_orphan orphan before)

theorem comparable (forest : Forest children) {left right node : ι} (leftAbove : ReflTransGen (Holds children) left node)
    (rightAbove : ReflTransGen (Holds children) right node) :
    ReflTransGen (Holds children) right left ∨ ReflTransGen (Holds children) left right := by
  have unique : Relator.RightUnique (Function.swap (Holds children)) := fun _ _ _ first second => forest.unique first second
  rcases ReflTransGen.total_of_right_unique unique (ReflTransGen.swap _ _ leftAbove) (ReflTransGen.swap _ _ rightAbove) with path | path
  · exact .inl (ReflTransGen.swap _ _ path)
  · exact .inr (ReflTransGen.swap _ _ path)

theorem siblings_apart (forest : Forest children) {holder left right : ι} (leftHeld : left ∈ children holder) (rightHeld : right ∈ children holder)
    (above : ReflTransGen (Holds children) left right) : left = right := by
  rcases ReflTransGen.cases_tail above with same | ⟨parent, path, held⟩
  · exact same.symm
  · have same := forest.unique held rightHeld
    rw [same] at path
    exact absurd (TransGen.head' leftHeld path) (forest.acyclic holder)

section Height

variable (children) (nodes : Finset ι)

open Classical in
/-- The number of nodes below a node. -/
noncomputable def height (node : ι) : Nat := (nodes.filter (TransGen (Holds children) node)).card

variable {children nodes}

theorem height_le (node : ι) : height children nodes node ≤ nodes.card := by
  classical
  exact Finset.card_filter_le _ _

theorem height_lt (forest : Forest children) (inside : ∀ {holder child}, child ∈ children holder → child ∈ nodes)
    {parent child : ι} (held : child ∈ children parent) :
    height children nodes child < height children nodes parent := by
  classical
  apply Finset.card_lt_card
  constructor
  · intro node member
    simp only [Finset.mem_filter] at member ⊢
    exact ⟨member.1, .head held member.2⟩
  · intro subset
    have below : child ∈ nodes.filter (TransGen (Holds children) parent) :=
      Finset.mem_filter.mpr ⟨inside held, .single held⟩
    exact forest.acyclic child (Finset.mem_filter.mp (subset below)).2

theorem reaches (forest : Forest children) (inside : ∀ {holder child}, child ∈ children holder → child ∈ nodes)
    {root : ι} (rooted : ∀ {holder child}, child ∈ children holder → holder = root ∨ ∃ above, holder ∈ children above)
    {parent child : ι} (held : child ∈ children parent) : ReflTransGen (Holds children) root child := by
  generalize gap : nodes.card - height children nodes parent = count
  induction count using Nat.strongRecOn generalizing parent child with
  | ind count ih =>
      rcases rooted held with rfl | ⟨above, holderHeld⟩
      · exact .single held
      · have higher := forest.height_lt inside holderHeld
        have bounded : height children nodes above ≤ nodes.card := height_le above
        exact (ih _ (by omega) holderHeld rfl).tail held

end Height

end Forest

end Etpan.Data
