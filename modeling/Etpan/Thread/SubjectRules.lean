import Mathlib

namespace Etpan.Thread

/-! The rules by which threads with one subject are merged, one behind the other. -/

structure Shape where
  dummy : Bool
  reply : Bool
deriving Repr, DecidableEq

namespace Shape

def newDummy : Shape := ⟨true, false⟩

/-- The thread at the top when a thread meets the one in the table. -/
def meet (main env : Shape) : Shape :=
  if main.dummy then main else if env.reply ∧ main.reply = false then main else newDummy

def top (first : Shape) (others : List Shape) : Shape := others.foldl meet first

/-- A dummy meets a message, and goes below it or beside it. -/
def nests (first : Shape) : List Shape → Prop
  | [] => False
  | env :: others => first.dummy = false ∧ env.dummy = true ∨ nests (first.meet env) others

theorem top_concat (first : Shape) (others : List Shape) (env : Shape) : first.top (others ++ [env]) = (first.top others).meet env := by
  rw [top, List.foldl_append]
  rfl

theorem nests_concat (first : Shape) (others : List Shape) (env : Shape) :
    first.nests (others ++ [env]) ↔ first.nests others ∨ (first.top others).dummy = false ∧ env.dummy = true := by
  induction others generalizing first with
  | nil => simp [nests, top]
  | cons other others ih =>
      rw [List.cons_append, nests, nests, ih, or_assoc]
      rfl

theorem nests_append {first : Shape} {others : List Shape} (nests : first.nests others) (rest : List Shape) :
    first.nests (others ++ rest) := by
  induction rest generalizing others with
  | nil => rwa [List.append_nil]
  | cons env rest ih =>
      rw [List.append_cons]
      exact ih ((nests_concat first others env).mpr (Or.inl nests))

theorem meet_dummy {main : Shape} (dummy : main.dummy = true) (env : Shape) : main.meet env = main := by
  rw [meet, if_pos dummy]

theorem top_dummy {first : Shape} (dummy : first.dummy = true) (others : List Shape) : first.top others = first := by
  induction others with
  | nil => rfl
  | cons env others ih =>
      rw [top, List.foldl_cons, meet_dummy dummy]
      exact ih

theorem not_nests_dummy {first : Shape} (dummy : first.dummy = true) (others : List Shape) : ¬ first.nests others := by
  induction others with
  | nil => exact not_false
  | cons env others ih =>
      rw [nests, meet_dummy dummy]
      rintro (⟨isMessage, _⟩ | later)
      · rw [dummy] at isMessage
        cases isMessage
      · exact ih later

theorem top_message {first : Shape} {others : List Shape} :
    (first.top others).dummy = false ↔
      first.dummy = false ∧ ∀ env ∈ others, env.reply = true ∧ first.reply = false := by
  induction others with
  | nil => simp [top]
  | cons env others ih =>
      by_cases dummy : first.dummy = true
      · rw [top_dummy dummy, dummy]
        simp
      · have isMessage : first.dummy = false := by simpa using dummy
        rw [top, List.foldl_cons, meet, if_neg dummy]
        by_cases below : env.reply = true ∧ first.reply = false
        · rw [if_pos below, ← top, ih]
          simp only [isMessage, true_and, List.forall_mem_cons, below, and_self]
        · rw [if_neg below, ← top, top_dummy rfl]
          constructor
          · intro impossible
            cases impossible
          · rintro ⟨_, all⟩
            exact absurd (all env (by simp)) below

theorem top_eq_first {first : Shape} {others : List Shape} (isMessage : (first.top others).dummy = false) : first.top others = first := by
  have all := (top_message.mp isMessage).2
  have firstMessage := (top_message.mp isMessage).1
  clear isMessage
  induction others with
  | nil => rfl
  | cons env others ih =>
      rw [top, List.foldl_cons, meet, if_neg (by simp [firstMessage]), if_pos (all env (by simp))]
      exact ih fun other member => all other (List.mem_cons_of_mem env member)

end Shape

/-- A dummy comes when the first thread is a message and at the top still: the threads between
are replies to it. -/
def DummyMeets (threads : List Shape) : Prop :=
  ∃ first between dummy rest, threads = first :: (between ++ dummy :: rest) ∧ first.dummy = false ∧ dummy.dummy = true ∧
    ∀ thread ∈ between, thread.reply = true ∧ first.reply = false

theorem dummyMeets_iff (first : Shape) (others : List Shape) : DummyMeets (first :: others) ↔ first.nests others := by
  constructor
  · rintro ⟨head, between, dummy, rest, same, isMessage, isDummy, replies⟩
    cases same
    have meets : first.nests (between ++ [dummy]) := by
      rw [Shape.nests_concat]
      exact Or.inr ⟨Shape.top_message.mpr ⟨isMessage, replies⟩, isDummy⟩
    have whole := Shape.nests_append meets rest
    rwa [List.append_assoc] at whole
  · intro nests
    induction others using List.reverseRecOn with
    | nil => cases nests
    | append_singleton others env ih =>
        rcases (Shape.nests_concat first others env).mp nests with earlier | ⟨topMessage, isDummy⟩
        · obtain ⟨head, between, dummy, rest, same, facts⟩ := ih earlier
          cases same
          exact ⟨first, between, dummy, rest ++ [env], by simp, facts⟩
        · obtain ⟨isMessage, replies⟩ := Shape.top_message.mp topMessage
          exact ⟨first, others, env, [], rfl, isMessage, isDummy, replies⟩

end Etpan.Thread
