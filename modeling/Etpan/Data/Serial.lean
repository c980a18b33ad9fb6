import Mathlib

namespace Etpan.Data

/-! Readers of a buffer at a position, and the values that they read back from their own texts.

`Reads read text value` says that the text stands for the value, whatever is before and behind
it, and that no shorter front of the text at the end of the buffer stands for any. -/

def Deserializer (ε α : Type) := List UInt8 → Nat → Except ε (α × Nat)

namespace Deserializer

variable {ε α β : Type}

instance : Monad (Deserializer ε) where
  pure value := fun _ position => .ok (value, position)
  bind read next := fun bytes position =>
    match read bytes position with
    | .error e => .error e
    | .ok (value, position) => next value bytes position

def fail (e : ε) : Deserializer ε α := fun _ _ => .error e

/-- Fails with an error of its own where the reader fails. -/
def orFail (read : Deserializer ε α) (replace : ε → ε) : Deserializer ε α :=
  fun bytes position =>
    match read bytes position with
    | .error e => .error (replace e)
    | .ok result => .ok result

theorem bind_ok {read : Deserializer ε α} {next : α → Deserializer ε β} {bytes : List UInt8} {position position' : Nat} {value' : β} :
    (read >>= next) bytes position = .ok (value', position') ↔
      ∃ value middle, read bytes position = .ok (value, middle) ∧ next value bytes middle = .ok (value', position') := by
  change (match read bytes position with
    | .error e => Except.error e
    | .ok (value, position) => next value bytes position) = _ ↔ _
  cases read bytes position with
  | error e => simp
  | ok result =>
      obtain ⟨value, middle⟩ := result
      constructor
      · exact fun further => ⟨value, middle, rfl, further⟩
      · rintro ⟨_, _, ⟨⟩, further⟩
        exact further

def many (read : Deserializer ε α) : Nat → Deserializer ε (List α)
  | 0 => pure []
  | count + 1 => do
      let item ← read
      let items ← many read count
      pure (item :: items)

end Deserializer

section

variable {ε α β : Type} {returned : ε → Prop} {read : Deserializer ε α} {next : α → Deserializer ε β} {text text' : List UInt8}
  {value : α} {value' : β}

/-- The text is read as the value, and each cut of it is an error of the reader. -/
structure Reads (returned : ε → Prop) (read : Deserializer ε α) (text : List UInt8) (value : α) : Prop where
  whole : ∀ front rest, read (front ++ (text ++ rest)) front.length = .ok (value, front.length + text.length)
  cut : ∀ front part, part <+: text → part ≠ text → ∃ e, read (front ++ part) front.length = .error e ∧ returned e

def Misreads (read : Deserializer ε α) (text : List UInt8) (value : α) : Prop :=
  ∀ front rest position, read (front ++ (text ++ rest)) front.length ≠ .ok (value, position)

theorem Reads.pure (value : α) : Reads returned (pure value : Deserializer ε α) [] value where
  whole := fun _ _ => rfl
  cut := fun _ _ short different => absurd (List.prefix_nil.mp short) different

theorem Reads.bind (first : Reads returned read text value) (second : Reads returned (next value) text' value') :
    Reads returned (read >>= next) (text ++ text') value' where
  whole := fun front rest => by
    have begins := first.whole front (text' ++ rest)
    have ends := second.whole (front ++ text) rest
    rw [List.length_append] at ends
    change (match read (front ++ (text ++ text' ++ rest)) front.length with
      | .error e => Except.error e
      | .ok (value, position) => next value (front ++ (text ++ text' ++ rest)) position) = _
    rw [List.append_assoc text, begins]
    simp only
    rw [← List.append_assoc front, ends, List.length_append, Nat.add_assoc]
  cut := fun front part short different => by
    change ∃ e, (match read (front ++ part) front.length with
      | .error e => Except.error e
      | .ok (value, position) => next value (front ++ part) position) = _ ∧ _
    obtain ⟨behind, spelled⟩ := short
    rcases List.append_eq_append_iff.mp spelled with ⟨middle, inside, -⟩ | ⟨part', beyond, inside⟩
    · -- the cut is in the first text, or right behind it
      by_cases all : part = text
      · subst all
        have begins := first.whole front []
        rw [List.append_nil] at begins
        have empty : text' ≠ [] := fun nothing => different (by rw [nothing, List.append_nil])
        obtain ⟨e, failed, back⟩ := second.cut (front ++ part) [] (List.nil_prefix) empty.symm
        rw [List.append_nil, List.length_append] at failed
        rw [begins]
        exact ⟨e, failed, back⟩
      · obtain ⟨e, failed, back⟩ := first.cut front part ⟨middle, inside.symm⟩ all
        rw [failed]
        exact ⟨e, rfl, back⟩
    · subst beyond
      have begins := first.whole front part'
      have apart : part' ≠ text' := fun same => different (by rw [same])
      obtain ⟨e, failed, back⟩ := second.cut (front ++ text) part' ⟨behind, inside.symm⟩ apart
      rw [List.append_assoc, List.length_append] at failed
      rw [begins]
      exact ⟨e, failed, back⟩

theorem Reads.make (make : α → β) (first : Reads returned read text value) :
    Reads returned (read >>= fun value => Pure.pure (make value)) text (make value) := by
  have both := @Reads.bind ε α β returned read (fun value => Pure.pure (make value)) text [] value (make value) first (Reads.pure _)
  rwa [List.append_nil] at both

theorem Reads.orFail {replace : ε → ε} (first : Reads returned read text value) (stays : ∀ e, returned e → returned (replace e)) :
    Reads returned (read.orFail replace) text value where
  whole := fun front rest => by rw [Deserializer.orFail, first.whole]
  cut := fun front part short different => by
    obtain ⟨e, failed, back⟩ := first.cut front part short different
    exact ⟨replace e, by rw [Deserializer.orFail, failed], stays e back⟩

/-- The first part is read as something else, and the value tells it apart. -/
theorem Misreads.bind_left (first : Misreads read text value)
    (keeps : ∀ other bytes position position', next other bytes position = .ok (value', position') → other = value) :
    Misreads (read >>= next) (text ++ text') value' := by
  intro front rest position same
  obtain ⟨other, middle, found, further⟩ := Deserializer.bind_ok.mp same
  rw [List.append_assoc text] at found
  exact first front (text' ++ rest) middle (keeps _ _ _ _ further ▸ found)

theorem Misreads.bind_right (first : Reads returned read text value) (second : Misreads (next value) text' value') :
    Misreads (read >>= next) (text ++ text') value' := by
  intro front rest position same
  obtain ⟨other, middle, found, misread⟩ := Deserializer.bind_ok.mp same
  rw [List.append_assoc text, first.whole] at found
  cases found
  rw [List.append_assoc text, ← List.append_assoc front, ← List.length_append] at misread
  exact second _ _ _ misread

theorem Misreads.make {make : α → β} (apart : ∀ other, make other = make value → other = value) (first : Misreads read text value) :
    Misreads (read >>= fun value => Pure.pure (make value)) text (make value) := by
  intro front rest position same
  obtain ⟨other, middle, found, made⟩ := Deserializer.bind_ok.mp same
  have equal := apart other (Prod.mk.inj (Except.ok.inj made)).1
  exact first front rest middle (equal ▸ found)

theorem Misreads.orFail {replace : ε → ε} (first : Misreads read text value) : Misreads (read.orFail replace) text value := by
  intro front rest position same
  unfold Deserializer.orFail at same
  split at same
  · cases same
  · next result found => exact first front rest position (found.trans same)

/-- A good value is read back from its text, and another one never is. -/
structure Codec (returned : ε → Prop) (write : α → List UInt8) (read : Deserializer ε α) (good : α → Prop) : Prop where
  reads : ∀ value, good value → Reads returned read (write value) value
  misreads : ∀ value, ¬ good value → Misreads read (write value) value

variable {γ : Type} {write : α → List UInt8} {write' : β → List UInt8} {read' : Deserializer ε β} {good : α → Prop} {good' : β → Prop}

theorem Codec.orFail {replace : ε → ε} (codec : Codec returned write read good) (stays : ∀ e, returned e → returned (replace e)) :
    Codec returned write (read.orFail replace) good where
  reads := fun value isGood => (codec.reads value isGood).orFail stays
  misreads := fun value isBad => (codec.misreads value isBad).orFail

theorem Codec.pair {make : α → β → γ} {left : γ → α} {right : γ → β} (codec : Codec returned write read good)
    (codec' : Codec returned write' read' good') (made : ∀ both, make (left both) (right both) = both)
    (lefts : ∀ first second, left (make first second) = first) (rights : ∀ first second, right (make first second) = second) :
    Codec returned (fun both => write (left both) ++ write' (right both))
      (read >>= fun first => read' >>= fun second => Pure.pure (make first second))
      (fun both => good (left both) ∧ good' (right both)) where
  reads := fun both ⟨isGood, isGood'⟩ => by
    have ends := (codec'.reads _ isGood').make fun second => make (left both) second
    have all := @Reads.bind ε α γ returned read (fun first => read' >>= fun second => Pure.pure (make first second)) _ _ _ _
      (codec.reads _ isGood) ends
    rwa [made] at all
  misreads := fun both isBad => by
    by_cases isGood : good (left both)
    · refine .bind_right (codec.reads _ isGood) ?_
      have misread := codec'.misreads (right both) fun isGood' => isBad ⟨isGood, isGood'⟩
      have apart (other : β) (same : make (left both) other = make (left both) (right both)) : other = right both := by
        rw [← rights (left both) other, same, made]
      have ends := misread.make apart
      rwa [made] at ends
    · refine .bind_left (codec.misreads _ isGood) fun other bytes position position' same => ?_
      obtain ⟨second, middle, -, spelled⟩ := Deserializer.bind_ok.mp same
      rw [← (Prod.mk.inj (Except.ok.inj spelled)).1, lefts]

theorem Deserializer.many_length {count : Nat} {bytes : List UInt8} {position position' : Nat} {items : List α}
    (found : many read count bytes position = .ok (items, position')) : items.length = count := by
  induction count generalizing items position position' with
  | zero =>
      cases found
      rfl
  | succ count ih =>
      obtain ⟨item, middle, -, further⟩ := bind_ok.mp found
      obtain ⟨others, last, found', spelled⟩ := bind_ok.mp further
      rw [← (Prod.mk.inj (Except.ok.inj spelled)).1, List.length_cons, ih found']

theorem Codec.many (codec : Codec returned write read good) (count : Nat) :
    Codec returned (fun items => items.flatMap write) (read.many count) (fun items => items.length = count ∧ ∀ item ∈ items, good item) where
  reads := by
    rintro items ⟨rfl, all⟩
    induction items with
    | nil => exact Reads.pure []
    | cons item items ih =>
        have ends := (ih fun other later => all other (List.mem_cons_of_mem _ later)).make fun items => item :: items
        exact (codec.reads item (all item List.mem_cons_self)).bind ends
  misreads := fun items isBad => by
    by_cases counted : items.length = count
    · subst counted
      induction items with
      | nil => exact absurd ⟨rfl, by simp⟩ isBad
      | cons item items ih =>
          by_cases isGood : good item
          · refine .bind_right (codec.reads item isGood) ?_
            have later := ih fun both => isBad ⟨rfl, List.forall_mem_cons.mpr ⟨isGood, both.2⟩⟩
            exact later.make fun other same => (List.cons.inj same).2
          · refine .bind_left (codec.misreads item isGood) fun other bytes position position' same => ?_
            obtain ⟨others, middle, -, spelled⟩ := Deserializer.bind_ok.mp same
            exact (List.cons.inj (Prod.mk.inj (Except.ok.inj spelled)).1).1
    · intro front rest position found
      exact counted (Deserializer.many_length found)

end

end Etpan.Data
