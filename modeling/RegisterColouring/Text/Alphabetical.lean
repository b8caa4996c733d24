/-
**Alphabetical order.**

Names are listed in alphabetical order, that is, by their code points.

Main definitions:

* `RegisterColouring.alphabetical` — a list of names in alphabetical order.

Main results:

* `RegisterColouring.alphabetical_perm` — ordering a list neither loses nor repeats a name;
* `RegisterColouring.alphabetical_sorted` — the result is in order.
-/

set_option autoImplicit false

namespace RegisterColouring

/-- A name put before the first one that does not come before it. -/
def insertAlphabetical (name : String) : List String → List String
  | [] => [name]
  | other :: rest =>
    if other < name then other :: insertAlphabetical name rest else name :: other :: rest

/-- **A list of names in alphabetical order.** -/
def alphabetical (names : List String) : List String := names.foldr insertAlphabetical []

theorem insertAlphabetical_perm (name : String) (names : List String) :
    (insertAlphabetical name names).Perm (name :: names) := by
  induction names with
  | nil => exact List.Perm.refl _
  | cons other rest ih =>
      unfold insertAlphabetical
      split
      · exact (ih.cons other).trans (List.Perm.swap name other rest)
      · exact List.Perm.refl _

/-- Ordering a list neither loses nor repeats a name. -/
theorem alphabetical_perm (names : List String) : (alphabetical names).Perm names := by
  induction names with
  | nil => exact List.Perm.refl _
  | cons name names ih => exact (insertAlphabetical_perm name _).trans (ih.cons name)

theorem insertAlphabetical_sorted (name : String) {names : List String}
    (h : names.Pairwise (· ≤ ·)) : (insertAlphabetical name names).Pairwise (· ≤ ·) := by
  induction names with
  | nil => exact List.pairwise_singleton _ _
  | cons other rest ih =>
      rw [List.pairwise_cons] at h
      unfold insertAlphabetical
      split
      · next hlt =>
        refine List.pairwise_cons.2 ⟨?_, ih h.2⟩
        intro a ha
        rcases List.mem_cons.1 ((insertAlphabetical_perm name rest).mem_iff.1 ha) with rfl | ha
        · exact Std.le_of_lt hlt
        · exact h.1 a ha
      · next hlt =>
        have hle : name ≤ other := String.not_lt.1 hlt
        refine List.pairwise_cons.2 ⟨?_, List.pairwise_cons.2 h⟩
        intro a ha
        rcases List.mem_cons.1 ha with rfl | ha
        · exact hle
        · exact String.le_trans hle (h.1 a ha)

/-- The result is in alphabetical order. -/
theorem alphabetical_sorted (names : List String) : (alphabetical names).Pairwise (· ≤ ·) := by
  induction names with
  | nil => exact List.Pairwise.nil
  | cons name names ih => exact insertAlphabetical_sorted name ih

@[simp] theorem mem_alphabetical {name : String} {names : List String} :
    name ∈ alphabetical names ↔ name ∈ names :=
  (alphabetical_perm names).mem_iff

end RegisterColouring
