/-
**Sets of indices.**

A finite set of natural numbers is kept as one number whose binary digit `i` says whether `i` is in
the set.  Union, intersection and difference are then single operations on numbers, and two sets with
the same members are equal.

Main definitions:

* `RegisterColouring.IndexSet` with `∈`, `∅`, `∪`, `∩`, `\`, `singleton`, `insert` and `erase`;
* `RegisterColouring.IndexSet.toList` — the members in increasing order.

Main results:

* `RegisterColouring.IndexSet.ext` — a set is determined by its members;
* `RegisterColouring.IndexSet.mem_union` and its companions — membership through every operation;
* `RegisterColouring.IndexSet.mem_toList` — the list of members is complete.
-/

set_option autoImplicit false

namespace RegisterColouring

/-- A finite set of natural numbers, as a number with a binary digit for each of them. -/
structure IndexSet where
  bits : Nat
  deriving DecidableEq, Repr

namespace IndexSet

instance : Membership Nat IndexSet := ⟨fun set i => set.bits.testBit i = true⟩

instance (i : Nat) (set : IndexSet) : Decidable (i ∈ set) :=
  inferInstanceAs (Decidable (set.bits.testBit i = true))

instance : EmptyCollection IndexSet := ⟨⟨0⟩⟩

instance : Union IndexSet := ⟨fun a b => ⟨a.bits ||| b.bits⟩⟩

instance : Inter IndexSet := ⟨fun a b => ⟨a.bits &&& b.bits⟩⟩

instance : SDiff IndexSet := ⟨fun a b => ⟨a.bits ^^^ (a.bits &&& b.bits)⟩⟩

instance : Inhabited IndexSet := ⟨∅⟩

/-- The set with one member. -/
def singleton (i : Nat) : IndexSet := ⟨1 <<< i⟩

/-- One more member. -/
def insert (set : IndexSet) (i : Nat) : IndexSet := set ∪ singleton i

/-- One member less. -/
def erase (set : IndexSet) (i : Nat) : IndexSet := set \ singleton i

/-- The members of a set in increasing order. -/
def toList (set : IndexSet) : List Nat :=
  (List.range (set.bits.log2 + 1)).filter set.bits.testBit

/-- How many members a set has. -/
def size (set : IndexSet) : Nat := set.toList.length

/-- The set of the members of a list. -/
def ofList (list : List Nat) : IndexSet := list.foldl insert ∅

/-! ### Membership -/

theorem mem_iff {i : Nat} {set : IndexSet} : i ∈ set ↔ set.bits.testBit i = true := Iff.rfl

/-- **A set is determined by its members.** -/
theorem ext {a b : IndexSet} (h : ∀ i, i ∈ a ↔ i ∈ b) : a = b := by
  obtain ⟨m⟩ := a
  obtain ⟨n⟩ := b
  have hbits : ∀ i, m.testBit i = n.testBit i := by
    intro i
    exact Bool.eq_iff_iff.2 (h i)
  rw [Nat.eq_of_testBit_eq hbits]

@[simp] theorem not_mem_empty (i : Nat) : i ∉ (∅ : IndexSet) := by
  intro h
  have h0 : (0 : Nat).testBit i = true := h
  simp at h0

@[simp] theorem mem_union {i : Nat} {a b : IndexSet} : i ∈ a ∪ b ↔ i ∈ a ∨ i ∈ b := by
  change (a.bits ||| b.bits).testBit i = true ↔ _
  rw [Nat.testBit_or, Bool.or_eq_true]
  rfl

@[simp] theorem mem_inter {i : Nat} {a b : IndexSet} : i ∈ a ∩ b ↔ i ∈ a ∧ i ∈ b := by
  change (a.bits &&& b.bits).testBit i = true ↔ _
  rw [Nat.testBit_and, Bool.and_eq_true]
  rfl

@[simp] theorem mem_sdiff {i : Nat} {a b : IndexSet} : i ∈ a \ b ↔ i ∈ a ∧ i ∉ b := by
  change (a.bits ^^^ (a.bits &&& b.bits)).testBit i = true ↔ _
  rw [Nat.testBit_xor, Nat.testBit_and, mem_iff, mem_iff]
  cases a.bits.testBit i <;> cases b.bits.testBit i <;> decide

@[simp] theorem mem_singleton {i j : Nat} : i ∈ singleton j ↔ i = j := by
  rw [mem_iff, singleton, Nat.one_shiftLeft, Nat.testBit_two_pow, decide_eq_true_eq]
  exact eq_comm

@[simp] theorem mem_insert {i j : Nat} {set : IndexSet} :
    i ∈ set.insert j ↔ i ∈ set ∨ i = j := by
  simp [insert]

@[simp] theorem mem_erase {i j : Nat} {set : IndexSet} :
    i ∈ set.erase j ↔ i ∈ set ∧ i ≠ j := by
  simp [erase]

/-- A set holds no number beyond its highest digit. -/
theorem lt_of_mem {i : Nat} {set : IndexSet} (h : i ∈ set) : i < set.bits.log2 + 1 := by
  apply Nat.lt_of_not_le
  intro hle
  have hlt : set.bits < 2 ^ i :=
    Nat.lt_of_lt_of_le Nat.lt_log2_self (Nat.pow_le_pow_right (by decide) hle)
  have hbit := Nat.testBit_lt_two_pow hlt
  rw [mem_iff, hbit] at h
  exact absurd h (by decide)

/-- The list of members is complete. -/
@[simp] theorem mem_toList {i : Nat} {set : IndexSet} : i ∈ set.toList ↔ i ∈ set := by
  rw [toList, List.mem_filter, List.mem_range]
  exact ⟨fun h => h.2, fun h => ⟨lt_of_mem h, h⟩⟩

@[simp] theorem mem_ofList {i : Nat} {list : List Nat} : i ∈ ofList list ↔ i ∈ list := by
  have hfold : ∀ (list : List Nat) (set : IndexSet),
      i ∈ list.foldl insert set ↔ i ∈ set ∨ i ∈ list := by
    intro list
    induction list with
    | nil => intro set; simp
    | cons j list ih =>
        intro set
        rw [List.foldl_cons, ih, mem_insert, List.mem_cons, or_assoc]
  rw [ofList, hfold]
  simp

end IndexSet

end RegisterColouring
