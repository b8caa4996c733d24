/-
**Names and their numbers.**

A variable is told from a register by its sigil, so the names of a vocabulary are pairwise different
and a name and its number determine each other.  Sets of numbers can therefore be read as sets of
names, which is how every later statement about live names and conflicts is phrased.

Main results:

* `RegisterColouring.Name.ofVariable_ne_register` — no variable is named like a register;
* `RegisterColouring.Vocabulary.nodup_ofVariables` — the names of a vocabulary are different;
* `RegisterColouring.Vocabulary.index?_eq_some_iff` — a name and its number determine each other;
* `RegisterColouring.Vocabulary.mem_set`, `RegisterColouring.Vocabulary.set_ok_iff` — the set of
  some names, and when there is one.
-/

import Mathlib.Data.List.Nodup
import RegisterColouring.Flow.Vocabulary

set_option autoImplicit false

namespace RegisterColouring

/-! ### Lists without repetitions -/

/-- Erasing duplicates leaves none. -/
theorem nodup_eraseDups {α : Type} [DecidableEq α] (list : List α) : list.eraseDups.Nodup := by
  -- each step keeps the head and filters it out of the rest, so the rest gets shorter
  induction hn : list.length using Nat.strongRecOn generalizing list with
  | ind n ih =>
      cases list with
      | nil => simp
      | cons a rest =>
          rw [List.eraseDups_cons, List.nodup_cons]
          constructor
          · simp [List.mem_eraseDups]
          · have hlt : (rest.filter fun b => !b == a).length < n := by
              have hle := List.length_filter_le (fun b => !b == a) rest
              simp at hn
              omega
            exact ih _ hlt _ rfl

/-- A table without repeated keys has the entries that it holds. -/
theorem lookup_eq_some_iff_mem {α β : Type} [BEq α] [LawfulBEq α] {entries : List (α × β)}
    (hnodup : (entries.map Prod.fst).Nodup) {key : α} {value : β} :
    entries.lookup key = some value ↔ (key, value) ∈ entries := by
  induction entries with
  | nil => simp
  | cons entry rest ih =>
      obtain ⟨first, found⟩ := entry
      rw [List.map_cons, List.nodup_cons] at hnodup
      rw [List.lookup_cons, List.mem_cons, Prod.mk.injEq]
      by_cases hkey : key = first
      · subst hkey
        have hrest : (key, value) ∉ rest := fun hmem => hnodup.1 (List.mem_map.2 ⟨_, hmem, rfl⟩)
        simp [hrest, eq_comm]
      · rw [beq_false_of_ne hkey]
        simp [hkey, ih hnodup.2]

/-! ### Variables and registers -/

namespace Name

@[simp] theorem toList_ofVariable (v : String) : (ofVariable v).toList = '%' :: v.toList := by
  simp [ofVariable]

@[simp] theorem ofVariable_inj {v w : String} : ofVariable v = ofVariable w ↔ v = w := by
  simp [ofVariable]

/-- No general purpose register has a sigil. -/
theorem head?_of_generalPurpose :
    ∀ r ∈ Register.generalPurpose, r.toList.head? ≠ some '%' := by decide

/-- No variable is named like a register. -/
theorem ofVariable_ne_register {v r : String} (hr : r ∈ Register.generalPurpose) :
    ofVariable v ≠ r := by
  intro h
  apply head?_of_generalPurpose r hr
  rw [← h, toList_ofVariable, List.head?_cons]

@[simp] theorem ofVariable_not_mem_generalPurpose (v : String) :
    ofVariable v ∉ Register.generalPurpose :=
  fun h => ofVariable_ne_register h rfl

end Name

namespace Register

@[simp] theorem isGeneralPurpose_iff {name : String} :
    isGeneralPurpose name = true ↔ name ∈ generalPurpose := by
  simp [isGeneralPurpose]

theorem nodup_generalPurpose : generalPurpose.Nodup := by decide

theorem shiftAmount_mem : shiftAmount ∈ generalPurpose := by decide

theorem callerSaved_subset {name : String} (h : name ∈ callerSaved) : name ∈ generalPurpose :=
  callerSaved_append_calleeSaved_perm.subset (List.mem_append_left _ h)

theorem calleeSaved_subset {name : String} (h : name ∈ calleeSaved) : name ∈ generalPurpose :=
  callerSaved_append_calleeSaved_perm.subset (List.mem_append_right _ h)

theorem arguments_subset {name : String} {n : Int64} (h : name ∈ arguments n) :
    name ∈ generalPurpose := by
  have hall : ∀ r ∈ argumentOrder, r ∈ generalPurpose := by decide
  exact hall name (List.mem_of_mem_take h)

end Register

/-! ### Numbers of names -/

namespace Vocabulary

variable {vocabulary : Vocabulary} {name : Name} {i j : Nat}

theorem nodup_ofVariables (vars : List String) : (ofVariables vars).names.Nodup := by
  rw [ofVariables, List.nodup_append]
  refine ⟨Register.nodup_generalPurpose, ?_, ?_⟩
  · exact (nodup_eraseDups vars).map fun v w h => Name.ofVariable_inj.1 h
  · intro r hr n hn h
    obtain ⟨v, -, rfl⟩ := List.mem_map.1 hn
    exact Name.ofVariable_ne_register hr h.symm

theorem mem_names_ofVariables {vars : List String} :
    name ∈ (ofVariables vars).names ↔
      name ∈ Register.generalPurpose ∨ ∃ v ∈ vars, name = Name.ofVariable v := by
  simp only [ofVariables, List.mem_append, List.mem_map, List.mem_eraseDups, eq_comm]

/-- **A name and its number determine each other.** -/
theorem index?_eq_some_iff (hnodup : vocabulary.names.Nodup) :
    vocabulary.index? name = some i ↔ vocabulary.names[i]? = some name := by
  rw [index?, List.idxOf?_eq_some_iff]
  constructor
  · rintro ⟨hi, hname, -⟩
    rw [List.getElem?_eq_getElem hi, hname]
  · intro h
    obtain ⟨hi, hname⟩ := List.getElem?_eq_some_iff.1 h
    refine ⟨hi, hname, ?_⟩
    intro k hk hkname
    have hki : vocabulary.names[k] = vocabulary.names[i] := by rw [hkname, hname]
    have := (hnodup.getElem_inj_iff).1 hki
    omega

theorem index?_eq_none_iff : vocabulary.index? name = none ↔ name ∉ vocabulary.names := by
  rw [index?, List.idxOf?_eq_none_iff]

theorem exists_index? (h : name ∈ vocabulary.names) : ∃ i, vocabulary.index? name = some i := by
  apply Option.ne_none_iff_exists'.1
  intro hnone
  exact index?_eq_none_iff.1 hnone h

theorem name_of_getElem? (h : vocabulary.names[i]? = some name) : vocabulary.name i = name := by
  simp [Vocabulary.name, name?, h]

theorem getElem?_name (hi : i < vocabulary.size) :
    vocabulary.names[i]? = some (vocabulary.name i) := by
  have h := List.getElem?_eq_getElem hi
  rw [h, name_of_getElem? h]

theorem name_mem (hi : i < vocabulary.size) : vocabulary.name i ∈ vocabulary.names :=
  List.mem_of_getElem? (getElem?_name hi)

theorem name_of_index? (h : vocabulary.index? name = some i) : vocabulary.name i = name := by
  rw [index?, List.idxOf?_eq_some_iff] at h
  obtain ⟨hi, hname, -⟩ := h
  exact name_of_getElem? (by rw [List.getElem?_eq_getElem hi, hname])

theorem lt_of_index? (h : vocabulary.index? name = some i) : i < vocabulary.size := by
  rw [index?, List.idxOf?_eq_some_iff] at h
  exact h.1

theorem mem_of_index? (h : vocabulary.index? name = some i) : name ∈ vocabulary.names := by
  rw [← name_of_index? h]
  exact name_mem (lt_of_index? h)

theorem index?_name (hnodup : vocabulary.names.Nodup) (hi : i < vocabulary.size) :
    vocabulary.index? (vocabulary.name i) = some i :=
  (index?_eq_some_iff hnodup).2 (getElem?_name hi)

theorem name_inj (hnodup : vocabulary.names.Nodup) (hi : i < vocabulary.size)
    (hj : j < vocabulary.size) : vocabulary.name i = vocabulary.name j ↔ i = j := by
  constructor
  · intro h
    have hij := index?_name hnodup hi
    rw [h, index?_name hnodup hj] at hij
    exact (Option.some_inj.1 hij).symm
  · rintro rfl
    rfl

/-! ### Sets of names -/

@[simp] theorem mem_indices : i ∈ vocabulary.indices ↔ i < vocabulary.size := by
  simp [indices]

@[simp] theorem mem_registers :
    i ∈ vocabulary.registers ↔
      i < vocabulary.size ∧ vocabulary.name i ∈ Register.generalPurpose := by
  simp [registers, isRegister]

theorem mem_numbers {names : List Name} {list : List Nat}
    (h : vocabulary.numbers names = .ok list) :
    i ∈ list ↔ ∃ name ∈ names, vocabulary.index? name = some i := by
  induction names generalizing list with
  | nil =>
      simp only [numbers, Except.ok.injEq] at h
      simp [← h]
  | cons name names ih =>
      simp only [numbers] at h
      split at h
      · simp at h
      · next k hk =>
        split at h
        · next rest hrest =>
          simp only [Except.ok.injEq] at h
          rw [← h, List.mem_cons, ih hrest, List.exists_mem_cons_iff, hk, Option.some_inj, eq_comm]
        · simp at h

/-- The set of some names holds exactly their numbers. -/
theorem mem_set {names : List Name} {set : IndexSet} (h : vocabulary.set names = .ok set) :
    i ∈ set ↔ ∃ name ∈ names, vocabulary.index? name = some i := by
  unfold Vocabulary.set at h
  split at h
  · next list hlist =>
    simp only [Except.ok.injEq] at h
    rw [← h, IndexSet.mem_ofList, mem_numbers hlist]
  · simp at h

theorem numbers_ok_iff {names : List Name} :
    (∃ list, vocabulary.numbers names = .ok list) ↔ ∀ name ∈ names, name ∈ vocabulary.names := by
  induction names with
  | nil => simp [numbers]
  | cons name names ih =>
      rw [List.forall_mem_cons, ← ih, numbers]
      cases hk : vocabulary.index? name with
      | none => simp [index?_eq_none_iff.1 hk]
      | some k =>
          cases hrest : vocabulary.numbers names with
          | ok rest => simp [mem_of_index? hk]
          | error unknown => simp

/-- There is a set of some names exactly if all of them have numbers. -/
theorem set_ok_iff {names : List Name} :
    (∃ set, vocabulary.set names = .ok set) ↔ ∀ name ∈ names, name ∈ vocabulary.names := by
  rw [← numbers_ok_iff, Vocabulary.set]
  cases hlist : vocabulary.numbers names with
  | ok list => simp
  | error unknown => simp

theorem mem_sorted {set : IndexSet} :
    name ∈ vocabulary.sorted set ↔ ∃ i ∈ set, vocabulary.name i = name := by
  simp [sorted, members]

end Vocabulary

end RegisterColouring
