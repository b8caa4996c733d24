/-
**A supply runs through the free names.**

`RegisterColouring.NameSupply.fresh` looks for a free number within a bound.  Here it is compared
with the loop that has none: try the candidate at the counter, move the counter on, and stop at the
first candidate that is not taken, which is taken from then on.  The counter of that loop is a
machine word, so the two agree as long as it does not start over.  That the loop ends at all is due
to there being only finitely many taken names, and to different numbers giving different names.

Remembering the names that were given changes nothing, since their numbers are past.  So what a
supply gives depends on the taken names alone: all names with a free number, in the order of the
numbers.

Main definitions:

* `RegisterColouring.NameSupply.Free` — a number whose candidate is not taken;
* `RegisterColouring.NameSupply.after`, `RegisterColouring.NameSupply.issued` — the supply after
  some calls, and the names that they gave;
* `RegisterColouring.NameSupply.Call`, `RegisterColouring.NameSupply.Calls` — one call as a loop
  without a bound, and several in a row.

Main results:

* `RegisterColouring.NameSupply.strictMono_number`, `RegisterColouring.NameSupply.number_eq_iff` —
  the numbers of the names increase, and are exactly the free ones;
* `RegisterColouring.NameSupply.calls_iff` — the loop ends at every call, with the name that the
  bounded search finds;
* `RegisterColouring.NameSupply.names_enumerated` — **a supply gives exactly the free names, in the
  order of their numbers**.
-/

import Mathlib.Data.Nat.Find
import Mathlib.Order.Monotone.Basic
import Mathlib.Order.WellFounded
import RegisterColouring.Proofs.FreshNames

set_option autoImplicit false

namespace RegisterColouring

namespace NameSupply

variable {supply : NameSupply} {calls n : Nat} {v : String}

/-! ### Free numbers -/

/-- A number whose candidate is not taken. -/
def Free (supply : NameSupply) (n : Nat) : Prop := supply.candidate n ∉ supply.taken

theorem free_nextFree (supply : NameSupply) : supply.Free supply.nextFree :=
  candidate_nextFree_not_mem

/-- No number that the search passes over is free. -/
theorem not_free_of_lt_nextFree (supply : NameSupply) (hle : supply.next ≤ n)
    (hlt : n < supply.nextFree) : ¬ supply.Free n := by
  obtain ⟨k, -, hfree, hbefore, -⟩ := supply.freeFrom_spec supply.taken.length supply.next
  rw [nextFree, hfree] at hlt
  have hmem := hbefore (n - supply.next) (by omega)
  rw [Nat.add_sub_cancel' hle] at hmem
  exact not_not_intro hmem

/-! ### Calls in a row -/

/-- The supply after some calls. -/
def after (supply : NameSupply) : Nat → NameSupply
  | 0 => supply
  | calls + 1 => (supply.after calls).fresh.2

/-- The number of the name that is given after some calls. -/
def number (supply : NameSupply) (calls : Nat) : Nat := (supply.after calls).nextFree

/-- The names that some calls give, in order. -/
def issued (supply : NameSupply) : Nat → List String
  | 0 => []
  | calls + 1 => supply.issued calls ++ [(supply.after calls).fresh.1]

@[simp] theorem stem_after (supply : NameSupply) (calls : Nat) :
    (supply.after calls).stem = supply.stem := by
  induction calls with
  | zero => rfl
  | succ calls ih => rw [after, stem_fresh, ih]

@[simp] theorem taken_after (supply : NameSupply) (calls : Nat) :
    (supply.after calls).taken = supply.taken := by
  induction calls with
  | zero => rfl
  | succ calls ih => rw [after, taken_fresh, ih]

@[simp] theorem candidate_after (supply : NameSupply) (calls n : Nat) :
    (supply.after calls).candidate n = supply.candidate n := by
  rw [candidate, candidate, stem_after]

@[simp] theorem free_after : (supply.after calls).Free n ↔ supply.Free n := by
  rw [Free, Free, candidate_after, taken_after]

theorem next_after_succ (supply : NameSupply) (calls : Nat) :
    (supply.after (calls + 1)).next = supply.number calls + 1 := rfl

theorem fresh_after (supply : NameSupply) (calls : Nat) :
    (supply.after calls).fresh =
      (supply.candidate (supply.number calls), supply.after (calls + 1)) := by
  rw [Prod.ext_iff]
  exact ⟨candidate_after supply calls _, rfl⟩

theorem issued_succ (supply : NameSupply) (calls : Nat) :
    supply.issued (calls + 1) =
      supply.issued calls ++ [supply.candidate (supply.number calls)] := by
  rw [issued, fresh_after]

theorem issued_eq_map (supply : NameSupply) (calls : Nat) :
    supply.issued calls =
      (List.range calls).map fun k => supply.candidate (supply.number k) := by
  induction calls with
  | zero => rfl
  | succ calls ih => rw [issued_succ, ih, List.range_succ, List.map_append, List.map_singleton]

theorem after_fresh (supply : NameSupply) (calls : Nat) :
    supply.fresh.2.after calls = supply.after (calls + 1) := by
  induction calls with
  | zero => rfl
  | succ calls ih => exact congrArg (fun later => later.fresh.2) ih

theorem freshMany_succ (supply : NameSupply) (calls : Nat) :
    supply.freshMany (calls + 1) = (supply.after calls).fresh := by
  induction calls generalizing supply with
  | zero => rfl
  | succ calls ih => rw [freshMany, ih, after_fresh]

/-! ### The numbers of the names -/

theorem free_number (supply : NameSupply) (calls : Nat) : supply.Free (supply.number calls) :=
  free_after.1 (supply.after calls).free_nextFree

theorem strictMono_number (supply : NameSupply) : StrictMono supply.number := by
  apply strictMono_nat_of_lt_succ
  intro calls
  have hle := (supply.after (calls + 1)).next_le_nextFree
  rwa [next_after_succ] at hle

theorem next_le_number (supply : NameSupply) (calls : Nat) :
    supply.next ≤ supply.number calls := by
  calc supply.next ≤ supply.number 0 := supply.next_le_nextFree
    _ ≤ supply.number calls := supply.strictMono_number.monotone (Nat.zero_le calls)

/-- **The numbers of the names are exactly the free ones** that are not past. -/
theorem number_eq_iff : (∃ calls, supply.number calls = n) ↔ supply.next ≤ n ∧ supply.Free n := by
  constructor
  · rintro ⟨calls, rfl⟩
    exact ⟨supply.next_le_number calls, supply.free_number calls⟩
  · rintro ⟨hnext, hfree⟩
    -- the first call whose number is not below `n`: it would pass over `n` if it did not give it
    have hexists : ∃ calls, n ≤ supply.number calls := ⟨n, supply.strictMono_number.le_apply⟩
    have hreached := Nat.find_spec hexists
    refine ⟨Nat.find hexists, Nat.le_antisymm (Nat.not_lt.1 fun hlt => ?_) hreached⟩
    refine (supply.after _).not_free_of_lt_nextFree ?_ hlt (free_after.2 hfree)
    cases hcalls : Nat.find hexists with
    | zero => exact hnext
    | succ calls =>
        rw [next_after_succ]
        exact Nat.not_le.1 (Nat.find_min hexists (by omega))

theorem nodup_issued (supply : NameSupply) (calls : Nat) : (supply.issued calls).Nodup := by
  rw [issued_eq_map]
  apply List.Nodup.map _ List.nodup_range
  intro a b hab
  exact supply.strictMono_number.injective (candidate_inj hab)

theorem not_mem_taken_of_mem_issued (h : v ∈ supply.issued calls) : v ∉ supply.taken := by
  rw [issued_eq_map] at h
  obtain ⟨k, -, rfl⟩ := List.mem_map.1 h
  exact supply.free_number k

/-- A name that is given later was not given before. -/
theorem candidate_number_not_mem_issued (supply : NameSupply) (calls : Nat) :
    supply.candidate (supply.number calls) ∉ supply.issued calls := by
  rw [issued_eq_map]
  intro hmem
  obtain ⟨k, hk, heq⟩ := List.mem_map.1 hmem
  have hlt := supply.strictMono_number (List.mem_range.1 hk)
  have := candidate_inj heq
  omega

/-! ### The loop without a bound -/

/-- **One call as a loop without a bound.**  The candidate at the counter is tried, and the counter
moves on, from its last value to zero.  A candidate that is not taken is given, and is taken from
then on. -/
inductive Call : NameSupply → String → NameSupply → Prop
  | give {supply : NameSupply} (hfree : supply.Free supply.next) :
      Call supply (supply.candidate supply.next)
        ⟨supply.stem, (supply.next + 1) % UInt64.size,
          supply.taken ++ [supply.candidate supply.next]⟩
  | pass {supply later : NameSupply} {name : String} (htaken : ¬ supply.Free supply.next)
      (hrest : Call ⟨supply.stem, (supply.next + 1) % UInt64.size, supply.taken⟩ name later) :
      Call supply name later

/-- Several calls in a row. -/
inductive Calls (supply : NameSupply) : Nat → List String → NameSupply → Prop
  | none : Calls supply 0 [] supply
  | more {calls : Nat} {names : List String} {before later : NameSupply} {name : String}
      (hcalls : Calls supply calls names before) (hcall : Call before name later) :
      Calls supply (calls + 1) (names ++ [name]) later

/-- A call ends in at most one way. -/
theorem Call.unique {name name' : String} {later later' : NameSupply}
    (h : supply.Call name later) (h' : supply.Call name' later') :
    name = name' ∧ later = later' := by
  induction h with
  | give hfree =>
      cases h' with
      | give => exact ⟨rfl, rfl⟩
      | pass htaken => exact absurd hfree htaken
  | pass htaken _ ih =>
      cases h' with
      | give hfree => exact absurd hfree htaken
      | pass _ hrest => exact ih hrest

theorem Calls.unique {names names' : List String} {later later' : NameSupply}
    (h : supply.Calls calls names later) (h' : supply.Calls calls names' later') :
    names = names' ∧ later = later' := by
  induction h generalizing names' later' with
  | none =>
      cases h'
      exact ⟨rfl, rfl⟩
  | more _ hcall ih =>
      cases h' with
      | more hcalls' hcall' =>
          obtain ⟨rfl, rfl⟩ := ih hcalls'
          obtain ⟨rfl, rfl⟩ := hcall.unique hcall'
          exact ⟨rfl, rfl⟩

/-- The loop ends at the first free number, if the counter gets there. -/
theorem call_of_free (supply : NameSupply) (k : Nat)
    (hbefore : ∀ m < k, ¬ supply.Free (supply.next + m)) (hfree : supply.Free (supply.next + k))
    (hsize : supply.next + k + 1 < UInt64.size) :
    supply.Call (supply.candidate (supply.next + k))
      ⟨supply.stem, supply.next + k + 1, supply.taken ++ [supply.candidate (supply.next + k)]⟩ := by
  induction k generalizing supply with
  | zero =>
      have hgive := Call.give hfree
      rwa [Nat.mod_eq_of_lt hsize] at hgive
  | succ k ih =>
      apply Call.pass (hbefore 0 (Nat.succ_pos k))
      rw [Nat.mod_eq_of_lt (by omega)]
      -- the rest of the loop is the loop of the supply whose counter has moved on
      have hshift : ∀ m, supply.next + 1 + m = supply.next + (m + 1) := fun m => by omega
      have hrest := ih ⟨supply.stem, supply.next + 1, supply.taken⟩
      simp only [hshift] at hrest
      exact hrest (fun m hm => hbefore (m + 1) (by omega)) hfree hsize

/-- The supply after some calls, with the names that they gave among the taken ones. -/
def remembering (supply : NameSupply) (calls : Nat) : NameSupply :=
  ⟨supply.stem, (supply.after calls).next, supply.taken ++ supply.issued calls⟩

theorem remembering_succ (supply : NameSupply) (calls : Nat) :
    supply.remembering (calls + 1) =
      ⟨supply.stem, supply.number calls + 1,
        (supply.remembering calls).taken ++ [supply.candidate (supply.number calls)]⟩ := by
  rw [remembering, issued_succ, next_after_succ, remembering, List.append_assoc]

/-- Names that were given before do not get in the way of the loop. -/
theorem call_remembering (hsize : (supply.after (calls + 1)).next < UInt64.size) :
    (supply.remembering calls).Call (supply.candidate (supply.number calls))
      (supply.remembering (calls + 1)) := by
  have hle : (supply.after calls).next ≤ supply.number calls :=
    (supply.after calls).next_le_nextFree
  obtain ⟨k, hk⟩ := Nat.exists_eq_add_of_le hle
  have hbefore : ∀ m < k, ¬ (supply.remembering calls).Free ((supply.after calls).next + m) := by
    intro m hm hfree
    have hlt : (supply.after calls).next + m < supply.number calls := by omega
    refine (supply.after calls).not_free_of_lt_nextFree (Nat.le_add_right _ m) hlt ?_
    exact free_after.2 fun hmem => hfree (List.mem_append_left _ hmem)
  have hfree : (supply.remembering calls).Free (supply.number calls) := by
    intro hmem
    rcases List.mem_append.1 hmem with hmem | hmem
    · exact supply.free_number calls hmem
    · exact supply.candidate_number_not_mem_issued calls hmem
  rw [next_after_succ] at hsize
  rw [remembering_succ]
  rw [hk] at hfree hsize ⊢
  exact (supply.remembering calls).call_of_free k hbefore hfree hsize

theorem next_after_mono (supply : NameSupply) : Monotone fun calls => (supply.after calls).next :=
  monotone_nat_of_le_succ fun calls =>
    Nat.le_succ_of_le (supply.after calls).next_le_nextFree

theorem calls_remembering (hsize : (supply.after calls).next < UInt64.size) :
    supply.Calls calls (supply.issued calls) (supply.remembering calls) := by
  induction calls with
  | zero =>
      rw [remembering, issued, List.append_nil]
      exact Calls.none
  | succ calls ih =>
      have hbefore := ih (Nat.lt_of_le_of_lt (supply.next_after_mono (Nat.le_succ calls)) hsize)
      rw [issued_succ]
      exact hbefore.more (call_remembering hsize)

/-- **The loop ends at every call**, and gives what the bounded search gives, as long as the counter
does not start over. -/
theorem calls_iff (hsize : (supply.after calls).next < UInt64.size) {names : List String}
    {later : NameSupply} :
    supply.Calls calls names later ↔
      names = supply.issued calls ∧ later = supply.remembering calls := by
  constructor
  · intro h
    exact h.unique (calls_remembering hsize)
  · rintro ⟨rfl, rfl⟩
    exact calls_remembering hsize

/-! ### The enumeration -/

/-- **A supply gives exactly the free names, in the order of their numbers.**  The names that any
number of calls give are those with the first free numbers, so they differ and none is taken, and
after each call the counter is one past the number of the name given last.  As long as the counter
fits a machine word, the loop without a bound that remembers the names it gave ends at each of these
calls, and only with these names and this counter. -/
theorem names_enumerated (stem : String) (taken : List String) :
    let supply := ofTaken stem taken
    let name := fun n => Name.unsigiled stem ++ Numeral.natural n
    ∃ number : Nat → Nat, StrictMono number ∧
      (∀ n, (∃ k, number k = n) ↔ name n ∉ taken.map Name.unsigiled) ∧
      ∀ calls,
        supply.issued calls = (List.range calls).map (fun k => name (number k)) ∧
        (supply.issued calls).Nodup ∧
        (∀ v ∈ supply.issued calls, v ∉ taken.map Name.unsigiled) ∧
        supply.freshMany (calls + 1) = (name (number calls), supply.after (calls + 1)) ∧
        (supply.after (calls + 1)).next = number calls + 1 ∧
        ((supply.after calls).next < UInt64.size → ∀ names later,
          supply.Calls calls names later ↔
            names = supply.issued calls ∧
              later = { supply.after calls with
                taken := taken.map Name.unsigiled ++ supply.issued calls }) := by
  intro supply name
  refine ⟨supply.number, supply.strictMono_number, ?_, ?_⟩
  · intro n
    rw [number_eq_iff]
    exact and_iff_right (Nat.zero_le n)
  · intro calls
    refine ⟨supply.issued_eq_map calls, supply.nodup_issued calls,
      fun v => not_mem_taken_of_mem_issued, ?_, supply.next_after_succ calls, ?_⟩
    · rw [freshMany_succ, fresh_after]
      rfl
    · intro hsize names later
      rw [calls_iff hsize, remembering, ← stem_after supply calls]
      rfl

/-- A stem that ends in a digit, and taken names with and without their sigil, one of them twice. -/
theorem digit_names_enumerated :
    let supply := ofTaken "%t1" ["t10", "%t12", "t12", "%t1"]
    (supply.after 2).next < UInt64.size ∧
      supply.issued 2 = ["t11", "t13"] ∧ (supply.after 2).next = 4 ∧
      supply.Calls 2 ["t11", "t13"] ⟨"t1", 4, ["t10", "t12", "t12", "t1", "t11", "t13"]⟩ := by
  intro supply
  have hissued : supply.issued 2 = ["t11", "t13"] := by decide +kernel
  have hafter : supply.after 2 = ⟨"t1", 4, ["t10", "t12", "t12", "t1"]⟩ := by decide +kernel
  have hsize : (supply.after 2).next < UInt64.size := by
    rw [hafter]
    decide
  obtain ⟨number, -, -, hcalls⟩ := names_enumerated "%t1" ["t10", "%t12", "t12", "%t1"]
  obtain ⟨-, -, -, -, -, hloop⟩ := hcalls 2
  refine ⟨hsize, hissued, congrArg next hafter, (hloop hsize _ _).2 ⟨hissued.symm, ?_⟩⟩
  decide +kernel

end NameSupply

end RegisterColouring
