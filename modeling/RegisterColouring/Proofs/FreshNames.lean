/-
**Fresh names are fresh.**

Different numbers give different names.  A name from the supply is therefore not taken, not even
when every candidate that was tried is: then the candidates tried are all the taken names.  It is
also different from every name that the supply gave before.

Main definitions:

* `RegisterColouring.NameSupply.Avoids` — a name that the supply gives no more;
* `RegisterColouring.NameSupply.Drawn` — names that were drawn from the supply one after the other.

Main results:

* `RegisterColouring.NameSupply.candidate_inj` — candidates with different numbers differ;
* `RegisterColouring.NameSupply.Drawn.single` — **a fresh name is one that was not avoided before,
  and is avoided from then on**.
-/

import Mathlib.Data.List.Nodup
import Mathlib.Data.List.Perm.Subperm
import RegisterColouring.Spill.NameSupply

set_option autoImplicit false

namespace RegisterColouring

theorem Numeral.natural_inj {m n : Nat} (h : Numeral.natural m = Numeral.natural n) : m = n := by
  have hdigits := congrArg String.toList h
  simp only [Numeral.toList_natural] at hdigits
  have hvalue := congrArg (fun cs => Nat.ofDigitChars 10 cs 0) hdigits
  simpa using hvalue

namespace NameSupply

variable {supply : NameSupply} {v : String}

/-- Candidates with different numbers differ. -/
theorem candidate_inj {m n : Nat} (h : supply.candidate m = supply.candidate n) : m = n :=
  Numeral.natural_inj (String.append_right_inj _ |>.1 h)

/-- The candidates before the free number are taken, and so is not the one at it if not all tries
were needed. -/
theorem freeFrom_spec (supply : NameSupply) (tries n : Nat) :
    ∃ k ≤ tries, supply.freeFrom tries n = n + k ∧
      (∀ m < k, supply.candidate (n + m) ∈ supply.taken) ∧
      (k < tries → supply.candidate (n + k) ∉ supply.taken) := by
  induction tries generalizing n with
  | zero => exact ⟨0, Nat.le_refl _, rfl, by simp, by simp⟩
  | succ tries ih =>
      rw [freeFrom]
      split
      · next htaken =>
        obtain ⟨k, hk, hfree, hbefore, hat⟩ := ih (n + 1)
        refine ⟨k + 1, by omega, by omega, ?_, ?_⟩
        · intro m hm
          cases m with
          | zero => simpa using htaken
          | succ m =>
              have hm := hbefore m (by omega)
              rwa [Nat.add_right_comm, Nat.add_assoc] at hm
        · intro hlt
          have hnot := hat (by omega)
          rwa [Nat.add_right_comm, Nat.add_assoc] at hnot
      · next htaken => exact ⟨0, by omega, rfl, by simp, fun _ => by simpa using htaken⟩

/-- Taken names and a further candidate would be too many. -/
theorem candidate_nextFree_not_mem : supply.candidate supply.nextFree ∉ supply.taken := by
  obtain ⟨k, hk, hfree, hbefore, hat⟩ := supply.freeFrom_spec supply.taken.length supply.next
  rw [nextFree, hfree]
  intro hmem
  rcases Nat.lt_or_ge k supply.taken.length with hlt | hge
  · exact hat hlt hmem
  · have hnodup : ((List.range (k + 1)).map fun m => supply.candidate (supply.next + m)).Nodup := by
      apply List.Nodup.map _ List.nodup_range
      intro a b hab
      have := candidate_inj hab
      omega
    have hsubset : ∀ name ∈ (List.range (k + 1)).map fun m => supply.candidate (supply.next + m),
        name ∈ supply.taken := by
      intro name hname
      obtain ⟨m, hm, rfl⟩ := List.mem_map.1 hname
      rw [List.mem_range] at hm
      rcases Nat.lt_or_ge m k with hlt | hmk
      · exact hbefore m hlt
      · rwa [show m = k by omega]
    -- more different names than are taken would be taken
    have hlength := (hnodup.subperm hsubset).length_le
    rw [List.length_map, List.length_range] at hlength
    omega

/-- A name that the supply gives no more: it is taken, or the candidate of a number that is past. -/
def Avoids (supply : NameSupply) (v : String) : Prop :=
  v ∈ supply.taken ∨ ∃ n < supply.next, v = supply.candidate n

theorem next_le_nextFree (supply : NameSupply) : supply.next ≤ supply.nextFree := by
  obtain ⟨k, -, hfree, -⟩ := supply.freeFrom_spec supply.taken.length supply.next
  rw [nextFree, hfree]
  omega

/-- Names that were drawn from the supply one after the other: they differ, none was avoided before,
and all are avoided from then on, as is what was avoided before. -/
structure Drawn (before after : NameSupply) (names : List String) : Prop where
  nodup : names.Nodup
  fresh : ∀ v ∈ names, ¬ before.Avoids v
  used : ∀ v ∈ names, after.Avoids v
  mono : ∀ v, before.Avoids v → after.Avoids v

theorem Drawn.nil (supply : NameSupply) : Drawn supply supply [] :=
  ⟨List.nodup_nil, by simp, by simp, fun _ h => h⟩

/-- **A fresh name is one that was not avoided before, and is avoided from then on.** -/
theorem Drawn.single (supply : NameSupply) : Drawn supply supply.fresh.2 [supply.fresh.1] := by
  have hle := supply.next_le_nextFree
  refine ⟨by simp, ?_, ?_, ?_⟩
  · intro v hv
    obtain rfl := List.mem_singleton.1 hv
    rintro (h | ⟨n, hn, h⟩)
    · exact candidate_nextFree_not_mem h
    · have := candidate_inj h
      omega
  · intro v hv
    obtain rfl := List.mem_singleton.1 hv
    exact Or.inr ⟨supply.nextFree, Nat.lt_succ_self _, rfl⟩
  · rintro v (h | ⟨n, hn, rfl⟩)
    · exact Or.inl h
    · refine Or.inr ⟨n, ?_, rfl⟩
      show n < supply.nextFree + 1
      omega

theorem Drawn.append {a b c : NameSupply} {xs ys : List String} (hxs : Drawn a b xs)
    (hys : Drawn b c ys) : Drawn a c (xs ++ ys) := by
  refine ⟨?_, ?_, ?_, fun v h => hys.mono v (hxs.mono v h)⟩
  · rw [List.nodup_append]
    refine ⟨hxs.nodup, hys.nodup, ?_⟩
    rintro v hv w hw rfl
    exact hys.fresh v hw (hxs.used v hv)
  · intro v hv h
    rcases List.mem_append.1 hv with hv | hv
    · exact hxs.fresh v hv h
    · exact hys.fresh v hv (hxs.mono v h)
  · intro v hv
    rcases List.mem_append.1 hv with hv | hv
    · exact hys.mono v (hxs.used v hv)
    · exact hys.used v hv

end NameSupply

end RegisterColouring
