/-
**Sweeps come to rest.**

Liveness starts from nothing and applies its equations until a whole pass changes nothing.  Along
the way every set only grows: what an instruction's sets hold is always contained in what its
equations give next.  The sets hold only numbers of the vocabulary, so a pass that changes something
adds one of finitely many pairs of an instruction and a number, and the bound on the number of
passes is never reached.  When nothing changes any more, the equations hold.

Main definitions:

* `RegisterColouring.Liveness.Grows` — every set of one table is contained in that of another;
* `RegisterColouring.Liveness.Rising` — every set is contained in what its equation gives;
* `RegisterColouring.Liveness.Within` — all numbers of a table have a property;
* `RegisterColouring.Liveness.weight` — how many pairs of an instruction and a number a table holds.

Main results:

* `RegisterColouring.Liveness.solves_of_sweep_eq` — a table that a sweep does not change solves the
  equations;
* `RegisterColouring.Liveness.settle_invariant` — what every update keeps holds in the end;
* `RegisterColouring.Liveness.exists_settle` — **sweeps come to rest** within the bound.
-/

import Mathlib.Data.Finset.Card
import Mathlib.Data.Finset.Prod
import RegisterColouring.Flow.Liveness

set_option autoImplicit false

namespace RegisterColouring

namespace Liveness

variable {points : List Point} {live live' : List Live} {point : Point} {i j x : Nat}

/-- The names live after the instruction at a position. -/
def after (live : List Live) (i : Nat) : IndexSet := (live[i]?.map Live.after).getD ∅

theorem before_eq {here : Live} (h : live[i]? = some here) : before live i = here.before := by
  simp [before, h]

theorem after_eq {here : Live} (h : live[i]? = some here) : after live i = here.after := by
  simp [after, h]

/-- Only instructions of the table have live names. -/
theorem lt_of_mem (h : x ∈ before live i ∨ x ∈ after live i) : i < live.length := by
  by_contra hge
  have hnone : live[i]? = none := by
    rw [List.getElem?_eq_none_iff]
    omega
  simp [before, after, hnone] at h

/-- A table is determined by its sets. -/
theorem table_ext (hlength : live.length = live'.length)
    (hbefore : ∀ i, before live i = before live' i) (hafter : ∀ i, after live i = after live' i) :
    live = live' := by
  apply List.ext_getElem hlength
  intro i hi hi'
  have hb := hbefore i
  have ha := hafter i
  rw [before_eq (List.getElem?_eq_getElem hi), before_eq (List.getElem?_eq_getElem hi')] at hb
  rw [after_eq (List.getElem?_eq_getElem hi), after_eq (List.getElem?_eq_getElem hi')] at ha
  cases hl : live[i]
  cases hl' : live'[i]
  simp_all

/-! ### The equations -/

@[simp] theorem mem_afterOf :
    x ∈ afterOf live point ↔ ∃ j ∈ point.successors, x ∈ before live j := by
  have hfold : ∀ (list : List Nat) (set : IndexSet),
      x ∈ list.foldl (fun set i => set ∪ before live i) set ↔
        x ∈ set ∨ ∃ j ∈ list, x ∈ before live j := by
    intro list
    induction list with
    | nil => intro set; simp
    | cons j list ih =>
        intro set
        rw [List.foldl_cons, ih, IndexSet.mem_union, List.exists_mem_cons_iff, or_assoc]
  rw [afterOf, hfold]
  simp

@[simp] theorem mem_after_transfer :
    x ∈ (transfer live point).after ↔ ∃ j ∈ point.successors, x ∈ before live j := by
  simp [transfer]

@[simp] theorem mem_before_transfer :
    x ∈ (transfer live point).before ↔
      (x ∈ (transfer live point).after ∧ x ∉ point.kill) ∨ x ∈ point.gen := by
  simp [transfer]

@[simp] theorem length_update : (update points live i).length = live.length := by
  unfold update
  split <;> simp

theorem getElem?_update_self (hi : points[i]? = some point) (hlt : i < live.length) :
    (update points live i)[i]? = some (transfer live point) := by
  simp [update, hi, hlt]

theorem getElem?_update_of_ne (hne : j ≠ i) : (update points live i)[j]? = live[j]? := by
  unfold update
  split
  · rw [List.getElem?_set_ne (Ne.symm hne)]
  · rfl

theorem before_update_of_ne (hne : j ≠ i) : before (update points live i) j = before live j := by
  simp [before, getElem?_update_of_ne hne]

theorem after_update_of_ne (hne : j ≠ i) : after (update points live i) j = after live j := by
  simp [after, getElem?_update_of_ne hne]

/-! ### Growth -/

/-- Every set of one table is contained in that of another. -/
structure Grows (live live' : List Live) : Prop where
  before : ∀ i x, x ∈ before live i → x ∈ before live' i
  after : ∀ i x, x ∈ after live i → x ∈ after live' i

theorem Grows.refl (live : List Live) : Grows live live := ⟨fun _ _ h => h, fun _ _ h => h⟩

theorem Grows.trans {live'' : List Live} (h : Grows live live') (h' : Grows live' live'') :
    Grows live live'' :=
  ⟨fun i x hx => h'.before i x (h.before i x hx), fun i x hx => h'.after i x (h.after i x hx)⟩

theorem Grows.antisymm (h : Grows live live') (h' : Grows live' live)
    (hlength : live.length = live'.length) : live = live' :=
  table_ext hlength
    (fun i => IndexSet.ext fun x => ⟨h.before i x, h'.before i x⟩)
    (fun i => IndexSet.ext fun x => ⟨h.after i x, h'.after i x⟩)

theorem Grows.transfer_after (h : Grows live live') (hx : x ∈ (transfer live point).after) :
    x ∈ (transfer live' point).after := by
  obtain ⟨j, hj, hx⟩ := mem_after_transfer.1 hx
  exact mem_after_transfer.2 ⟨j, hj, h.before j x hx⟩

theorem Grows.transfer_before (h : Grows live live') (hx : x ∈ (transfer live point).before) :
    x ∈ (transfer live' point).before := by
  rcases mem_before_transfer.1 hx with ⟨hx, hkill⟩ | hgen
  · exact mem_before_transfer.2 (Or.inl ⟨h.transfer_after hx, hkill⟩)
  · exact mem_before_transfer.2 (Or.inr hgen)

/-- Every set is contained in what its equation gives. -/
structure Rising (points : List Point) (live : List Live) : Prop where
  length_eq : live.length = points.length
  before : ∀ i point, points[i]? = some point →
    ∀ x ∈ before live i, x ∈ (transfer live point).before
  after : ∀ i point, points[i]? = some point → ∀ x ∈ after live i, x ∈ (transfer live point).after

theorem Rising.lt (h : Rising points live) (hpoint : points[i]? = some point) :
    i < live.length := by
  rw [h.length_eq]
  exact (List.getElem?_eq_some_iff.1 hpoint).1

theorem Rising.grows_update (h : Rising points live) (i : Nat) :
    Grows live (update points live i) := by
  cases hpoint : points[i]? with
  | none =>
      rw [update, hpoint]
      exact Grows.refl live
  | some point =>
      have hself := getElem?_update_self hpoint (h.lt hpoint)
      constructor
      · intro j x hx
        by_cases hj : j = i
        · subst hj
          rw [before_eq hself]
          exact h.before j point hpoint x hx
        · rwa [before_update_of_ne hj]
      · intro j x hx
        by_cases hj : j = i
        · subst hj
          rw [after_eq hself]
          exact h.after j point hpoint x hx
        · rwa [after_update_of_ne hj]

theorem Rising.update (h : Rising points live) (i : Nat) :
    Rising points (Liveness.update points live i) := by
  have hgrows := h.grows_update i
  -- the equations are monotone, so the sets stay within what a grown table gives
  refine ⟨by rw [length_update, h.length_eq], ?_, ?_⟩
  · intro j point hpoint x hx
    apply hgrows.transfer_before
    by_cases hj : j = i
    · subst hj
      rwa [before_eq (getElem?_update_self hpoint (h.lt hpoint))] at hx
    · rw [before_update_of_ne hj] at hx
      exact h.before j point hpoint x hx
  · intro j point hpoint x hx
    apply hgrows.transfer_after
    by_cases hj : j = i
    · subst hj
      rwa [after_eq (getElem?_update_self hpoint (h.lt hpoint))] at hx
    · rw [after_update_of_ne hj] at hx
      exact h.after j point hpoint x hx

theorem Rising.sweepFrom (h : Rising points live) (n : Nat) :
    Rising points (Liveness.sweepFrom points n live) ∧
      Grows live (Liveness.sweepFrom points n live) := by
  induction n generalizing live with
  | zero => exact ⟨h, Grows.refl live⟩
  | succ n ih =>
      obtain ⟨hrising, hgrows⟩ := ih (h.update n)
      exact ⟨hrising, (h.grows_update n).trans hgrows⟩

theorem Rising.sweep (h : Rising points live) :
    Rising points (Liveness.sweep points live) ∧ Grows live (Liveness.sweep points live) :=
  h.sweepFrom points.length

/-! ### Rest -/

theorem update_eq_of_sweepFrom_eq (h : Rising points live) {n : Nat}
    (hsweep : sweepFrom points n live = live) : ∀ i < n, update points live i = live := by
  induction n with
  | zero => intro i hi; omega
  | succ n ih =>
      -- the table comes back to where it was, so it has not grown at the first update either
      have hback : Grows (update points live n) live := by
        have hgrows := ((h.update n).sweepFrom n).2
        rwa [show sweepFrom points n (update points live n) = live from hsweep] at hgrows
      have hfirst : update points live n = live :=
        (h.grows_update n).antisymm hback (by rw [length_update]) |>.symm
      rw [sweepFrom, hfirst] at hsweep
      intro i hi
      rcases Nat.lt_succ_iff_lt_or_eq.1 hi with hi | rfl
      · exact ih hsweep i hi
      · exact hfirst

/-- **A table that a sweep does not change solves the equations.** -/
theorem solves_of_sweep_eq (h : Rising points live) (hsweep : sweep points live = live)
    (hpoint : points[i]? = some point) : live[i]? = some (transfer live point) := by
  have hlt : i < points.length := (List.getElem?_eq_some_iff.1 hpoint).1
  have hself := getElem?_update_self hpoint (h.lt hpoint)
  rwa [update_eq_of_sweepFrom_eq h hsweep i hlt] at hself

theorem sweepFrom_invariant {P : List Live → Prop}
    (hupdate : ∀ live i, P live → P (update points live i)) (n : Nat) (h : P live) :
    P (sweepFrom points n live) := by
  induction n generalizing live with
  | zero => exact h
  | succ n ih => exact ih (hupdate live n h)

/-- **What every update keeps holds in the end**, and in the end a sweep changes nothing. -/
theorem settle_invariant {P : List Live → Prop}
    (hupdate : ∀ live i, P live → P (update points live i)) {bound passes total : Nat}
    (h : P live) (hsettle : settle points bound passes live = some (live', total)) :
    P live' ∧ sweep points live' = live' := by
  induction bound generalizing live passes with
  | zero => simp [settle] at hsettle
  | succ bound ih =>
      simp only [settle] at hsettle
      split at hsettle
      · next heq =>
        simp only [Option.some.injEq, Prod.mk.injEq] at hsettle
        rw [← hsettle.1]
        exact ⟨h, heq⟩
      · exact ih (sweepFrom_invariant hupdate points.length h) hsettle

/-! ### The bound -/

/-- All numbers of a table have a property. -/
def Within (P : Nat → Prop) (live : List Live) : Prop :=
  ∀ i x, x ∈ before live i ∨ x ∈ after live i → P x

/-- What is read anywhere is all that ever gets into a table. -/
theorem Within.update {P : Nat → Prop} (hgen : ∀ point ∈ points, ∀ x ∈ point.gen, P x)
    (h : Within P live) (i : Nat) : Within P (Liveness.update points live i) := by
  cases hpoint : points[i]? with
  | none => rwa [Liveness.update, hpoint]
  | some point =>
      intro j x hx
      by_cases hj : j = i
      · subst hj
        have hlt := lt_of_mem hx
        rw [length_update] at hlt
        have hself := getElem?_update_self hpoint hlt
        rw [before_eq hself, after_eq hself] at hx
        have hafter : x ∈ (transfer live point).after → P x := by
          intro hx
          obtain ⟨k, -, hk⟩ := mem_after_transfer.1 hx
          exact h k x (Or.inl hk)
        rcases hx with hx | hx
        · rcases mem_before_transfer.1 hx with ⟨hx, -⟩ | hx
          · exact hafter hx
          · exact hgen point (List.mem_of_getElem? hpoint) x hx
        · exact hafter hx
      · rw [before_update_of_ne hj, after_update_of_ne hj] at hx
        exact h j x hx

/-- All numbers of a table are below a bound. -/
def Bounded (names : Nat) (live : List Live) : Prop :=
  ∀ i x, x ∈ before live i ∨ x ∈ after live i → x < names

theorem Bounded.update {names : Nat} (hgen : ∀ point ∈ points, ∀ x ∈ point.gen, x < names)
    (h : Bounded names live) (i : Nat) : Bounded names (Liveness.update points live i) :=
  Within.update hgen h i

/-- The pairs of one of the first `length` positions and a number below `names` in its set. -/
def pairs (length names : Nat) (sets : Nat → IndexSet) : Finset (Nat × Nat) :=
  (Finset.range length ×ˢ Finset.range names).filter fun pair => pair.2 ∈ sets pair.1

/-- How many pairs of an instruction and a number a table holds. -/
def weight (length names : Nat) (live : List Live) : Nat :=
  (pairs length names (before live)).card + (pairs length names (after live)).card

theorem weight_le (length names : Nat) (live : List Live) :
    weight length names live ≤ 2 * length * names := by
  have hcard : ∀ sets : Nat → IndexSet, (pairs length names sets).card ≤ length * names := by
    intro sets
    refine (Finset.card_filter_le _ _).trans ?_
    rw [Finset.card_product, Finset.card_range, Finset.card_range]
  have hbefore := hcard (before live)
  have hafter := hcard (after live)
  rw [weight, Nat.mul_assoc]
  omega

theorem pairs_mono {length names : Nat} {sets sets' : Nat → IndexSet}
    (h : ∀ i x, x ∈ sets i → x ∈ sets' i) : pairs length names sets ⊆ pairs length names sets' := by
  intro pair hpair
  simp only [pairs, Finset.mem_filter] at hpair ⊢
  exact ⟨hpair.1, h _ _ hpair.2⟩

/-- Sets that have grown without gaining a pair have not changed. -/
theorem mem_of_card_pairs_le {length names : Nat} {sets sets' : Nat → IndexSet}
    (hsets : ∀ i x, x ∈ sets i → x ∈ sets' i) (hlt : ∀ i x, x ∈ sets' i → i < length ∧ x < names)
    (hcard : (pairs length names sets').card ≤ (pairs length names sets).card) :
    ∀ i x, x ∈ sets' i → x ∈ sets i := by
  intro i x hx
  have hpair : (i, x) ∈ pairs length names sets' := by
    simp [pairs, hlt i x hx, hx]
  rw [← Finset.eq_of_subset_of_card_le (pairs_mono hsets) hcard] at hpair
  exact (Finset.mem_filter.1 hpair).2

/-- A table that has grown without gaining weight has not changed. -/
theorem Grows.eq_of_weight_le {names : Nat} (h : Grows live live')
    (hlength : live.length = live'.length) (hbounded : Bounded names live')
    (hweight : weight live.length names live' ≤ weight live.length names live) : live = live' := by
  have hlt : ∀ i x, x ∈ Liveness.before live' i ∨ x ∈ Liveness.after live' i →
      i < live.length ∧ x < names := fun i x hx => ⟨hlength ▸ lt_of_mem hx, hbounded i x hx⟩
  have hb : (pairs live.length names (Liveness.before live)).card ≤
      (pairs live.length names (Liveness.before live')).card :=
    Finset.card_le_card (pairs_mono h.before)
  have ha : (pairs live.length names (Liveness.after live)).card ≤
      (pairs live.length names (Liveness.after live')).card :=
    Finset.card_le_card (pairs_mono h.after)
  rw [weight, weight] at hweight
  -- neither half of the table has gained a pair
  refine h.antisymm ⟨mem_of_card_pairs_le h.before (fun i x hx => hlt i x (Or.inl hx)) ?_,
    mem_of_card_pairs_le h.after (fun i x hx => hlt i x (Or.inr hx)) ?_⟩ hlength
  · omega
  · omega

theorem exists_settle_of_weight {names : Nat}
    (hgen : ∀ point ∈ points, ∀ x ∈ point.gen, x < names) {bound : Nat} (passes : Nat)
    (hrising : Rising points live) (hbounded : Bounded names live)
    (hbound : 2 * points.length * names < weight points.length names live + bound) :
    ∃ live' total, settle points bound passes live = some (live', total) := by
  induction bound generalizing live passes with
  | zero =>
      have hle := weight_le points.length names live
      omega
  | succ bound ih =>
      rw [settle]
      split
      · exact ⟨_, _, rfl⟩
      · next hne =>
        obtain ⟨hrising', hgrows⟩ := hrising.sweep
        have hbounded' : Bounded names (sweep points live) :=
          sweepFrom_invariant (fun live i h => h.update hgen i) points.length hbounded
        apply ih (passes + 1) hrising' hbounded'
        -- a sweep that changes the table makes it heavier, and its weight is bounded
        have hlt : weight points.length names live <
            weight points.length names (sweep points live) := by
          by_contra hge
          apply hne
          refine (hgrows.eq_of_weight_le ?_ hbounded' ?_).symm
          · rw [hrising.length_eq, hrising'.length_eq]
          · rw [hrising.length_eq]
            omega
        omega

theorem before_start : before (points.map fun _ => ⟨∅, ∅⟩) i = ∅ := by
  rw [before, List.getElem?_map]
  cases points[i]? <;> rfl

theorem after_start : after (points.map fun _ => ⟨∅, ∅⟩) i = ∅ := by
  rw [after, List.getElem?_map]
  cases points[i]? <;> rfl

theorem rising_start : Rising points (points.map fun _ => ⟨∅, ∅⟩) := by
  refine ⟨List.length_map .., ?_, ?_⟩
  · intro i point hpoint x hx
    rw [before_start] at hx
    exact absurd hx (IndexSet.not_mem_empty x)
  · intro i point hpoint x hx
    rw [after_start] at hx
    exact absurd hx (IndexSet.not_mem_empty x)

/-- **Sweeps come to rest** within the bound. -/
theorem exists_settle {names : Nat} (hgen : ∀ point ∈ points, ∀ x ∈ point.gen, x < names) :
    ∃ live total, settle points (passBound points.length names) 0 (points.map fun _ => ⟨∅, ∅⟩) =
      some (live, total) := by
  apply exists_settle_of_weight hgen 0 rising_start
  · intro i x hx
    rw [before_start, after_start] at hx
    rcases hx with hx | hx
    · exact absurd hx (IndexSet.not_mem_empty x)
    · exact absurd hx (IndexSet.not_mem_empty x)
  · rw [passBound]
    omega

end Liveness

end RegisterColouring
