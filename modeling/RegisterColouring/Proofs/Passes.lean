/-
**How many passes liveness takes.**

The analysis applies its equations in passes over the whole code until one changes nothing.  In
every pass the sets before and after all instructions only grow, although each of them is computed
anew from sets of which some belong to this pass and some to the one before.  A pass that changes
something makes one of the sets larger.

This alone would allow as many passes as there are places for a name before or after an instruction.
About half of them are enough.  A pass reads only the sets before instructions.  One that leaves all
of these as they were can still add names after an instruction, but then the next one changes
nothing; so every pass but the last two makes a set before an instruction larger.  These sets only
hold names that are read somewhere, and the first pass adds every such name at once.

Main definitions:

* `RegisterColouring.Liveness.tableAfter` — the sets after a number of passes;
* `RegisterColouring.Liveness.readNames` — the names that are read somewhere;
* `RegisterColouring.Function.Consistent` — functions that can be analysed;
* `RegisterColouring.Liveness.ComesToRest` — passes that grow until nothing changes.

Main results:

* `RegisterColouring.Liveness.settle_tableAfter` — the passes of the analysis are those up to the
  first that changes nothing;
* `RegisterColouring.Liveness.sweep_congr` — a pass reads only the sets before instructions;
* `RegisterColouring.Liveness.card_readNames_add_le` — every pass but the first and the last two
  adds to these sets;
* `RegisterColouring.Liveness.last_le` — hence there are not many passes;
* `RegisterColouring.Liveness.analysis_converges` — **the analysis comes to rest within its bound**.
-/

import RegisterColouring.Proofs.LiveNames

set_option autoImplicit false

namespace RegisterColouring

namespace Liveness

variable {points : List Point} {live live' : List Live} {point : Point} {i j n x : Nat}

/-! ### Tables pass by pass -/

/-- **The sets after a number of passes**, starting from nothing. -/
def tableAfter (points : List Point) : Nat → List Live
  | 0 => points.map fun _ => ⟨∅, ∅⟩
  | k + 1 => sweep points (tableAfter points k)

/-- What every update keeps holds after any number of passes. -/
theorem tableAfter_invariant {P : List Live → Prop}
    (hupdate : ∀ live i, P live → P (update points live i))
    (hstart : P (points.map fun _ => ⟨∅, ∅⟩)) (k : Nat) : P (tableAfter points k) := by
  induction k with
  | zero => exact hstart
  | succ k ih => exact sweepFrom_invariant hupdate points.length ih

theorem rising_tableAfter (points : List Point) (k : Nat) : Rising points (tableAfter points k) :=
  tableAfter_invariant (fun _ i h => h.update i) rising_start k

theorem length_tableAfter (points : List Point) (k : Nat) :
    (tableAfter points k).length = points.length :=
  (rising_tableAfter points k).length_eq

/-- **All sets only grow** from one pass to the next. -/
theorem grows_tableAfter (points : List Point) (k : Nat) :
    Grows (tableAfter points k) (tableAfter points (k + 1)) :=
  (rising_tableAfter points k).sweep.2

theorem within_tableAfter {P : Nat → Prop} (hgen : ∀ point ∈ points, ∀ x ∈ point.gen, P x)
    (k : Nat) : Within P (tableAfter points k) := by
  refine tableAfter_invariant (fun _ i h => h.update hgen i) (fun i x hx => ?_) k
  rw [before_start, after_start] at hx
  simp at hx

/-- A table that has grown has changed only if one of its sets is larger. -/
theorem Grows.exists_new (h : Grows live live') (hlength : live.length = live'.length)
    (hne : live' ≠ live) :
    ∃ i x, (x ∈ Liveness.before live' i ∧ x ∉ Liveness.before live i) ∨
      (x ∈ Liveness.after live' i ∧ x ∉ Liveness.after live i) := by
  by_contra hnone
  refine hne (h.antisymm ⟨fun i x hx => ?_, fun i x hx => ?_⟩ hlength).symm
  · by_contra hx'
    exact hnone ⟨i, x, Or.inl ⟨hx, hx'⟩⟩
  · by_contra hx'
    exact hnone ⟨i, x, Or.inr ⟨hx, hx'⟩⟩

/-- **The passes of the analysis** are those up to the first that changes nothing. -/
theorem settle_tableAfter {bound passes total : Nat}
    (h : settle points bound passes (tableAfter points passes) = some (live, total)) :
    ∃ last, total = last + 1 ∧ live = tableAfter points last ∧
      tableAfter points (last + 1) = tableAfter points last ∧
      ∀ k, passes ≤ k → k < last → tableAfter points (k + 1) ≠ tableAfter points k := by
  induction bound generalizing passes with
  | zero => simp [settle] at h
  | succ bound ih =>
      simp only [settle] at h
      split at h
      · next hrest =>
        simp only [Option.some.injEq, Prod.mk.injEq] at h
        exact ⟨passes, h.2.symm, h.1.symm, hrest, fun k hk hlt => by omega⟩
      · next hchange =>
        obtain ⟨last, htotal, hlive, hrest, hchanges⟩ := ih h
        refine ⟨last, htotal, hlive, hrest, fun k hk hlt => ?_⟩
        rcases Nat.eq_or_lt_of_le hk with rfl | hk
        · exact hchange
        · exact hchanges k hk hlt

/-! ### What a pass reads -/

/-- A pass over the first instructions leaves the others alone. -/
theorem getElem?_sweepFrom_of_le (hle : n ≤ j) : (sweepFrom points n live)[j]? = live[j]? := by
  induction n generalizing live with
  | zero => rfl
  | succ n ih => rw [sweepFrom, ih (by omega), getElem?_update_of_ne (by omega)]

theorem sweepFrom_congr (hn : n ≤ points.length) (hlength : live.length = points.length)
    (hlength' : live'.length = points.length) (hbefore : ∀ i, before live i = before live' i)
    (hrest : ∀ j, n ≤ j → live[j]? = live'[j]?) :
    sweepFrom points n live = sweepFrom points n live' := by
  -- the entries from `n` on agree, and so do the sets that the equations of the others read
  induction n generalizing live live' with
  | zero => exact List.ext_getElem? fun j => hrest j (Nat.zero_le j)
  | succ n ih =>
      have hpoint := List.getElem?_eq_getElem (Nat.lt_of_succ_le hn)
      have htransfer : transfer live points[n] = transfer live' points[n] := by
        simp [transfer, afterOf, hbefore]
      have hentries : ∀ j, n ≤ j → (update points live n)[j]? = (update points live' n)[j]? := by
        intro j hj
        by_cases hjn : j = n
        · subst hjn
          rw [getElem?_update_self hpoint (by omega), getElem?_update_self hpoint (by omega),
            htransfer]
        · rw [getElem?_update_of_ne hjn, getElem?_update_of_ne hjn]
          exact hrest j (by omega)
      refine ih (by omega) (by simpa using hlength) (by simpa using hlength') (fun i => ?_) hentries
      by_cases hi : i = n
      · rw [before, before, hentries i (by omega)]
      · rw [before_update_of_ne hi, before_update_of_ne hi, hbefore i]

/-- **A pass reads only the sets before instructions.** -/
theorem sweep_congr (hlength : live.length = points.length)
    (hlength' : live'.length = points.length) (hbefore : ∀ i, before live i = before live' i) :
    sweep points live = sweep points live' := by
  refine sweepFrom_congr (Nat.le_refl _) hlength hlength' hbefore fun j hj => ?_
  rw [List.getElem?_eq_none_iff.2 (by omega), List.getElem?_eq_none_iff.2 (by omega)]

theorem mem_before_sweepFrom (hlength : live.length = points.length)
    (hpoint : points[i]? = some point) (hx : x ∈ point.gen) (hi : i < n) :
    x ∈ before (sweepFrom points n live) i := by
  induction n generalizing live with
  | zero => omega
  | succ n ih =>
      rw [sweepFrom]
      by_cases hin : i = n
      · subst hin
        have hlt := (List.getElem?_eq_some_iff.1 hpoint).1
        rw [before, getElem?_sweepFrom_of_le (Nat.le_refl i), ← before,
          before_eq (getElem?_update_self hpoint (by omega)), mem_before_transfer]
        exact Or.inr hx
      · exact ih (by simpa using hlength) (by omega)

/-! ### Names before instructions -/

/-- **The names that are read somewhere.** -/
def readNames (points : List Point) (names : Nat) : Finset Nat :=
  (Finset.range names).filter fun x => ∃ point ∈ points, x ∈ point.gen

/-- How many pairs of an instruction and a name before it there are after a number of passes. -/
def countBefore (points : List Point) (names k : Nat) : Nat :=
  (pairs points.length names (before (tableAfter points k))).card

theorem countBefore_le (points : List Point) (names k : Nat) :
    countBefore points names k ≤ points.length * (readNames points names).card := by
  have hcard := Finset.card_product (Finset.range points.length) (readNames points names)
  rw [Finset.card_range] at hcard
  rw [← hcard]
  refine Finset.card_le_card fun pair hpair => ?_
  obtain ⟨hmem, hx⟩ := Finset.mem_filter.1 hpair
  obtain ⟨hi, hlt⟩ := Finset.mem_product.1 hmem
  have hread := within_tableAfter (P := fun x => ∃ point ∈ points, x ∈ point.gen)
    (fun point hpoint x hx => ⟨point, hpoint, hx⟩) k pair.1 pair.2 (Or.inl hx)
  exact Finset.mem_product.2 ⟨hi, Finset.mem_filter.2 ⟨hlt, hread⟩⟩

/-- The first pass adds every name that is read. -/
theorem card_readNames_le (points : List Point) (names : Nat) :
    (readNames points names).card ≤ countBefore points names 1 := by
  have hsubset : readNames points names ⊆
      (pairs points.length names (before (tableAfter points 1))).image Prod.snd := by
    intro x hx
    obtain ⟨hlt, point, hpoint, hgen⟩ := Finset.mem_filter.1 hx
    obtain ⟨i, hi⟩ := List.mem_iff_getElem?.1 hpoint
    have hlen := (List.getElem?_eq_some_iff.1 hi).1
    have hbefore : x ∈ before (tableAfter points 1) i :=
      mem_before_sweepFrom (length_tableAfter points 0) hi hgen hlen
    refine Finset.mem_image.2 ⟨(i, x), Finset.mem_filter.2 ⟨?_, hbefore⟩, rfl⟩
    exact Finset.mem_product.2 ⟨Finset.mem_range.2 hlen, hlt⟩
  exact Nat.le_trans (Finset.card_le_card hsubset) Finset.card_image_le

section Bound

variable {names last : Nat} (hgen : ∀ point ∈ points, ∀ x ∈ point.gen, x < names)

include hgen

/-- **A pass adds a name before an instruction**, unless the next one changes nothing. -/
theorem countBefore_lt {k : Nat} (hchange : tableAfter points (k + 2) ≠ tableAfter points (k + 1)) :
    countBefore points names k < countBefore points names (k + 1) := by
  have hgrows := grows_tableAfter points k
  by_contra hge
  refine hchange (sweep_congr (length_tableAfter ..) (length_tableAfter ..) fun i => ?_)
  refine IndexSet.ext fun x => ⟨?_, hgrows.before i x⟩
  refine mem_of_card_pairs_le hgrows.before (fun i x hx => ?_) (Nat.le_of_not_lt hge) i x
  exact ⟨length_tableAfter points (k + 1) ▸ lt_of_mem (Or.inl hx),
    within_tableAfter hgen (k + 1) i x (Or.inl hx)⟩

variable (hchanges : ∀ k < last, tableAfter points (k + 1) ≠ tableAfter points k)

include hchanges

theorem card_readNames_add_le {k : Nat} (hk : k + 1 < last) :
    (readNames points names).card + k ≤ countBefore points names (k + 1) := by
  induction k with
  | zero => exact card_readNames_le points names
  | succ k ih =>
      have hlt := countBefore_lt hgen (hchanges (k + 2) hk)
      have := ih (by omega)
      omega

/-- **The number of passes that change something** is at most that of pairs of an instruction and a
name, if there are at least two names. -/
theorem last_le (hnames : 2 ≤ names) : last ≤ points.length * names := by
  have htwo : points.length * 2 ≤ points.length * names := Nat.mul_le_mul_left _ hnames
  have hpoints : 0 < last → points.length ≠ 0 := by
    intro hpos hzero
    obtain rfl := List.length_eq_zero_iff.1 hzero
    exact hchanges 0 hpos rfl
  rcases last with _ | _ | k
  · exact Nat.zero_le _
  · have := hpoints Nat.one_pos
    omega
  · have := hpoints (by omega)
    have hle := Nat.le_trans (card_readNames_add_le hgen hchanges (by omega : k + 1 < k + 2))
      (countBefore_le points names (k + 1))
    have hread : (readNames points names).card ≤ names :=
      (Finset.card_filter_le _ _).trans_eq (Finset.card_range names)
    have hmul := Nat.mul_le_mul_left points.length hread
    -- if fewer than two names are read, the others make up for the last two passes
    generalize (readNames points names).card = read at hle hmul
    rcases read with _ | _ | read <;> omega

end Bound

end Liveness

/-! ### The analysis -/

/-- **A function that can be analysed**: no label is defined twice, every jump has a label to go to,
and every name that is read or written is a general purpose register or a variable of the
function. -/
structure Function.Consistent (function : Function) : Prop where
  labels : (function.code.filterMap Instruction.label?).Nodup
  jumps : ∀ instruction ∈ function.code, ∀ name, instruction.jump? = some name →
    .label name ∈ function.code
  names : ∀ instruction ∈ function.code, ∀ name,
    name ∈ instruction.gen ∨ name ∈ instruction.kill →
      name ∈ (Vocabulary.ofFunction function).names

namespace Liveness

/-- **Passes that come to rest**: in each of them all sets only grow, each but the last makes one of
the sets larger, and the last leaves them as they are. -/
structure ComesToRest (points : List Point) (live : List Live) (passes : Nat) : Prop where
  live_eq : live = tableAfter points passes
  grows : ∀ k < passes, Grows (tableAfter points k) (tableAfter points (k + 1))
  enlarges : ∀ k, k + 1 < passes → ∃ i x,
    (x ∈ before (tableAfter points (k + 1)) i ∧ x ∉ before (tableAfter points k) i) ∨
      (x ∈ after (tableAfter points (k + 1)) i ∧ x ∉ after (tableAfter points k) i)
  rests : ∀ k, k + 1 = passes → tableAfter points (k + 1) = tableAfter points k

/-- The passes of an analysis come to rest, and are no more than there are pairs of an instruction
and a name, and one. -/
theorem comesToRest_of_analyse {function : Function} {result : Liveness}
    (h : analyse function = .ok result) :
    ComesToRest result.points result.live result.passes ∧
      result.passes ≤ function.code.length * result.vocabulary.size + 1 := by
  obtain ⟨-, hvocabulary, -, successors, hsuccessors, hpoints, hsettle⟩ := analyse_eq_ok h
  have hlength := (Function.successorsFrom_eq_ok hsuccessors).1
  obtain ⟨last, hpasses, hlive, hrest, hchanges⟩ := settle_tableAfter hsettle
  have hnames : 2 ≤ result.vocabulary.size := by
    rw [hvocabulary, Vocabulary.ofFunction, Vocabulary.size, Vocabulary.ofVariables,
      List.length_append, show Register.generalPurpose.length = 15 from rfl]
    omega
  rw [hpasses]
  refine ⟨⟨hlive.trans hrest.symm, fun k _ => grows_tableAfter _ k, fun k hk => ?_, fun k hk => ?_⟩,
    ?_⟩
  · refine (grows_tableAfter result.points k).exists_new ?_ (hchanges k (Nat.zero_le k) (by omega))
    rw [length_tableAfter, length_tableAfter]
  · obtain rfl : k = last := by omega
    exact hrest
  · rw [← (pointsFrom_eq_ok hpoints hlength).1]
    exact Nat.succ_le_succ (last_le
      (fun point hpoint => (points_lt_size hpoints hlength point hpoint).1)
      (fun k => hchanges k (Nat.zero_le k)) hnames)

/-- **The analysis comes to rest within its bound.**  It never fails because there are too many
passes.  For every function that can be analysed it has a result; in each pass all sets only grow,
each pass that changes something makes one of them larger, and the number of passes is at most that
of pairs of an instruction and a name, and one. -/
theorem analysis_converges (function : Function) :
    (∀ name passes, analyse function ≠ .error (.unsettled name passes)) ∧
    (function.Consistent → ∃ result, analyse function = .ok result ∧
      ComesToRest result.points result.live result.passes ∧
      result.passes ≤ function.code.length * (Vocabulary.ofFunction function).size + 1) := by
  constructor
  · intro name passes herror
    rcases analyse_error herror with ⟨_, _, h⟩ | ⟨_, _, h⟩ | ⟨⟨_, _, h⟩, -⟩ <;> cases h
  · intro hconsistent
    obtain ⟨result, hresult⟩ :=
      analyse_ok_iff.2 ⟨hconsistent.labels, hconsistent.jumps, hconsistent.names⟩
    obtain ⟨hrest, hpasses⟩ := comesToRest_of_analyse hresult
    rw [(analyse_eq_ok hresult).2.1] at hpasses
    exact ⟨result, hresult, hrest, hpasses⟩

/-- A function that jumps back to its start as long as a variable is below a number. -/
def spinning : Function :=
  .ofCode "spinning" 0 [.label "top", .jumpIf .less (.var "x") (.number 1) "top", .ret]

/-- The second pass only finds that the variable is live after the jump, and the third one
nothing. -/
theorem spinning_analysis_converges :
    spinning.Consistent ∧ ∃ result, analyse spinning = .ok result ∧ result.passes = 3 ∧
      ComesToRest result.points result.live result.passes ∧ result.passes ≤ 3 * 16 + 1 := by
  have hconsistent : spinning.Consistent := by
    obtain ⟨hlabels, hjumps, hnames⟩ := analyse_ok_iff.1 ⟨_, (rfl : analyse spinning = .ok _)⟩
    exact ⟨hlabels, hjumps, hnames⟩
  have hcount : (analyse spinning).map Liveness.passes = .ok 3 := by decide +kernel
  obtain ⟨result, hresult, hrest, hpasses⟩ := (analysis_converges spinning).2 hconsistent
  rw [hresult] at hcount
  exact ⟨hconsistent, result, hresult, Except.ok.inj hcount, hrest, hpasses⟩

end Liveness

end RegisterColouring
