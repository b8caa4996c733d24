/-
**Live names are those on a path to a read.**

A name is live before an instruction if some path of control leads from there to an instruction that
reads it, and no instruction on the way overwrites it.  This module states that on the code itself
and shows that the analysis computes exactly it, for every function that it accepts; and that it
accepts exactly the functions whose labels are unique, whose jumps have labels to go to, and whose
tracked names are in the vocabulary.

Main definitions:

* `RegisterColouring.LiveAt`, `RegisterColouring.LiveAfter` — paths to a read;
* `RegisterColouring.Liveness.Analysed` — what the liveness of a function says about it.

Main results:

* `RegisterColouring.Liveness.analysed_of_analyse` — **the analysis is exact**;
* `RegisterColouring.Liveness.analyse_ok_iff` — which functions it accepts;
* `RegisterColouring.Liveness.analyse_error` — how it fails: it always comes to rest.
-/

import RegisterColouring.Proofs.ControlFlow
import RegisterColouring.Proofs.Names
import RegisterColouring.Proofs.Sweeps

set_option autoImplicit false

namespace RegisterColouring

/-! ### Paths to a read -/

/-- **A name is live before the instruction at a position**: a path of control leads from there to
an instruction that reads it, and nothing on the way overwrites it. -/
inductive LiveAt (code : List Instruction) (name : Name) : Nat → Prop
  | read {i : Nat} {instruction : Instruction} (hi : code[i]? = some instruction)
      (hgen : name ∈ instruction.gen) : LiveAt code name i
  | keep {i j : Nat} {instruction : Instruction} (hi : code[i]? = some instruction)
      (hkill : name ∉ instruction.kill) (hflow : Flow code i j) (hj : LiveAt code name j) :
      LiveAt code name i

/-- A name is live after the instruction at a position: it is live before a position that control
can go to from there. -/
def LiveAfter (code : List Instruction) (name : Name) (i : Nat) : Prop :=
  ∃ j, Flow code i j ∧ LiveAt code name j

section Paths

variable {code : List Instruction} {name : Name} {i : Nat} {instruction : Instruction}

theorem liveAt_iff (hi : code[i]? = some instruction) :
    LiveAt code name i ↔
      name ∈ instruction.gen ∨ (name ∉ instruction.kill ∧ LiveAfter code name i) := by
  constructor
  · intro h
    cases h with
    | read hi' hgen =>
        rw [hi, Option.some_inj] at hi'
        exact Or.inl (hi' ▸ hgen)
    | keep hi' hkill hflow hj =>
        rw [hi, Option.some_inj] at hi'
        exact Or.inr ⟨hi' ▸ hkill, _, hflow, hj⟩
  · rintro (hgen | ⟨hkill, j, hflow, hj⟩)
    · exact LiveAt.read hi hgen
    · exact LiveAt.keep hi hkill hflow hj

/-- A live name is read somewhere. -/
theorem LiveAt.exists_read (h : LiveAt code name i) :
    ∃ instruction ∈ code, name ∈ instruction.gen := by
  induction h with
  | read hi hgen => exact ⟨_, List.mem_of_getElem? hi, hgen⟩
  | keep _ _ _ _ ih => exact ih

theorem LiveAt.lt (h : LiveAt code name i) : i < code.length := by
  cases h with
  | read hi _ => exact (List.getElem?_eq_some_iff.1 hi).1
  | keep hi _ _ _ => exact (List.getElem?_eq_some_iff.1 hi).1

end Paths

namespace Liveness

/-! ### Points -/

section Points

variable {name : String} {vocabulary : Vocabulary} {index : Nat} {code : List Instruction}
  {successors : List (List Nat)} {points : List Point}

/-- One point for every instruction, with its successors and the numbers of its names. -/
theorem pointsFrom_eq_ok (h : pointsFrom name vocabulary index code successors = .ok points)
    (hlength : successors.length = code.length) :
    points.length = code.length ∧
      ∀ (i : Nat) (instruction : Instruction), code[i]? = some instruction →
        ∃ point : Point, points[i]? = some point ∧ successors[i]? = some point.successors ∧
          vocabulary.set instruction.gen = .ok point.gen ∧
          vocabulary.set instruction.kill = .ok point.kill := by
  induction code generalizing index successors points with
  | nil =>
      simp only [pointsFrom, Except.ok.injEq] at h
      simp [← h]
  | cons first code ih =>
      cases successors with
      | nil => simp at hlength
      | cons here rest =>
          simp only [pointsFrom] at h
          split at h
          · next gen kill hgen hkill =>
            split at h
            · next tail htail =>
              simp only [Except.ok.injEq] at h
              obtain ⟨hlen, hcode⟩ := ih htail (by simpa using hlength)
              refine ⟨by simp [← h, hlen], ?_⟩
              intro i instruction hi
              cases i with
              | zero =>
                  simp only [List.getElem?_cons_zero, Option.some.injEq] at hi
                  subst hi
                  exact ⟨⟨here, gen, kill⟩, by simp [← h], rfl, hgen, hkill⟩
              | succ i =>
                  obtain ⟨point, hpoint, hrest⟩ := hcode i instruction hi
                  exact ⟨point, by simp [← h, hpoint], hrest⟩
            · simp at h
          · simp at h
          · simp at h

theorem pointsFrom_ok
    (h : ∀ instruction ∈ code, ∀ n, n ∈ instruction.gen ∨ n ∈ instruction.kill →
      n ∈ vocabulary.names) :
    ∃ points, pointsFrom name vocabulary index code successors = .ok points := by
  induction code generalizing index successors with
  | nil => exact ⟨[], rfl⟩
  | cons instruction code ih =>
      cases successors with
      | nil => exact ⟨[], rfl⟩
      | cons here rest =>
          have hfirst := h instruction (List.mem_cons_self ..)
          obtain ⟨gen, hgen⟩ := Vocabulary.set_ok_iff.2 fun n hn => hfirst n (Or.inl hn)
          obtain ⟨kill, hkill⟩ := Vocabulary.set_ok_iff.2 fun n hn => hfirst n (Or.inr hn)
          obtain ⟨points, hpoints⟩ :
              ∃ points, pointsFrom name vocabulary (index + 1) code rest = .ok points :=
            ih fun i hi => h i (List.mem_cons_of_mem _ hi)
          exact ⟨⟨here, gen, kill⟩ :: points, by simp only [pointsFrom, hgen, hkill, hpoints]⟩

theorem pointsFrom_error {e : AnalysisError}
    (h : pointsFrom name vocabulary index code successors = .error e) :
    ∃ index register, e = .unknownRegister name index register := by
  induction code generalizing index successors with
  | nil => simp [pointsFrom] at h
  | cons instruction code ih =>
      cases successors with
      | nil => simp [pointsFrom] at h
      | cons here rest =>
          simp only [pointsFrom] at h
          split at h
          · split at h
            · simp at h
            · next e' he' => exact ih (by rw [he', h])
          · next register _ => exact ⟨index, register, by simpa using h.symm⟩
          · next register _ _ => exact ⟨index, register, by simpa using h.symm⟩

end Points

/-! ### The analysis -/

/-- What the points of a function say about its code: where control can go, and which names are read
and written. -/
structure Describes (code : List Instruction) (vocabulary : Vocabulary) (points : List Point) :
    Prop where
  length_eq : points.length = code.length
  successors : ∀ (i : Nat) (point : Point), points[i]? = some point →
    ∀ j, j ∈ point.successors ↔ Flow code i j
  gen : ∀ (i : Nat) (point : Point) (instruction : Instruction), points[i]? = some point →
    code[i]? = some instruction → ∀ name k, vocabulary.index? name = some k →
    (k ∈ point.gen ↔ name ∈ instruction.gen)
  kill : ∀ (i : Nat) (point : Point) (instruction : Instruction), points[i]? = some point →
    code[i]? = some instruction → ∀ name k, vocabulary.index? name = some k →
    (k ∈ point.kill ↔ name ∈ instruction.kill)

/-- The sets of a table hold only live names. -/
def Sound (code : List Instruction) (vocabulary : Vocabulary) (live : List Live) : Prop :=
  ∀ name k i, vocabulary.index? name = some k →
    (k ∈ before live i → LiveAt code name i) ∧ (k ∈ after live i → LiveAfter code name i)

section Exactness

variable {code : List Instruction} {vocabulary : Vocabulary} {points : List Point}
  {live : List Live}

theorem Describes.exists_instruction (h : Describes code vocabulary points) {i : Nat}
    {point : Point} (hpoint : points[i]? = some point) :
    ∃ instruction, code[i]? = some instruction := by
  have hlt := (List.getElem?_eq_some_iff.1 hpoint).1
  rw [h.length_eq] at hlt
  exact ⟨code[i], List.getElem?_eq_getElem hlt⟩

/-- The equations lead from live names to live names. -/
theorem Sound.update (h : Sound code vocabulary live)
    (hdescribes : Describes code vocabulary points) (i : Nat) :
    Sound code vocabulary (Liveness.update points live i) := by
  cases hpoint : points[i]? with
  | none => rwa [Liveness.update, hpoint]
  | some point =>
      -- only the entry of this instruction changes
      intro name k j hk
      by_cases hj : j = i
      · subst hj
        by_cases hlt : j < live.length
        · obtain ⟨instruction, hinstruction⟩ := hdescribes.exists_instruction hpoint
          have hself := getElem?_update_self hpoint hlt
          have hafter : k ∈ (transfer live point).after → LiveAfter code name j := by
            intro hx
            obtain ⟨m, hm, hmk⟩ := mem_after_transfer.1 hx
            exact ⟨m, (hdescribes.successors j point hpoint m).1 hm, (h name k m hk).1 hmk⟩
          rw [before_eq hself, after_eq hself]
          refine ⟨?_, hafter⟩
          intro hx
          rw [liveAt_iff hinstruction]
          rcases mem_before_transfer.1 hx with ⟨hx, hkill⟩ | hgen
          · rw [hdescribes.kill j point instruction hpoint hinstruction name k hk] at hkill
            exact Or.inr ⟨hkill, hafter hx⟩
          · exact Or.inl ((hdescribes.gen j point instruction hpoint hinstruction name k hk).1 hgen)
        · have hno : ∀ x, ¬ (x ∈ before (Liveness.update points live j) j ∨
              x ∈ after (Liveness.update points live j) j) := by
            intro x hx
            have := lt_of_mem hx
            rw [length_update] at this
            exact hlt this
          exact ⟨fun hx => absurd (Or.inl hx) (hno k), fun hx => absurd (Or.inr hx) (hno k)⟩
      · rw [before_update_of_ne hj, after_update_of_ne hj]
        exact h name k j hk

/-- A table that solves the equations holds every live name. -/
theorem mem_before_of_liveAt (hdescribes : Describes code vocabulary points)
    (hsolves : ∀ (i : Nat) point, points[i]? = some point → live[i]? = some (transfer live point))
    {name : Name} {k i : Nat} (hk : vocabulary.index? name = some k) (h : LiveAt code name i) :
    k ∈ before live i := by
  have hpoints : ∀ {i : Nat} {instruction : Instruction}, code[i]? = some instruction →
      ∃ point, points[i]? = some point := by
    intro i instruction hi
    have hlt := (List.getElem?_eq_some_iff.1 hi).1
    rw [← hdescribes.length_eq] at hlt
    exact ⟨points[i], List.getElem?_eq_getElem hlt⟩
  induction h with
  | read hi hgen =>
      obtain ⟨point, hpoint⟩ := hpoints hi
      rw [before_eq (hsolves _ point hpoint), mem_before_transfer]
      exact Or.inr ((hdescribes.gen _ point _ hpoint hi name k hk).2 hgen)
  | keep hi hkill hflow _ ih =>
      obtain ⟨point, hpoint⟩ := hpoints hi
      rw [before_eq (hsolves _ point hpoint), mem_before_transfer, mem_after_transfer]
      left
      refine ⟨⟨_, (hdescribes.successors _ point hpoint _).2 hflow, ih⟩, ?_⟩
      rwa [hdescribes.kill _ point _ hpoint hi name k hk]

/-- **A table that has come to rest holds exactly the live names.** -/
theorem mem_settled_iff (hdescribes : Describes code vocabulary points) {bound total : Nat}
    (hsettle : settle points bound 0 (points.map fun _ => ⟨∅, ∅⟩) = some (live, total))
    {name : Name} {k i : Nat} (hk : vocabulary.index? name = some k) :
    (k ∈ before live i ↔ LiveAt code name i) ∧ (k ∈ after live i ↔ LiveAfter code name i) := by
  have hsound : Sound code vocabulary live := by
    refine (settle_invariant (P := Sound code vocabulary) (fun live i h => h.update hdescribes i) ?_
      hsettle).1
    intro name k i hk
    rw [before_start, after_start]
    exact ⟨fun h => absurd h (IndexSet.not_mem_empty k),
      fun h => absurd h (IndexSet.not_mem_empty k)⟩
  -- conversely, a table at rest solves the equations
  obtain ⟨hrising, hsweep⟩ :=
    settle_invariant (P := Rising points) (fun live i h => h.update i) rising_start hsettle
  have hsolves : ∀ (i : Nat) point, points[i]? = some point →
      live[i]? = some (transfer live point) :=
    fun i point hpoint => solves_of_sweep_eq hrising hsweep hpoint
  refine ⟨⟨(hsound name k i hk).1, mem_before_of_liveAt hdescribes hsolves hk⟩,
    (hsound name k i hk).2, ?_⟩
  rintro ⟨j, hflow, hj⟩
  have hlt : i < points.length := by
    rw [hdescribes.length_eq]
    cases hflow with
    | next hi _ _ => exact (List.getElem?_eq_some_iff.1 hi).1
    | jump hi _ _ => exact (List.getElem?_eq_some_iff.1 hi).1
  have hpoint := List.getElem?_eq_getElem hlt
  rw [after_eq (hsolves i _ hpoint), mem_after_transfer]
  exact ⟨j, (hdescribes.successors i _ hpoint j).2 hflow,
    mem_before_of_liveAt hdescribes hsolves hk hj⟩

end Exactness

variable {function : Function} {result : Liveness}

/-- **What the liveness of a function says about it.** -/
structure Analysed (function : Function) (result : Liveness) : Prop where
  function_eq : result.function = function
  vocabulary_eq : result.vocabulary = Vocabulary.ofFunction function
  labels : function.labels = .ok result.labels
  length_live : result.live.length = function.code.length
  bounded : Bounded result.vocabulary.size result.live
  kill_lt : ∀ point ∈ result.points, ∀ k ∈ point.kill, k < result.vocabulary.size
  describes : Describes function.code result.vocabulary result.points
  successors : ∀ (i : Nat) (point : Point) (instruction : Instruction),
    result.points[i]? = some point → function.code[i]? = some instruction →
    Function.successorsOf result.labels function.code.length i instruction = .ok point.successors
  known : ∀ instruction ∈ function.code, ∀ name,
    name ∈ instruction.gen ∨ name ∈ instruction.kill → name ∈ result.vocabulary.names
  mem_before : ∀ name k i, result.vocabulary.index? name = some k →
    (k ∈ before result.live i ↔ LiveAt function.code name i)
  mem_after : ∀ name k i, result.vocabulary.index? name = some k →
    (k ∈ after result.live i ↔ LiveAfter function.code name i)

/-- The parts of an analysis that has come to a result. -/
theorem analyse_eq_ok (h : analyse function = .ok result) :
    result.function = function ∧ result.vocabulary = Vocabulary.ofFunction function ∧
      function.labels = .ok result.labels ∧ ∃ successors,
        function.successors result.labels = .ok successors ∧
        pointsFrom function.name result.vocabulary 0 function.code successors = .ok result.points ∧
        settle result.points (passBound function.code.length result.vocabulary.size) 0
          (result.points.map fun _ => ⟨∅, ∅⟩) = some (result.live, result.passes) := by
  simp only [analyse] at h
  split at h
  · simp at h
  · next labels hlabels =>
    split at h
    · simp at h
    · next successors hsuccessors =>
      split at h
      · simp at h
      · next points hpoints =>
        split at h
        · simp at h
        · next live passes hsettle =>
          simp only [Except.ok.injEq] at h
          subst h
          exact ⟨rfl, rfl, hlabels, successors, hsuccessors, hpoints, hsettle⟩

/-- The numbers that a point reads and writes are numbers of the vocabulary. -/
theorem points_lt_size {vocabulary : Vocabulary} {successors : List (List Nat)}
    {points : List Point}
    (hpoints : pointsFrom function.name vocabulary 0 function.code successors = .ok points)
    (hlength : successors.length = function.code.length) :
    ∀ point ∈ points, (∀ k ∈ point.gen, k < vocabulary.size) ∧
      ∀ k ∈ point.kill, k < vocabulary.size := by
  have hset : ∀ {names : List Name} {set : IndexSet}, vocabulary.set names = .ok set →
      ∀ k ∈ set, k < vocabulary.size := by
    intro names set hset k hk
    obtain ⟨name, -, hname⟩ := (Vocabulary.mem_set hset).1 hk
    exact Vocabulary.lt_of_index? hname
  obtain ⟨hplength, hcode⟩ := pointsFrom_eq_ok hpoints hlength
  intro point hpoint
  obtain ⟨i, hi⟩ := List.mem_iff_getElem?.1 hpoint
  have hlt := (List.getElem?_eq_some_iff.1 hi).1
  rw [hplength] at hlt
  obtain ⟨point', hpoint', -, hgen, hkill⟩ := hcode i _ (List.getElem?_eq_getElem hlt)
  rw [hi, Option.some_inj] at hpoint'
  subst hpoint'
  exact ⟨hset hgen, hset hkill⟩

theorem nodup_vocabulary (h : result.vocabulary = Vocabulary.ofFunction function) :
    result.vocabulary.names.Nodup := by
  rw [h]
  exact Vocabulary.nodup_ofVariables function.vars

/-- The numbers of the names that an instruction reads or writes. -/
theorem mem_set_iff {vocabulary : Vocabulary} {names : List Name} {set : IndexSet}
    (hset : vocabulary.set names = .ok set) {name : Name} {k : Nat}
    (hk : vocabulary.index? name = some k) : k ∈ set ↔ name ∈ names := by
  rw [Vocabulary.mem_set hset]
  constructor
  · rintro ⟨n, hn, hnk⟩
    rw [← Vocabulary.name_of_index? hk, Vocabulary.name_of_index? hnk]
    exact hn
  · intro h
    exact ⟨name, h, hk⟩

/-- **The analysis is exact.** -/
theorem analysed_of_analyse (h : analyse function = .ok result) : Analysed function result := by
  obtain ⟨hfunction, hvocabulary, hlabels, successors, hsuccessors, hpoints, hsettle⟩ :=
    analyse_eq_ok h
  obtain ⟨hlength, hof⟩ := Function.successorsFrom_eq_ok hsuccessors
  obtain ⟨hplength, hcode⟩ := pointsFrom_eq_ok hpoints hlength
  -- the point at a position is the one of the instruction there
  have hat : ∀ (i : Nat) (point : Point) (instruction : Instruction),
      result.points[i]? = some point →
      function.code[i]? = some instruction →
      successors[i]? = some point.successors ∧
        result.vocabulary.set instruction.gen = .ok point.gen ∧
        result.vocabulary.set instruction.kill = .ok point.kill := by
    intro i point instruction hpoint hi
    obtain ⟨point', hpoint', hrest⟩ := hcode i instruction hi
    rw [hpoint, Option.some_inj] at hpoint'
    rwa [hpoint']
  have hsuccessorsOf : ∀ (i : Nat) (point : Point) (instruction : Instruction),
      result.points[i]? = some point → function.code[i]? = some instruction →
      Function.successorsOf result.labels function.code.length i instruction =
        .ok point.successors := by
    intro i point instruction hpoint hi
    obtain ⟨list, hlist, hlistOf⟩ := hof i instruction hi
    rw [(hat i point instruction hpoint hi).1, Option.some_inj] at hlist
    rw [hlist]
    simpa using hlistOf
  have hdescribes : Describes function.code result.vocabulary result.points := by
    refine ⟨hplength, ?_, ?_, ?_⟩
    · intro i point hpoint j
      have hlt := (List.getElem?_eq_some_iff.1 hpoint).1
      rw [hplength] at hlt
      have hi := List.getElem?_eq_getElem hlt
      exact Function.mem_successors_iff hlabels hi (hsuccessorsOf i point _ hpoint hi)
    · intro i point instruction hpoint hi name k hk
      exact mem_set_iff (hat i point instruction hpoint hi).2.1 hk
    · intro i point instruction hpoint hi name k hk
      exact mem_set_iff (hat i point instruction hpoint hi).2.2 hk
  have hrising := (settle_invariant (P := Rising result.points) (fun live i h => h.update i)
    rising_start hsettle).1
  have hbounded : Bounded result.vocabulary.size result.live := by
    refine (settle_invariant (P := Bounded result.vocabulary.size)
      (fun live i h =>
        h.update (fun point hpoint => (points_lt_size hpoints hlength point hpoint).1) i) ?_
        hsettle).1
    intro i x hx
    rw [before_start, after_start] at hx
    simp at hx
  refine ⟨hfunction, hvocabulary, hlabels, by rw [hrising.length_eq, hplength], hbounded,
    fun point hpoint => (points_lt_size hpoints hlength point hpoint).2, hdescribes, hsuccessorsOf,
    ?_, ?_, ?_⟩
  · intro instruction hmem name hname
    obtain ⟨i, hi⟩ := List.mem_iff_getElem?.1 hmem
    obtain ⟨point, hpoint, -, hgen, hkill⟩ := hcode i instruction hi
    rcases hname with hname | hname
    · exact Vocabulary.set_ok_iff.1 ⟨_, hgen⟩ name hname
    · exact Vocabulary.set_ok_iff.1 ⟨_, hkill⟩ name hname
  · intro name k i hk
    exact (mem_settled_iff hdescribes hsettle hk).1
  · intro name k i hk
    exact (mem_settled_iff hdescribes hsettle hk).2

/-- **How the analysis fails**: on a label that is defined twice, a jump to nowhere, or a name
outside the vocabulary.  It never fails to come to rest. -/
theorem analyse_error {e : AnalysisError} (h : analyse function = .error e) :
    (∃ index label, e = .duplicateLabel function.name index label) ∨
      (∃ index label, e = .unknownLabel function.name index label) ∨
      ((∃ index register, e = .unknownRegister function.name index register) ∧
        ∃ instruction ∈ function.code, ∃ name, (name ∈ instruction.gen ∨ name ∈ instruction.kill) ∧
          name ∉ (Vocabulary.ofFunction function).names) := by
  simp only [analyse] at h
  split at h
  · next e' he' =>
    simp only [Except.error.injEq] at h
    exact Or.inl (h ▸ Function.labelsFrom_error he')
  · next labels hlabels =>
    split at h
    · next e' he' =>
      simp only [Except.error.injEq] at h
      exact Or.inr (Or.inl (h ▸ Function.successorsFrom_error he'))
    · next successors hsuccessors =>
      split at h
      · next e' he' =>
        simp only [Except.error.injEq] at h
        refine Or.inr (Or.inr ⟨h ▸ pointsFrom_error he', ?_⟩)
        by_contra hnone
        obtain ⟨points, hpoints⟩ : ∃ points, pointsFrom function.name
            (Vocabulary.ofFunction function) 0 function.code successors = .ok points := by
          apply pointsFrom_ok
          intro instruction hmem name hname
          by_contra hunknown
          exact hnone ⟨instruction, hmem, name, hname, hunknown⟩
        rw [hpoints] at he'
        simp at he'
      · next points hpoints =>
        split at h
        · next hsettle =>
          -- the bound on the passes is never reached
          have hlength := (Function.successorsFrom_eq_ok hsuccessors).1
          obtain ⟨live, total, hsome⟩ := exists_settle
            fun point hpoint => (points_lt_size hpoints hlength point hpoint).1
          rw [(pointsFrom_eq_ok hpoints hlength).1] at hsome
          rw [hsome] at hsettle
          simp at hsettle
        · simp at h

/-- **The functions that the analysis accepts**: no label is defined twice, every jump has a label
to go to, and every name that is read or written is in the vocabulary. -/
theorem analyse_ok_iff :
    (∃ result, analyse function = .ok result) ↔
      (function.code.filterMap Instruction.label?).Nodup ∧
        (∀ instruction ∈ function.code, ∀ name, instruction.jump? = some name →
          .label name ∈ function.code) ∧
        ∀ instruction ∈ function.code, ∀ name, name ∈ instruction.gen ∨ name ∈ instruction.kill →
          name ∈ (Vocabulary.ofFunction function).names := by
  constructor
  · rintro ⟨result, hresult⟩
    have hanalysed := analysed_of_analyse hresult
    obtain ⟨-, -, hlabels, successors, hsuccessors, -⟩ := analyse_eq_ok hresult
    refine ⟨Function.labels_ok_iff.1 ⟨_, hlabels⟩,
      (Function.successors_ok_iff hlabels).1 ⟨_, hsuccessors⟩, ?_⟩
    rw [← hanalysed.vocabulary_eq]
    exact hanalysed.known
  · rintro ⟨hnodup, hjumps, hknown⟩
    obtain ⟨labels, hlabels⟩ := Function.labels_ok_iff.2 hnodup
    obtain ⟨successors, hsuccessors⟩ := (Function.successors_ok_iff hlabels).2 hjumps
    obtain ⟨points, hpoints⟩ : ∃ points, pointsFrom function.name
        (Vocabulary.ofFunction function) 0 function.code successors = .ok points :=
      pointsFrom_ok hknown
    have hlength := (Function.successorsFrom_eq_ok hsuccessors).1
    obtain ⟨live, total, hsettle⟩ := exists_settle
            fun point hpoint => (points_lt_size hpoints hlength point hpoint).1
    rw [(pointsFrom_eq_ok hpoints hlength).1] at hsettle
    refine ⟨⟨function, Vocabulary.ofFunction function, labels, points, live, total⟩, ?_⟩
    simp only [analyse, hlabels, hsuccessors, hpoints, hsettle]

/-! ### Live names -/

/-- The names live before the instruction at a position. -/
def liveBefore (result : Liveness) (i : Nat) : List Name :=
  result.vocabulary.sorted (before result.live i)

/-- The names live after the instruction at a position. -/
def liveAfter (result : Liveness) (i : Nat) : List Name :=
  result.vocabulary.sorted (after result.live i)

theorem Analysed.nodup (h : Analysed function result) : result.vocabulary.names.Nodup :=
  nodup_vocabulary h.vocabulary_eq

theorem Analysed.known_of_liveAt (h : Analysed function result) {name : Name} {i : Nat}
    (hlive : LiveAt function.code name i) : name ∈ result.vocabulary.names := by
  obtain ⟨instruction, hmem, hgen⟩ := hlive.exists_read
  exact h.known instruction hmem name (Or.inl hgen)

theorem Analysed.mem_liveBefore (h : Analysed function result) {name : Name} {i : Nat} :
    name ∈ result.liveBefore i ↔ LiveAt function.code name i := by
  rw [liveBefore, Vocabulary.mem_sorted]
  constructor
  · rintro ⟨k, hk, rfl⟩
    exact (h.mem_before _ k i (Vocabulary.index?_name h.nodup (h.bounded i k (Or.inl hk)))).1 hk
  · intro hlive
    obtain ⟨k, hk⟩ := Vocabulary.exists_index? (h.known_of_liveAt hlive)
    exact ⟨k, (h.mem_before name k i hk).2 hlive, Vocabulary.name_of_index? hk⟩

theorem Analysed.mem_liveAfter (h : Analysed function result) {name : Name} {i : Nat} :
    name ∈ result.liveAfter i ↔ LiveAfter function.code name i := by
  rw [liveAfter, Vocabulary.mem_sorted]
  constructor
  · rintro ⟨k, hk, rfl⟩
    exact (h.mem_after _ k i (Vocabulary.index?_name h.nodup (h.bounded i k (Or.inr hk)))).1 hk
  · rintro ⟨j, hflow, hj⟩
    obtain ⟨k, hk⟩ := Vocabulary.exists_index? (h.known_of_liveAt hj)
    exact ⟨k, (h.mem_after name k i hk).2 ⟨j, hflow, hj⟩, Vocabulary.name_of_index? hk⟩

end Liveness

end RegisterColouring
