/-
**Variables under other names.**

The analysis of a function numbers its names and works with the numbers from then on.  So if the
variables of a function are renamed, and no two of them come to share a name, liveness and conflicts
are those of the function itself: the same numbers stand for the new names.

Main definitions:

* `RegisterColouring.KeepsApart` — a renaming that keeps variables apart;
* `RegisterColouring.Function.relabel`, `RegisterColouring.Vocabulary.relabel`,
  `RegisterColouring.Graph.relabel` — functions, vocabularies and conflict graphs under other names.

Main results:

* `RegisterColouring.Vocabulary.ofFunction_relabel` — the numbers of names stay;
* `RegisterColouring.Liveness.analyse_relabel` — liveness stays;
* `RegisterColouring.Graph.ofLiveness_relabel` — **conflicts stay**.
-/

import RegisterColouring.Proofs.SpillAnalysis
import RegisterColouring.Proofs.SpillConflicts

set_option autoImplicit false

namespace RegisterColouring

variable {image : String → String}

/-- No two variables come to share a name. -/
def KeepsApart (image : String → String) (vars : List String) : Prop :=
  ∀ v ∈ vars, ∀ w ∈ vars, image v = image w → v = w

/-! ### Lists under an injection -/

theorem eraseDups_map {α β : Type} [BEq α] [LawfulBEq α] [BEq β] [LawfulBEq β] {f : α → β}
    {list : List α} (hinj : ∀ a ∈ list, ∀ b ∈ list, f a = f b → a = b) :
    (list.map f).eraseDups = list.eraseDups.map f := by
  -- each step of `eraseDups` goes on with a filtered, hence shorter, tail
  induction hn : list.length using Nat.strong_induction_on generalizing list with
  | h n ih =>
      cases list with
      | nil => simp
      | cons a rest =>
          have hfilter : (rest.map f).filter (fun b => !b == f a) =
              (rest.filter fun b => !b == a).map f := by
            rw [List.filter_map]
            congr 1
            apply List.filter_congr
            intro b hb
            have hiff : f b = f a ↔ b = a :=
              ⟨hinj b (List.mem_cons_of_mem _ hb) a (List.mem_cons_self ..), congrArg f⟩
            rw [Bool.eq_iff_iff]
            simp [hiff]
          have hlt : (rest.filter fun b => !b == a).length < n := by
            have hle := List.length_filter_le (fun b => !b == a) rest
            rw [List.length_cons] at hn
            omega
          rw [List.map_cons, List.eraseDups_cons, List.eraseDups_cons, List.map_cons, hfilter,
            ih _ hlt (fun b hb c hc => hinj b (List.mem_cons_of_mem _ (List.mem_of_mem_filter hb)) c
              (List.mem_cons_of_mem _ (List.mem_of_mem_filter hc))) rfl]

theorem idxOf?_map {α β : Type} [BEq α] [LawfulBEq α] [BEq β] [LawfulBEq β] {f : α → β} {a : α}
    {list : List α} (hinj : ∀ b ∈ list, f b = f a → b = a) :
    (list.map f).idxOf? (f a) = list.idxOf? a := by
  induction list with
  | nil => rfl
  | cons b rest ih =>
      have hiff : f b = f a ↔ b = a := ⟨hinj b (List.mem_cons_self ..), congrArg f⟩
      rw [List.map_cons, List.idxOf?_cons, List.idxOf?_cons,
        ih fun c hc => hinj c (List.mem_cons_of_mem _ hc)]
      by_cases hb : b = a
      · simp [hb]
      · simp [hb, mt hiff.1 hb]

/-! ### Names -/

namespace Name

@[simp] theorem rename_empty : rename image "" = "" := by simp [rename]

/-- A renamed name is a register exactly if it was one. -/
@[simp] theorem isGeneralPurpose_rename (name : Name) :
    Register.isGeneralPurpose (rename image name) = Register.isGeneralPurpose name := by
  unfold rename
  split
  · next v hv =>
    have hname : name = ofVariable (String.ofList v) := by
      rw [← String.toList_inj, toList_ofVariable, hv, String.toList_ofList]
    simp [hname, Register.isGeneralPurpose]
  · rfl

/-- Names of registers and of variables that are kept apart are kept apart. -/
theorem rename_inj {vars : List String} (hapart : KeepsApart image vars) {n m : Name}
    (hn : n ∈ (Vocabulary.ofVariables vars).names) (hm : m ∈ (Vocabulary.ofVariables vars).names)
    (h : rename image n = rename image m) : n = m := by
  rcases Vocabulary.mem_names_ofVariables.1 hn with hn | ⟨v, hv, rfl⟩ <;>
    rcases Vocabulary.mem_names_ofVariables.1 hm with hm | ⟨w, hw, rfl⟩
  · rwa [rename_register hn, rename_register hm] at h
  · rw [rename_register hn, rename_ofVariable] at h
    exact absurd h.symm (ofVariable_ne_register hn)
  · rw [rename_register hm, rename_ofVariable] at h
    exact absurd h (ofVariable_ne_register hm)
  · rw [rename_ofVariable, rename_ofVariable, ofVariable_inj] at h
    rw [hapart v hv w hw h]

end Name

/-! ### Vocabularies -/

namespace Vocabulary

/-- The same numbers for renamed names. -/
def relabel (image : String → String) (vocabulary : Vocabulary) : Vocabulary :=
  ⟨vocabulary.names.map (Name.rename image)⟩

variable {vocabulary : Vocabulary} {vars : List String}

@[simp] theorem size_relabel : (vocabulary.relabel image).size = vocabulary.size := by
  simp [relabel, size]

@[simp] theorem name_relabel (i : Nat) :
    (vocabulary.relabel image).name i = Name.rename image (vocabulary.name i) := by
  rw [name, name, name?, name?, relabel, List.getElem?_map]
  cases vocabulary.names[i]? <;> simp

@[simp] theorem isRegister_relabel (i : Nat) :
    (vocabulary.relabel image).isRegister i = vocabulary.isRegister i := by
  simp [isRegister]

@[simp] theorem registers_relabel :
    (vocabulary.relabel image).registers = vocabulary.registers := by
  rw [registers, registers, indices, size_relabel, indices]
  exact congrArg IndexSet.ofList (List.filter_congr fun i _ => isRegister_relabel i)

@[simp] theorem unshiftable_relabel :
    (vocabulary.relabel image).unshiftable = vocabulary.unshiftable := by
  have hfilter : ∀ i, (vocabulary.isRegister i &&
      Name.rename image (vocabulary.name i) != Register.shiftAmount) =
      (vocabulary.isRegister i && vocabulary.name i != Register.shiftAmount) := by
    intro i
    cases hregister : vocabulary.isRegister i with
    | false => rfl
    | true => rw [Name.rename_register (Register.isGeneralPurpose_iff.1 hregister)]
  simp [unshiftable, indices, hfilter]

theorem ofVariables_relabel (hapart : KeepsApart image vars) :
    ofVariables (vars.map image) = (ofVariables vars).relabel image := by
  have hnames : (vars.eraseDups.map image).map Name.ofVariable =
      (vars.eraseDups.map Name.ofVariable).map (Name.rename image) := by
    simp [List.map_map, Function.comp_def]
  rw [ofVariables, ofVariables, relabel, eraseDups_map hapart, List.map_append, hnames,
    Name.map_rename_registers image Register.generalPurpose fun _ h => h]

theorem index?_relabel (hapart : KeepsApart image vars) {name : Name}
    (hname : name ∈ (ofVariables vars).names) :
    ((ofVariables vars).relabel image).index? (Name.rename image name) =
      (ofVariables vars).index? name :=
  idxOf?_map fun _ hn h => Name.rename_inj hapart hn hname h

/-- The numbers of renamed names are those of the names. -/
theorem numbers_relabel (hapart : KeepsApart image vars) {names : List Name} {list : List Nat}
    (h : (ofVariables vars).numbers names = .ok list) :
    ((ofVariables vars).relabel image).numbers (names.map (Name.rename image)) = .ok list := by
  induction names generalizing list with
  | nil => exact h
  | cons name names ih =>
      simp only [numbers] at h
      split at h
      · simp at h
      · next i hi =>
        split at h
        · next rest hrest =>
          rw [List.map_cons, numbers, index?_relabel hapart (mem_of_index? hi), hi, ih hrest]
          exact h
        · simp at h

theorem set_relabel (hapart : KeepsApart image vars) {names : List Name} {set : IndexSet}
    (h : (ofVariables vars).set names = .ok set) :
    ((ofVariables vars).relabel image).set (names.map (Name.rename image)) = .ok set := by
  unfold Vocabulary.set at h ⊢
  split at h
  · next list hlist =>
    rw [numbers_relabel hapart hlist]
    exact h
  · simp at h

end Vocabulary

/-! ### Functions -/

namespace Function

/-- A function with its variables renamed. -/
def relabel (image : String → String) (function : Function) : Function :=
  { function with code := function.code.map (Instruction.rename image) }

variable {function : Function}

theorem vars_relabel (h : function.Regular) (hapart : KeepsApart image function.vars) :
    (function.relabel image).vars = function.vars.map image := by
  have hflat : (function.code.map (Instruction.rename image)).flatMap Instruction.vars =
      (function.code.flatMap Instruction.vars).map image := by
    rw [List.flatMap_map, List.map_flatMap]
    apply List.flatMap_congr
    intro instruction hmem
    exact Instruction.vars_rename (h instruction hmem)
  rw [vars, vars, Function.relabel, hflat, eraseDups_map]
  intro v hv w hw
  exact hapart v (List.mem_eraseDups.2 hv) w (List.mem_eraseDups.2 hw)

end Function

/-- **The numbers of names stay.** -/
theorem Vocabulary.ofFunction_relabel {function : Function} (h : function.Regular)
    (hapart : KeepsApart image function.vars) :
    Vocabulary.ofFunction (function.relabel image) =
      (Vocabulary.ofFunction function).relabel image := by
  rw [Vocabulary.ofFunction, Function.vars_relabel h hapart, Vocabulary.ofVariables_relabel hapart]
  rfl

/-! ### Control flow -/

namespace Function

variable {function : Function}

theorem labelsFrom_relabel (name : String) (known : List (String × Nat)) (index : Nat)
    (code : List Instruction) :
    labelsFrom name known index (code.map (Instruction.rename image)) =
      labelsFrom name known index code := by
  induction code generalizing known index with
  | nil => rfl
  | cons instruction code ih =>
      cases instruction with
      | label label => simp only [List.map_cons, Instruction.rename, labelsFrom, ih]
      | _ => simp only [List.map_cons, Instruction.rename, labelsFrom, ih]

theorem successorsOf_rename (labels : List (String × Nat)) (length index : Nat)
    (instruction : Instruction) :
    successorsOf labels length index (instruction.rename image) =
      successorsOf labels length index instruction := by
  cases instruction with
  | call callee arguments => cases callee <;> rfl
  | _ => rfl

theorem successorsFrom_relabel (name : String) (labels : List (String × Nat)) (length index : Nat)
    (code : List Instruction) :
    successorsFrom name labels length index (code.map (Instruction.rename image)) =
      successorsFrom name labels length index code := by
  induction code generalizing index with
  | nil => rfl
  | cons instruction code ih =>
      simp only [List.map_cons, successorsFrom, successorsOf_rename, ih]

@[simp] theorem labels_relabel : (function.relabel image).labels = function.labels :=
  labelsFrom_relabel function.name [] 0 function.code

@[simp] theorem successors_relabel (labels : List (String × Nat)) :
    (function.relabel image).successors labels = function.successors labels := by
  rw [successors, successors, Function.relabel, List.length_map, successorsFrom_relabel]

end Function

/-! ### Liveness -/

namespace Liveness

/-- The same liveness for renamed variables. -/
def relabel (image : String → String) (result : Liveness) : Liveness :=
  { result with
    function := result.function.relabel image
    vocabulary := result.vocabulary.relabel image }

variable {function : Function} {result : Liveness}

theorem pointsFrom_relabel {vars : List String} (hapart : KeepsApart image vars) {name : String}
    {code : List Instruction} {index : Nat} {successors : List (List Nat)} {points : List Point}
    (hregular : ∀ instruction ∈ code, instruction.isRegular = true)
    (h : pointsFrom name (Vocabulary.ofVariables vars) index code successors = .ok points) :
    pointsFrom name ((Vocabulary.ofVariables vars).relabel image) index
      (code.map (Instruction.rename image)) successors = .ok points := by
  induction code generalizing index successors points with
  | nil => exact h
  | cons instruction code ih =>
      cases successors with
      | nil => exact h
      | cons here rest =>
          rw [List.forall_mem_cons] at hregular
          simp only [pointsFrom] at h
          split at h
          · next gen kill hgen hkill =>
            split at h
            · next points' hpoints =>
              simp only [List.map_cons, pointsFrom, Instruction.gen_rename hregular.1,
                Instruction.kill_rename hregular.1, Vocabulary.set_relabel hapart hgen,
                Vocabulary.set_relabel hapart hkill, ih hregular.2 hpoints]
              exact h
            · simp at h
          · simp at h
          · simp at h

/-- **Liveness stays** when variables are renamed. -/
theorem analyse_relabel (hregular : function.Regular) (hapart : KeepsApart image function.vars)
    (h : analyse function = .ok result) :
    analyse (function.relabel image) = .ok (result.relabel image) := by
  obtain ⟨hfunction, hvocabulary, hlabels, successors, hsuccessors, hpoints, hsettle⟩ :=
    analyse_eq_ok h
  have hpoints' : pointsFrom function.name (result.vocabulary.relabel image) 0
      (function.code.map (Instruction.rename image)) successors = .ok result.points := by
    rw [hvocabulary] at hpoints ⊢
    exact pointsFrom_relabel hapart hregular hpoints
  have hsettle' : settle result.points
      (passBound (function.relabel image).code.length (result.vocabulary.relabel image).size) 0
      (result.points.map fun _ => ⟨∅, ∅⟩) = some (result.live, result.passes) := by
    rwa [Vocabulary.size_relabel, Function.relabel, List.length_map]
  simp only [analyse, Function.labels_relabel, hlabels, Function.successors_relabel, hsuccessors,
    Vocabulary.ofFunction_relabel hregular hapart, ← hvocabulary]
  rw [Function.relabel] at hsettle' ⊢
  simp only [hpoints', hsettle']
  rw [relabel, hfunction]
  rfl

end Liveness

/-! ### Conflicts -/

namespace Graph

/-- The same conflicts for renamed names. -/
def relabel (image : String → String) (graph : Graph) : Graph :=
  { graph with vocabulary := graph.vocabulary.relabel image }

variable {graph : Graph} {vars : List String} {instruction : Instruction}

theorem addShift_relabel (hapart : KeepsApart image vars)
    (hvocabulary : graph.vocabulary = Vocabulary.ofVariables vars)
    (hregular : instruction.isRegular = true) (hvars : ∀ v ∈ instruction.vars, v ∈ vars) :
    (graph.relabel image).addShift (instruction.rename image) =
      (graph.addShift instruction).relabel image := by
  rw [addShift, addShift, Instruction.shiftName?_rename hregular]
  cases hshift : instruction.shiftName? with
  | none => rfl
  | some amount =>
      have hamount : amount ∈ (Vocabulary.ofVariables vars).names := by
        rw [Vocabulary.mem_names_ofVariables]
        refine (Instruction.tracked_of_isRegular hregular
          (Or.inl (Instruction.shiftName?_mem_gen hshift))).imp_right ?_
        rintro ⟨v, hv, rfl⟩
        exact ⟨v, hvars v hv, rfl⟩
      have hindex : (graph.relabel image).vocabulary.index? (Name.rename image amount) =
          graph.vocabulary.index? amount := by
        rw [relabel, hvocabulary]
        exact Vocabulary.index?_relabel hapart hamount
      simp only [Option.map_some, Option.bind_some, hindex]
      cases graph.vocabulary.index? amount with
      | none => rfl
      | some i => rw [relabel, Vocabulary.unshiftable_relabel]; rfl

theorem addPoint_relabel (hapart : KeepsApart image vars)
    (hvocabulary : graph.vocabulary = Vocabulary.ofVariables vars)
    (hregular : instruction.isRegular = true) (hvars : ∀ v ∈ instruction.vars, v ∈ vars)
    (point : Point) (live : Live) :
    (graph.relabel image).addPoint (instruction.rename image) point live =
      (graph.addPoint instruction point live).relabel image := by
  have hvocabulary' : (((graph.addClique live.before).addClique live.after).addBiclique point.kill
      live.after).vocabulary = Vocabulary.ofVariables vars := hvocabulary
  exact addShift_relabel hapart hvocabulary' hregular hvars

/-- One instruction after the other adds the same conflicts. -/
theorem addPoints_relabel (hapart : KeepsApart image vars) {code : List Instruction}
    (hvocabulary : graph.vocabulary = Vocabulary.ofVariables vars)
    (hregular : ∀ instruction ∈ code, instruction.isRegular = true)
    (hvars : ∀ instruction ∈ code, ∀ v ∈ instruction.vars, v ∈ vars) (rest : List (Point × Live)) :
    (graph.relabel image).addPoints ((code.map (Instruction.rename image)).zip rest) =
      (graph.addPoints (code.zip rest)).relabel image := by
  induction code generalizing graph rest with
  | nil => rfl
  | cons instruction code ih =>
      cases rest with
      | nil => rfl
      | cons here rest =>
          rw [List.forall_mem_cons] at hregular hvars
          simp only [addPoints, List.map_cons, List.zip_cons_cons, List.foldl_cons]
          rw [addPoint_relabel hapart hvocabulary hregular.1 hvars.1]
          exact ih (by rw [vocabulary_addPoint, hvocabulary]) hregular.2 hvars.2 rest

/-- **Conflicts stay** when variables are renamed. -/
theorem ofLiveness_relabel {function : Function} {result : Liveness} (hregular : function.Regular)
    (hapart : KeepsApart image function.vars) (h : Liveness.analyse function = .ok result) :
    ofLiveness (result.relabel image) = (ofLiveness result).relabel image := by
  obtain ⟨hfunction, hvocabulary, -⟩ := Liveness.analyse_eq_ok h
  have hstart : (edgeless (result.vocabulary.relabel image)).addRegisters =
      (edgeless result.vocabulary).addRegisters.relabel image := by
    rw [addRegisters, edgeless, Vocabulary.size_relabel, Vocabulary.registers_relabel]
    rfl
  rw [ofLiveness_eq, ofLiveness_eq, Liveness.relabel]
  dsimp only
  rw [hstart, Function.relabel, hfunction]
  apply addPoints_relabel hapart
  · rw [vocabulary_addRegisters, hvocabulary, Vocabulary.ofFunction]
  · exact hregular
  · exact fun instruction hmem v hv => Function.mem_vars.2 ⟨instruction, hmem, hv⟩

end Graph

end RegisterColouring
