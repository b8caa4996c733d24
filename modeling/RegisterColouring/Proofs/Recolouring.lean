/-
**Colouring under other names.**

Colouring looks at names in two places only: ties between variables go to the one whose name comes
first, and some names cannot be spilled.  So if the variables of a conflict graph are renamed, their
names compare as before, and the same variables cannot be spilled, then the same variables are
removed in the same order, and each comes out with the same register or is spilled again.

Main definitions:

* `RegisterColouring.KeepsOrder` — a renaming under which names compare as before;
* `RegisterColouring.Graph.Unnoticed` — a renaming that colouring does not notice;
* `RegisterColouring.Assignment.relabel` — registers and spills under other names.

Main results:

* `RegisterColouring.Graph.Unnoticed.eliminate_eq` — the same variables are removed in the same
  order;
* `RegisterColouring.Graph.Unnoticed.colour_eq` — **colouring commutes with renaming**.
-/

import RegisterColouring.Proofs.Outcomes
import RegisterColouring.Proofs.Relabelling

set_option autoImplicit false

namespace RegisterColouring

variable {image : String → String} {vars : List String}

/-- The names of renamed variables compare as before. -/
def KeepsOrder (image : String → String) (vars : List String) : Prop :=
  ∀ v ∈ vars, ∀ w ∈ vars, (Name.ofVariable (image v) < Name.ofVariable (image w) ↔
    Name.ofVariable v < Name.ofVariable w)

/-- Names that compare as before are kept apart. -/
theorem KeepsOrder.keepsApart (h : KeepsOrder image vars) : KeepsApart image vars := by
  intro v hv w hw heq
  have hvw : ¬ Name.ofVariable v < Name.ofVariable w := by
    rw [← h v hv w hw, heq]
    exact String.lt_irrefl _
  have hwv : ¬ Name.ofVariable w < Name.ofVariable v := by
    rw [← h w hw v hv, heq]
    exact String.lt_irrefl _
  exact Name.ofVariable_inj.1 (String.le_antisymm (String.not_lt.1 hwv) (String.not_lt.1 hvw))

/-! ### Alphabetical order -/

theorem KeepsOrder.rename_lt (h : KeepsOrder image vars) {n m : Name} (hn : IsVariableOf vars n)
    (hm : IsVariableOf vars m) : Name.rename image n < Name.rename image m ↔ n < m := by
  obtain ⟨v, hv, rfl⟩ := hn
  obtain ⟨w, hw, rfl⟩ := hm
  rw [Name.rename_ofVariable, Name.rename_ofVariable]
  exact h v hv w hw

theorem insertAlphabetical_rename (h : KeepsOrder image vars) {name : Name} {names : List Name}
    (hname : IsVariableOf vars name) (hnames : ∀ n ∈ names, IsVariableOf vars n) :
    insertAlphabetical (Name.rename image name) (names.map (Name.rename image)) =
      (insertAlphabetical name names).map (Name.rename image) := by
  induction names with
  | nil => rfl
  | cons other rest ih =>
      rw [List.forall_mem_cons] at hnames
      rw [List.map_cons, insertAlphabetical, insertAlphabetical, ih hnames.2]
      by_cases hlt : other < name
      · rw [if_pos hlt, if_pos ((h.rename_lt hnames.1 hname).2 hlt), List.map_cons]
      · rw [if_neg hlt, if_neg (mt (h.rename_lt hnames.1 hname).1 hlt), List.map_cons,
          List.map_cons]

theorem alphabetical_rename (h : KeepsOrder image vars) {names : List Name}
    (hnames : ∀ n ∈ names, IsVariableOf vars n) :
    alphabetical (names.map (Name.rename image)) =
      (alphabetical names).map (Name.rename image) := by
  induction names with
  | nil => rfl
  | cons name names ih =>
      rw [List.forall_mem_cons] at hnames
      rw [alphabetical, List.map_cons, List.foldr_cons, ← alphabetical, ih hnames.2,
        insertAlphabetical_rename h hnames.1 fun n hn => hnames.2 n (mem_alphabetical.1 hn)]
      rfl

/-! ### Elimination -/

theorem choose_congr {α : Type} {better better' : α → α → Bool} {best : α} {list : List α}
    (h : ∀ a ∈ best :: list, ∀ b ∈ best :: list, better' a b = better a b) :
    choose better' best list = choose better best list := by
  induction list generalizing best with
  | nil => rfl
  | cons a rest ih =>
      have ha : a ∈ best :: a :: rest := List.mem_cons_of_mem _ (List.mem_cons_self ..)
      rw [choose, choose, h a ha best (List.mem_cons_self ..)]
      have hsubset : ∀ c ∈ (if better a best then a else best) :: rest, c ∈ best :: a :: rest := by
        intro c hc
        rcases List.mem_cons.1 hc with rfl | hc
        · split
          · exact ha
          · exact List.mem_cons_self ..
        · exact List.mem_cons_of_mem _ (List.mem_cons_of_mem _ hc)
      exact ih fun b hb c hc => h b (hsubset b hb) c (hsubset c hc)

namespace Graph

/-- **Renaming that colouring does not notice**: names compare as before, and the same variables
cannot be spilled. -/
structure Unnoticed (image : String → String) (graph : Graph) (vars : List String)
    (options options' : ColouringOptions) : Prop where
  simple : graph.Simple
  vocabulary_eq : graph.vocabulary = Vocabulary.ofVariables vars
  order : KeepsOrder image vars
  heuristic_eq : options'.heuristic = options.heuristic
  unspillable : ∀ v ∈ vars, (Name.ofVariable (image v) ∈ options'.unspillable ↔
    Name.ofVariable v ∈ options.unspillable)

variable {graph : Graph} {options options' : ColouringOptions} {i j : Nat}

theorem isVariableOf_name (hsimple : graph.Simple)
    (hvocabulary : graph.vocabulary = Vocabulary.ofVariables vars) (hi : i ∈ graph.variableNodes) :
    IsVariableOf vars (graph.vocabulary.name i) :=
  (mem_map_variableNodes hsimple hvocabulary).1 (List.mem_map_of_mem hi)

@[simp] theorem variableNodes_relabel :
    (graph.relabel image).variableNodes = graph.variableNodes :=
  List.filter_congr fun i _ => congrArg not (Vocabulary.isRegister_relabel i)

namespace Unnoticed

theorem precedes_eq (h : Unnoticed image graph vars options options')
    (hi : i ∈ graph.variableNodes) (hj : j ∈ graph.variableNodes) :
    (graph.relabel image).precedes i j = graph.precedes i j := by
  have hlt := h.order.rename_lt (isVariableOf_name h.simple h.vocabulary_eq hi)
    (isVariableOf_name h.simple h.vocabulary_eq hj)
  rw [precedes, precedes, relabel, Vocabulary.name_relabel, Vocabulary.name_relabel]
  exact decide_eq_decide.2 hlt

theorem contains_eq (h : Unnoticed image graph vars options options') {name : Name}
    (hname : IsVariableOf vars name) :
    options'.unspillable.contains (Name.rename image name) = options.unspillable.contains name := by
  obtain ⟨v, hv, rfl⟩ := hname
  rw [Name.rename_ofVariable, Bool.eq_iff_iff, List.contains_iff_mem, List.contains_iff_mem]
  exact h.unspillable v hv

theorem isSpillable_eq (h : Unnoticed image graph vars options options')
    (hi : i ∈ graph.variableNodes) :
    (graph.relabel image).isSpillable options' i = graph.isSpillable options i := by
  rw [isSpillable, isSpillable, relabel, Vocabulary.name_relabel,
    h.contains_eq (isVariableOf_name h.simple h.vocabulary_eq hi)]

theorem easier_eq (h : Unnoticed image graph vars options options') (present : IndexSet)
    (hi : i ∈ graph.variableNodes) (hj : j ∈ graph.variableNodes) :
    (graph.relabel image).easier present i j = graph.easier present i j := by
  rw [easier, easier, h.precedes_eq hi hj]
  rfl

theorem worthier_eq (h : Unnoticed image graph vars options options') (present : IndexSet)
    (hi : i ∈ graph.variableNodes) (hj : j ∈ graph.variableNodes) :
    (graph.relabel image).worthier options' present i j = graph.worthier options present i j := by
  have hrank : ∀ k, (graph.relabel image).rank options' present k =
      graph.rank options present k := by
    intro k
    rw [rank, rank, h.heuristic_eq]
    rfl
  rw [worthier, worthier, h.precedes_eq hi hj, h.isSpillable_eq hi, h.isSpillable_eq hj, hrank,
    hrank]

theorem nextRemoval_eq (h : Unnoticed image graph vars options options') (present : IndexSet)
    {first : Nat} {rest : List Nat} (hnodes : ∀ k ∈ first :: rest, k ∈ graph.variableNodes) :
    (graph.relabel image).nextRemoval options' present first rest =
      graph.nextRemoval options present first rest := by
  rw [nextRemoval, nextRemoval,
    choose_congr fun a ha b hb => h.easier_eq present (hnodes a ha) (hnodes b hb),
    choose_congr fun a ha b hb => h.worthier_eq present (hnodes a ha) (hnodes b hb)]
  rfl

theorem eliminateFrom_eq (h : Unnoticed image graph vars options options') (steps : Nat)
    (present : IndexSet) {nodes : List Nat} (hnodes : ∀ k ∈ nodes, k ∈ graph.variableNodes) :
    (graph.relabel image).eliminateFrom options' steps present nodes =
      graph.eliminateFrom options steps present nodes := by
  induction steps generalizing present nodes with
  | zero => rfl
  | succ steps ih =>
      cases nodes with
      | nil => rfl
      | cons first rest =>
          rw [eliminateFrom, eliminateFrom, h.nextRemoval_eq present hnodes,
            ih _ fun k hk => hnodes k (List.mem_of_mem_filter hk)]

/-- **The same variables are removed in the same order.** -/
theorem eliminate_eq (h : Unnoticed image graph vars options options') :
    (graph.relabel image).eliminate options' = graph.eliminate options := by
  rw [eliminate, eliminate, variableNodes_relabel]
  exact h.eliminateFrom_eq _ _ fun _ hk => hk

end Unnoticed

/-! ### Selection -/

theorem initialColours_relabel : (graph.relabel image).initialColours = graph.initialColours := by
  rw [initialColours, initialColours, relabel, Vocabulary.relabel, List.map_map]
  apply List.map_congr_left
  intro name _
  cases hregister : Register.isGeneralPurpose name with
  | true =>
      rw [Function.comp_apply, Name.rename_register (Register.isGeneralPurpose_iff.1 hregister)]
  | false =>
      have hout : ∀ n, Register.isGeneralPurpose n = false →
          Register.generalPurpose.idxOf? n = none := by
        intro n hn
        rw [List.idxOf?_eq_none_iff, ← Register.isGeneralPurpose_iff, hn]
        exact Bool.false_ne_true
      rw [Function.comp_apply, hout name hregister,
        hout _ (by rw [Name.isGeneralPurpose_rename, hregister])]

theorem selectFrom_relabel {function : String} {removals : List Removal}
    {selection selection' : Selection}
    (h : graph.selectFrom function selection removals = .ok selection') :
    (graph.relabel image).selectFrom function selection removals = .ok selection' := by
  induction removals generalizing selection with
  | nil => exact h
  | cons removal removals ih =>
      have hfree : (graph.relabel image).freeColour? selection.colours removal.node =
          graph.freeColour? selection.colours removal.node := rfl
      rw [selectFrom] at h ⊢
      rw [hfree]
      split at h
      · exact ih h
      · split at h
        · next hoptimistic =>
          rw [if_pos hoptimistic]
          exact ih h
        · simp at h

/-! ### Outcomes -/

end Graph

/-- Registers and spills under other names. -/
def Assignment.relabel (image : String → String) : Assignment → Assignment
  | registers assigned => registers (assigned.map fun (name, r) => (Name.rename image name, r))
  | spills names => spills (names.map (Name.rename image))

namespace Graph

variable {graph : Graph} {options options' : ColouringOptions} {function : String}

theorem registersOf_relabel (colours : List (Option Nat)) :
    Assignment.registers ((graph.relabel image).registersOf colours) =
      (Assignment.registers (graph.registersOf colours)).relabel image := by
  rw [Assignment.relabel, registersOf, registersOf, variableNodes_relabel, List.map_map]
  congr 1
  apply List.map_congr_left
  intro node _
  rw [relabel, Vocabulary.name_relabel]
  rfl

theorem Unnoticed.outcome_eq (h : Unnoticed image graph vars options options') {optimistic k : Nat}
    {failed : List Name} {assignment : Assignment}
    (hfailed : ∀ name ∈ failed, IsVariableOf vars name)
    (houtcome : outcome function options optimistic failed = .ok ⟨assignment, k⟩) :
    outcome function options' optimistic (failed.map (Name.rename image)) =
      .ok ⟨assignment.relabel image, k⟩ := by
  have hfilter : (failed.map (Name.rename image)).filter
      (fun name => !options'.unspillable.contains name) =
      (failed.filter fun name => !options.unspillable.contains name).map (Name.rename image) := by
    rw [List.filter_map]
    congr 1
    apply List.filter_congr
    intro name hname
    rw [Function.comp_apply, h.contains_eq (hfailed name hname)]
  unfold outcome at houtcome ⊢
  dsimp only at houtcome ⊢
  rw [hfilter, List.isEmpty_map]
  split at houtcome
  · simp at houtcome
  · next hsome =>
    rw [if_neg hsome, alphabetical_rename h.order fun name hname =>
      hfailed name (List.mem_of_mem_filter hname)]
    simp only [Except.ok.injEq, Colouring.mk.injEq] at houtcome ⊢
    exact ⟨by rw [← houtcome.1]; rfl, houtcome.2⟩

/-- **Colouring commutes with renaming** that it does not notice. -/
theorem Unnoticed.colour_eq (h : Unnoticed image graph vars options options')
    {assignment : Assignment} {optimistic : Nat}
    (hcolour : graph.colour function options = .ok ⟨assignment, optimistic⟩) :
    (graph.relabel image).colour function options' =
      .ok ⟨assignment.relabel image, optimistic⟩ := by
  have hnodup : graph.vocabulary.names.Nodup := by
    rw [h.vocabulary_eq]
    exact Vocabulary.nodup_ofVariables vars
  obtain ⟨selection, hselect, hselected⟩ := select_spec h.simple hnodup function options
  have hselect' : (graph.relabel image).select function (graph.eliminate options) =
      .ok selection := by
    rw [select, initialColours_relabel]
    exact selectFrom_relabel hselect
  simp only [colour, hselect] at hcolour
  simp only [colour, h.eliminate_eq, hselect']
  split at hcolour
  · next hdone =>
    simp only [Except.ok.injEq, Colouring.mk.injEq] at hcolour
    rw [if_pos hdone, registersOf_relabel, hcolour.1, hcolour.2]
  · next hfailed =>
    have hnames : selection.failed.map (graph.relabel image).vocabulary.name =
        (selection.failed.map graph.vocabulary.name).map (Name.rename image) := by
      rw [List.map_map]
      exact List.map_congr_left fun node _ => Vocabulary.name_relabel node
    rw [if_neg hfailed, hnames]
    apply h.outcome_eq _ hcolour
    intro name hname
    obtain ⟨node, hnode, rfl⟩ := List.mem_map.1 hname
    exact isVariableOf_name h.simple h.vocabulary_eq (hselected.failed_mem node hnode)

end Graph

end RegisterColouring
