/-
**Issues are in order, and none hides another.**

The terms of a text lie one after the other, and the elements of a list within the list.  Each
reader looks at its parts on their own and puts their issues together in the order of the text.  So the
issues of a text never overlap; and once the name and the arity of a function have been read, the
terms of its body that are no instructions are exactly those with an issue inside.

Main definitions:

* `RegisterColouring.Issue.InOrder` — issues one after the other, without overlap;
* `RegisterColouring.Term.Orderly` — a term that is laid out at any depth;
* `RegisterColouring.Term.HasBody` — a function with a name and an arity, and the terms of its body.

Main results:

* `RegisterColouring.Term.orderly_of_readAll` — every term that is read is orderly;
* `RegisterColouring.Function.yields_ofTerm`, `RegisterColouring.Program.yields_ofTerm`,
  `RegisterColouring.SpillRequest.yields_ofTerms` — issues lie one after the other within the terms
  they are about;
* `RegisterColouring.Function.within_iff`, `RegisterColouring.Program.within_iff` — **the terms with
  an issue inside are those that are no instructions**;
* `RegisterColouring.issues_ordered_and_unmasked` — **issues are in order, and none hides another**.
-/

import RegisterColouring.Proofs.ExactSpans
import RegisterColouring.Proofs.InstructionTerms

set_option autoImplicit false

namespace RegisterColouring

open Read (Yields yields_refuse)

/-! ### Spans -/

/-- A span within another. -/
def Span.Within (inner outer : Span) : Prop :=
  outer.start ≤ inner.start ∧ inner.stop ≤ outer.stop

namespace Span.Laid

variable {low high : Int} {α : Type} {place : α → Span} {items : List α} {a b : α}

/-- Of two things that are laid one after the other, one is before the other. -/
theorem eq_or_disjoint (h : Laid low high (items.map place)) (ha : a ∈ items) (hb : b ∈ items) :
    a = b ∨ (place a).stop ≤ (place b).start ∨ (place b).stop ≤ (place a).start := by
  induction items generalizing low with
  | nil => simp at ha
  | cons first items ih =>
      obtain ⟨-, -, hrest⟩ := h
      have hafter : ∀ c ∈ items, (place first).stop ≤ (place c).start :=
        fun c hc => (hrest.covers (List.mem_map_of_mem hc)).1
      rcases List.mem_cons.1 ha with hfirst | ha
      · rcases List.mem_cons.1 hb with hfirst' | hb
        · exact Or.inl (hfirst.trans hfirst'.symm)
        · exact Or.inr (Or.inl (hfirst ▸ hafter b hb))
      · rcases List.mem_cons.1 hb with hfirst | hb
        · exact Or.inr (Or.inr (hfirst ▸ hafter a ha))
        · exact ih hrest ha hb

/-- A span that is not empty lies within one thing at most. -/
theorem eq_of_within (h : Laid low high (items.map place)) (ha : a ∈ items) (hb : b ∈ items)
    {span : Span} (hcovers : (place b).Covers span) (hwithin : span.Within (place a)) : a = b := by
  obtain ⟨hstart, hnonempty, hstop⟩ := hcovers
  obtain ⟨hstart', hstop'⟩ := hwithin
  rcases h.eq_or_disjoint ha hb with heq | hdisjoint | hdisjoint
  · exact heq
  · omega
  · omega

end Span.Laid

/-- **Issues one after the other, without overlap.** -/
def Issue.InOrder (issues : List Issue) : Prop :=
  issues.Pairwise fun a b => a.span.start < a.span.stop ∧ a.span.stop ≤ b.span.start ∧
    b.span.start < b.span.stop

theorem Issue.inOrder_of_laid {low high : Int} {issues : List Issue}
    (h : Span.Laid low high (issues.map Issue.span)) : InOrder issues := by
  induction issues generalizing low with
  | nil => exact List.Pairwise.nil
  | cons issue issues ih =>
      obtain ⟨-, hissue, hrest⟩ := h
      refine List.pairwise_cons.2 ⟨?_, ih hrest⟩
      intro other hother
      obtain ⟨hafter, hnonempty, -⟩ := hrest.covers (List.mem_map_of_mem hother)
      exact ⟨hissue, hafter, hnonempty⟩

/-! ### Terms of a text -/

namespace Term

theorem ExactIn.laidOut {text : List Char} {term : Term} (h : term.ExactIn text) :
    term.LaidOut := by
  refine ⟨h.bounds.2.1, ?_⟩
  rintro span elements rfl
  obtain ⟨hinside, hpairwise⟩ := h.inside span elements rfl
  refine Span.laid_of_pairwise (Int.le_of_lt h.bounds.2.1) ?_ (List.pairwise_map.2 hpairwise)
  rintro _ hmem
  obtain ⟨element, helement, rfl⟩ := List.mem_map.1 hmem
  obtain ⟨hstart, hnonempty, hstop⟩ := hinside element helement
  exact ⟨Int.le_of_lt hstart, hnonempty, Int.le_of_lt hstop⟩

/-- **A term that is laid out at any depth.** -/
def Orderly (term : Term) : Prop := ∀ part, term.HasPart part → part.LaidOut

namespace Orderly

variable {span : Span} {elements : List Term}

theorem laidOut {term : Term} (h : term.Orderly) : term.LaidOut := h term (.self term)

theorem laid (h : (list span elements).Orderly) :
    Span.Laid span.start span.stop (elements.map Term.span) :=
  h.laidOut.inside span elements rfl

theorem element {element : Term} (h : (list span elements).Orderly) (hmem : element ∈ elements) :
    element.Orderly :=
  fun part hpart => h part (.element hmem hpart)

/-- The terms after the first two, which make the body of a function. -/
theorem body {name arity instruction : Term}
    (h : (list span (name :: arity :: elements)).Orderly) (hmem : instruction ∈ elements) :
    instruction.Orderly :=
  h.element (List.mem_cons_of_mem _ (List.mem_cons_of_mem _ hmem))

end Orderly

/-- **Every term that is read is orderly**, and the terms of a text lie one after the other. -/
theorem orderly_of_readAll {text : List Char} {terms : List Term} (h : readAll text = .ok terms) :
    (∀ term ∈ terms, term.Orderly) ∧ Span.Laid 0 text.length (terms.map Term.span) := by
  refine ⟨fun term hterm part hpart => (exactIn_of_readAll h hterm hpart).laidOut, ?_⟩
  have hspread : Token.Spread 0 text.length (Token.scan text) := by
    have hspread := (splits_iff.2 (Eq.refl (Token.scan text))).spread
    rwa [Nat.zero_add] at hspread
  obtain ⟨hbounds, hpairwise⟩ := (readAll_eq_ok_iff.1 h).laid hspread
  refine Span.laid_of_pairwise (Int.natCast_nonneg _) ?_ (List.pairwise_map.2 hpairwise)
  rintro _ hmem
  obtain ⟨term, hterm, rfl⟩ := List.mem_map.1 hmem
  exact hbounds term hterm

end Term

/-! ### Results one after the other -/

namespace Read

variable {α : Type}

/-- The issues of all results are those of each. -/
theorem issues_all (results : List (Read α)) : (all results).issues = results.flatMap issues := by
  unfold all
  split
  · next hempty =>
    rw [issues_ok, eq_comm, List.flatMap_eq_nil_iff]
    intro result hresult
    exact List.isEmpty_iff.1 (List.all_eq_true.1 hempty result hresult)
  · rfl

theorem laid_flatMap {spans : List Span} {results : List (Read α)} {low high : Int}
    (h : List.Forall₂ (Yields fun _ => True) spans results) (hlaid : Span.Laid low high spans) :
    Span.Laid low high ((results.flatMap issues).map Issue.span) := by
  induction h generalizing low with
  | nil => exact hlaid
  | cons hresult _ ih =>
      obtain ⟨hlow, hspan, hrest⟩ := hlaid
      rw [List.flatMap_cons, List.map_append]
      exact ((hresult.laid (Int.le_of_lt hspan)).widen hlow (Int.le_refl _)).append (ih hrest)

/-- Results about spans that lie one after the other. -/
theorem yields_all {spans : List Span} {results : List (Read α)} {span : Span}
    (h : List.Forall₂ (Yields fun _ => True) spans results)
    (hlaid : Span.Laid span.start span.stop spans) :
    Yields (fun _ => True) span (all results) := by
  unfold all
  split
  · exact .value trivial
  · next hsome =>
    refine .complaints ?_ (laid_flatMap h hlaid)
    intro hnil
    refine hsome (List.all_eq_true.2 ?_)
    intro result hresult
    rw [List.flatMap_eq_nil_iff.1 hnil result hresult]
    rfl

end Read

theorem Term.yields_functionName {term : Term} {span : Span} (h : span.Covers term.span)
    (complaint : Complaint) : Yields (fun _ => True) span (term.functionName complaint) := by
  unfold functionName
  split
  · exact .value trivial
  · exact yields_refuse h _

theorem Term.yields_variableName {term : Term} {span : Span} (h : span.Covers term.span) :
    Yields (fun _ => True) span term.variableName := by
  unfold variableName
  split
  · exact .value trivial
  · exact yields_refuse h _

/-! ### Functions -/

/-- **A function with a name and an arity**, and the terms of its body. -/
def Term.HasBody (term : Term) (body : List Term) : Prop :=
  ∃ span name arity, term = list span (name :: arity :: body) ∧
    (∃ function, name.item? = some (.function function)) ∧
    ∃ count, arity.item? = some (.number count) ∧ 0 ≤ count

/-- The terms of the body start after the function, and end within it. -/
theorem Term.HasBody.inside {term instruction : Term} {body : List Term} (hbody : term.HasBody body)
    (h : term.Orderly) (hmem : instruction ∈ body) :
    term.span.start < instruction.span.start ∧ instruction.span.stop ≤ term.span.stop := by
  obtain ⟨span, name, arity, rfl, -⟩ := hbody
  obtain ⟨hname, hnonempty, hrest⟩ := h.laid
  obtain ⟨hafter, -, hstop⟩ := hrest.covers
    (List.mem_map_of_mem (List.mem_cons_of_mem _ hmem))
  exact ⟨Int.lt_of_le_of_lt hname (Int.lt_of_lt_of_le hnonempty hafter), hstop⟩

namespace Function

variable {term instruction : Term} {body : List Term}

theorem yields_ofTerm (h : term.Orderly) :
    Yields (fun _ => True) term.span (Function.ofTerm term) := by
  unfold Function.ofTerm
  split
  · next span name arity body =>
    have hbody : Span.Laid span.start span.stop (body.map Term.span) := h.laid.sublist (by simp)
    refine (Term.yields_functionName (h.laid.covers (by simp)) _).bind fun _ _ => ?_
    refine (Term.yields_numberWith (h.laid.covers (by simp)) _ _).bind fun _ _ => ?_
    refine (Read.yields_all ?_ hbody).bind fun _ _ => .value trivial
    rw [List.forall₂_map_left_iff, List.forall₂_map_right_iff, List.forall₂_same]
    intro instruction hinstruction
    exact (Instruction.yields_ofTerm (h.body hinstruction).laidOut).imp fun _ _ => trivial
  · exact yields_refuse h.laidOut.covers _

/-- Once the name and the arity have been read, the issues are those of the body. -/
theorem issues_ofTerm (h : term.HasBody body) : (Function.ofTerm term).issues =
    body.flatMap fun instruction => (Instruction.ofTerm instruction).issues := by
  obtain ⟨span, name, arity, rfl, ⟨function, hname⟩, count, harity, hcount⟩ := h
  have hissues := Read.issues_all (body.map Instruction.ofTerm)
  rw [List.flatMap_map] at hissues
  rw [Function.ofTerm, Term.functionName, hname, Read.ok_bind, Term.numberWith, harity]
  simp only [decide_eq_true hcount, if_true, Read.ok_bind]
  rw [← hissues]
  cases Read.all (body.map Instruction.ofTerm) with
  | ok code => rfl
  | error issues => rfl

/-- **The terms of a body with an issue inside are those that are no instructions.** -/
theorem within_iff (h : term.Orderly) (hbody : term.HasBody body) (hmem : instruction ∈ body) :
    (∃ issue ∈ (Function.ofTerm term).issues, issue.span.Within instruction.span) ↔
      ¬ instruction.IsInstruction := by
  rw [issues_ofTerm hbody]
  obtain ⟨span, name, arity, rfl, -⟩ := hbody
  have hyields : ∀ t ∈ body, Yields _ t.span (Instruction.ofTerm t) :=
    fun t ht => Instruction.yields_ofTerm (h.body ht).laidOut
  have hlaid : Span.Laid span.start span.stop (body.map Term.span) := h.laid.sublist (by simp)
  rw [Instruction.isInstruction_iff (h.body hmem).laidOut]
  constructor
  · rintro ⟨issue, hissue, hwithin⟩ hnil
    obtain ⟨other, hother, hissue⟩ := List.mem_flatMap.1 hissue
    obtain rfl := hlaid.eq_of_within hmem hother ((hyields other hother).covers hissue) hwithin
    rw [hnil] at hissue
    exact List.not_mem_nil hissue
  · intro hsome
    obtain ⟨issue, hissue⟩ := List.exists_mem_of_ne_nil _ hsome
    have hcovers := (hyields instruction hmem).covers hissue
    exact ⟨issue, List.mem_flatMap.2 ⟨instruction, hmem, hissue⟩, hcovers.1, hcovers.2.2⟩

end Function

/-! ### Programs -/

namespace Program

variable {known : List Function} {span : Span} {head term : Term} {terms : List Term}
  {issue : Issue}

theorem yields_functionsOf (h : ∀ term ∈ terms, term.Orderly) :
    List.Forall₂ (Yields fun _ => True) (terms.map Term.span) (functionsOf known terms) := by
  induction terms generalizing known with
  | nil => exact List.Forall₂.nil
  | cons term terms ih =>
      have hterm := h term (List.mem_cons_self ..)
      have hrest := fun known =>
        @ih known fun other hother => h other (List.mem_cons_of_mem _ hother)
      have hyields := Function.yields_ofTerm hterm
      rw [functionsOf]
      split
      · next issues herror => exact .cons (herror ▸ hyields) (hrest _)
      · split
        · exact .cons (yields_refuse hterm.laidOut.covers _) (hrest _)
        · exact .cons (.value trivial) (hrest _)

/-- No issue of a function is hidden by another function. -/
theorem mem_functionsOf (hterm : term ∈ terms) (hissue : issue ∈ (Function.ofTerm term).issues) :
    issue ∈ (functionsOf known terms).flatMap Read.issues := by
  induction terms generalizing known with
  | nil => simp at hterm
  | cons first terms ih =>
      rw [functionsOf]
      rcases List.mem_cons.1 hterm with rfl | hterm
      · split
        · next issues herror =>
          rw [herror] at hissue
          exact List.mem_append_left _ hissue
        · next function hok =>
          rw [hok] at hissue
          exact absurd hissue List.not_mem_nil
      · split
        · exact List.mem_append_right _ (ih hterm)
        · split
          · exact List.mem_append_right _ (ih hterm)
          · exact ih hterm

/-- An issue of some functions is an issue of one of them, or about one of them as a whole. -/
theorem of_mem_functionsOf (hissue : issue ∈ (functionsOf known terms).flatMap Read.issues) :
    ∃ term ∈ terms, issue ∈ (Function.ofTerm term).issues ∨ issue.span = term.span := by
  induction terms generalizing known with
  | nil => simp [functionsOf] at hissue
  | cons first terms ih =>
      have hrest : ∀ known, issue ∈ (functionsOf known terms).flatMap Read.issues →
          ∃ term ∈ first :: terms,
            issue ∈ (Function.ofTerm term).issues ∨ issue.span = term.span := by
        intro known hissue
        obtain ⟨term, hterm, h⟩ := ih hissue
        exact ⟨term, List.mem_cons_of_mem _ hterm, h⟩
      rw [functionsOf] at hissue
      split at hissue
      · next issues herror =>
        rcases List.mem_append.1 hissue with hissue | hissue
        · exact ⟨first, List.mem_cons_self .., Or.inl (by rwa [herror])⟩
        · exact hrest _ hissue
      · split at hissue
        · rcases List.mem_append.1 hissue with hissue | hissue
          · obtain rfl := List.mem_singleton.1 hissue
            exact ⟨first, List.mem_cons_self .., Or.inr rfl⟩
          · exact hrest _ hissue
        · exact hrest _ hissue

theorem yields_ofTerm (h : term.Orderly) :
    Yields (fun _ => True) term.span (Program.ofTerm term) := by
  unfold Program.ofTerm
  split
  · next span head functions =>
    have hhead : span.Covers head.span := h.laid.covers (by simp)
    have hfunctions : Span.Laid span.start span.stop (functions.map Term.span) :=
      h.laid.sublist (by simp)
    refine (Term.yields_functionName hhead _).bind fun _ _ => ?_
    refine (Read.yields_all (yields_functionsOf ?_) hfunctions).bind fun _ _ => ?_
    · exact fun function hfunction => h.element (List.mem_cons_of_mem _ hfunction)
    · dsimp only
      split
      · exact .value trivial
      · exact yields_refuse hhead _
  · exact yields_refuse h.laidOut.covers _

/-- Once the entry has been read, the issues are those of the functions, or there is one about the
entry. -/
theorem issues_ofTerm (hhead : ∃ entry, head.item? = some (.function entry)) :
    (Program.ofTerm (.list span (head :: terms))).issues =
        (functionsOf [] terms).flatMap Read.issues ∨
      (functionsOf [] terms).flatMap Read.issues = [] ∧
        ∀ issue ∈ (Program.ofTerm (.list span (head :: terms))).issues, issue.span = head.span := by
  obtain ⟨entry, hentry⟩ := hhead
  have hissues := Read.issues_all (functionsOf [] terms)
  rw [← hissues, Program.ofTerm, Term.functionName, hentry, Read.ok_bind]
  cases Read.all (functionsOf [] terms) with
  | error issues => exact Or.inl rfl
  | ok functions =>
      refine Or.inr ⟨rfl, ?_⟩
      rw [Read.ok_bind]
      dsimp only
      split
      · exact fun issue hissue => absurd hissue List.not_mem_nil
      · intro issue hissue
        rw [List.mem_singleton.1 hissue]

/-- **The terms of a body with an issue inside are those that are no instructions**, whatever is
wrong with the other functions. -/
theorem within_iff {function instruction : Term} {body : List Term}
    (h : (Term.list span (head :: terms)).Orderly)
    (hhead : ∃ entry, head.item? = some (.function entry)) (hfunction : function ∈ terms)
    (hbody : function.HasBody body) (hmem : instruction ∈ body) :
    (∃ issue ∈ (Program.ofTerm (.list span (head :: terms))).issues,
        issue.span.Within instruction.span) ↔ ¬ instruction.IsInstruction := by
  have horderly : ∀ term ∈ terms, term.Orderly :=
    fun term hterm => h.element (List.mem_cons_of_mem _ hterm)
  obtain ⟨-, hheadSpan, hlaid⟩ := h.laid
  have hinside := hbody.inside (horderly function hfunction) hmem
  rw [← Function.within_iff (horderly function hfunction) hbody hmem]
  constructor
  · rintro ⟨issue, hissue, hwithin⟩
    have hwithin' : issue.span.Within function.span :=
      ⟨Int.le_trans (Int.le_of_lt hinside.1) hwithin.1, Int.le_trans hwithin.2 hinside.2⟩
    rcases issues_ofTerm hhead with hissues | ⟨-, hissues⟩
    · rw [hissues] at hissue
      obtain ⟨other, hother, hissue | hissue⟩ := of_mem_functionsOf hissue
      · have hcovers := (Function.yields_ofTerm (horderly other hother)).covers hissue
        obtain rfl := hlaid.eq_of_within hfunction hother hcovers hwithin'
        exact ⟨issue, hissue, hwithin⟩
      · -- the issue is about the function as a whole, which does not fit into its body
        have hcovers : other.span.Covers issue.span :=
          hissue ▸ (horderly other hother).laidOut.covers
        obtain rfl := hlaid.eq_of_within hfunction hother hcovers hwithin'
        rw [hissue] at hwithin
        exact absurd hwithin.1 (Int.not_le.2 hinside.1)
    · -- the issue is about the entry, which is before all functions
      have hafter := (hlaid.covers (List.mem_map_of_mem hfunction)).1
      rw [hissues issue hissue] at hwithin'
      exact absurd (Int.le_trans hafter hwithin'.1) (Int.not_le.2 hheadSpan)
  · rintro ⟨issue, hissue, hwithin⟩
    have hmem : issue ∈ (functionsOf [] terms).flatMap Read.issues :=
      mem_functionsOf hfunction hissue
    refine ⟨issue, ?_, hwithin⟩
    rcases issues_ofTerm hhead with hissues | ⟨hnil, -⟩
    · rwa [hissues]
    · rw [hnil] at hmem
      exact absurd hmem List.not_mem_nil

end Program

/-! ### Texts -/

theorem SpillRequest.yields_ofTerms {function victim stem : Term} {span : Span}
    (h : function.Orderly)
    (hlaid : Span.Laid span.start span.stop [function.span, victim.span, stem.span]) :
    Yields (fun _ => True) span (ofTerms function victim stem) := by
  have hself : ∀ term ∈ [victim, stem], term.span.Covers term.span := fun term hterm =>
    Span.covers_self (hlaid.covers (List.mem_cons_of_mem _ (List.mem_map_of_mem hterm))).2.1
  unfold ofTerms
  split
  · exact .value trivial
  · next hnot =>
    exact Read.yields_three (Function.yields_ofTerm h)
      (Term.yields_variableName (hself victim (by simp)))
      (Term.yields_variableName (hself stem (by simp))) hlaid hnot

namespace Issue

theorem inOrder_of_yields {α : Type} {P : α → Prop} {span : Span} {result : Read α}
    (h : Yields P span result) : InOrder result.issues := by
  cases h with
  | value h => exact List.Pairwise.nil
  | complaints hne h => exact inOrder_of_laid h

theorem inOrder_one {α : Type} {ofTerm : Term → Read α}
    (h : ∀ term : Term, term.Orderly → Yields (fun _ => True) term.span (ofTerm term))
    (text : List Char) : InOrder (Read.one ofTerm text).issues := by
  unfold Read.one
  split
  · next term hterm =>
    have hread := Term.orderly_of_readAll (Term.readOne_eq_ok_iff.1 hterm)
    exact inOrder_of_yields (h term (hread.1 term (List.mem_singleton_self _)))
  · exact List.pairwise_singleton _ _

theorem inOrder_spillRequest (text : List Char) : InOrder (SpillRequest.read text).issues := by
  unfold SpillRequest.read
  split
  · exact List.pairwise_singleton _ _
  · next function victim stem hterms =>
    obtain ⟨horderly, hlaid⟩ := Term.orderly_of_readAll hterms
    have hyields : Yields (fun _ => True) ⟨0, text.length⟩
        (SpillRequest.ofTerms function victim stem) :=
      SpillRequest.yields_ofTerms (horderly function (by simp)) hlaid
    exact inOrder_of_yields hyields
  · exact List.pairwise_singleton _ _

end Issue

/-- **Issues are in order, and none hides another.**  The issues of any text lie one after the
other.  If the text is a single term and the names and arities in it can be read, then of the terms
in the body of a function those have an issue inside that are no instructions, and no others. -/
theorem issues_ordered_and_unmasked :
    (∀ text, Issue.InOrder (Program.read text).issues ∧
      Issue.InOrder (Function.read text).issues ∧ Issue.InOrder (SpillRequest.read text).issues) ∧
    (∀ text term body, Term.readOne text = .ok term → term.HasBody body →
      ∀ instruction ∈ body, (∃ issue ∈ (Function.read text).issues,
        issue.span.Within instruction.span) ↔ ¬ instruction.IsInstruction) ∧
    ∀ text span head functions, Term.readOne text = .ok (.list span (head :: functions)) →
      (∃ entry, head.item? = some (.function entry)) →
      ∀ function ∈ functions, ∀ body, function.HasBody body →
        ∀ instruction ∈ body, (∃ issue ∈ (Program.read text).issues,
          issue.span.Within instruction.span) ↔ ¬ instruction.IsInstruction := by
  have horderly : ∀ {text term}, Term.readOne text = .ok term → term.Orderly := fun h =>
    (Term.orderly_of_readAll (Term.readOne_eq_ok_iff.1 h)).1 _ (List.mem_singleton_self _)
  refine ⟨fun text => ⟨Issue.inOrder_one (fun _ => Program.yields_ofTerm) text,
    Issue.inOrder_one (fun _ => Function.yields_ofTerm) text, Issue.inOrder_spillRequest text⟩,
    ?_, ?_⟩
  · intro text term body hread hbody instruction hmem
    rw [Function.read, Read.one, hread]
    exact Function.within_iff (horderly hread) hbody hmem
  · intro text span head functions hread hhead function hfunction body hbody instruction hmem
    rw [Program.read, Read.one, hread]
    exact Program.within_iff (horderly hread) hhead hfunction hbody hmem

/-- A program with a function whose name is taken, and a function with two terms that are no
instructions. -/
def slips : List Char :=
  "(@f (@f 0 (return)) (@f 0 (%x <- 007)) (@g 0 (goto) (cjump :a ! :b :c)))".toList

/-- The instruction in the function whose name is taken. -/
def slipsStep : Term :=
  .list ⟨26, 37⟩ [.symbol ⟨27, 29⟩ "%x", .symbol ⟨30, 32⟩ "<-", .symbol ⟨33, 36⟩ "007"]

/-- A jump with three slips. -/
def slipsJump : Term :=
  .list ⟨52, 70⟩ [.symbol ⟨53, 58⟩ "cjump", .symbol ⟨59, 61⟩ ":a", .symbol ⟨62, 63⟩ "!",
    .symbol ⟨64, 66⟩ ":b", .symbol ⟨67, 69⟩ ":c"]

/-- The functions of the program. -/
def slipsFunctions : List Term :=
  [.list ⟨4, 19⟩ [.symbol ⟨5, 7⟩ "@f", .symbol ⟨8, 9⟩ "0",
      .list ⟨10, 18⟩ [.symbol ⟨11, 17⟩ "return"]],
    .list ⟨20, 38⟩ [.symbol ⟨21, 23⟩ "@f", .symbol ⟨24, 25⟩ "0", slipsStep],
    .list ⟨39, 71⟩ [.symbol ⟨40, 42⟩ "@g", .symbol ⟨43, 44⟩ "0",
      .list ⟨45, 51⟩ [.symbol ⟨46, 50⟩ "goto"], slipsJump]]

theorem slips_ordered_and_unmasked :
    (Program.read slips).issues = [⟨⟨20, 38⟩, .duplicateFunction⟩,
      ⟨⟨45, 51⟩, .unknownInstruction⟩, ⟨⟨59, 61⟩, .value⟩, ⟨⟨62, 63⟩, .comparison⟩,
      ⟨⟨64, 66⟩, .value⟩] ∧
    Issue.InOrder (Program.read slips).issues ∧ slipsStep.IsInstruction ∧
    (¬ ∃ issue ∈ (Program.read slips).issues, issue.span.Within slipsStep.span) ∧
    ¬ slipsJump.IsInstruction ∧
    ¬ (Term.list ⟨6, 12⟩ [.symbol ⟨7, 11⟩ "goto"]).IsInstruction := by
  obtain ⟨hordered, hfunction, hprogram⟩ := issues_ordered_and_unmasked
  have hissues : (Program.read slips).issues = [⟨⟨20, 38⟩, .duplicateFunction⟩,
      ⟨⟨45, 51⟩, .unknownInstruction⟩, ⟨⟨59, 61⟩, .value⟩, ⟨⟨62, 63⟩, .comparison⟩,
      ⟨⟨64, 66⟩, .value⟩] := rfl
  have hread : Term.readOne slips =
      .ok (.list ⟨0, 72⟩ (.symbol ⟨1, 3⟩ "@f" :: slipsFunctions)) := rfl
  have hread' : Term.readOne "(@g 0 (goto))".toList = .ok (.list ⟨0, 13⟩ [.symbol ⟨1, 3⟩ "@g",
      .symbol ⟨4, 5⟩ "0", .list ⟨6, 12⟩ [.symbol ⟨7, 11⟩ "goto"]]) := rfl
  have hstep := hprogram slips _ _ _ hread ⟨"f", rfl⟩ _ (.tail _ (.head _)) [slipsStep]
    ⟨_, _, _, rfl, ⟨"f", rfl⟩, 0, rfl, by decide⟩ slipsStep (.head _)
  have hjump := hprogram slips _ _ _ hread ⟨"f", rfl⟩ _ (.tail _ (.tail _ (.head _)))
    [.list ⟨45, 51⟩ [.symbol ⟨46, 50⟩ "goto"], slipsJump]
    ⟨_, _, _, rfl, ⟨"g", rfl⟩, 0, rfl, by decide⟩ slipsJump (.tail _ (.head _))
  have hgoto := hfunction "(@g 0 (goto))".toList _ [.list ⟨6, 12⟩ [.symbol ⟨7, 11⟩ "goto"]] hread'
    ⟨_, _, _, rfl, ⟨"g", rfl⟩, 0, rfl, by decide⟩ _ (.head _)
  have hinstruction : slipsStep.IsInstruction := ⟨.assign (.var "x") (.number 7), rfl, rfl⟩
  refine ⟨hissues, (hordered slips).1, hinstruction, ?_, ?_, ?_⟩
  · rw [hstep]
    exact not_not_intro hinstruction
  · rw [← hjump, hissues]
    exact ⟨⟨⟨59, 61⟩, .value⟩, by simp, by decide, by decide⟩
  · rw [← hgoto]
    exact ⟨⟨⟨6, 12⟩, .unknownInstruction⟩, .head _, by decide, by decide⟩

end RegisterColouring
