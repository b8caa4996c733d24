/-
**Terms that are instructions.**

The reader of instructions accepts the terms that are written like a well formed instruction, with
numbers in any spelling, and no others.  About any other term it has at least one issue, and its
issues lie one after the other within the term.

Main definitions:

* `RegisterColouring.Span.Laid` — spans one after the other, none of them empty;
* `RegisterColouring.Read.Yields` — a result that is a value with some property, or issues within a
  span.

Main results:

* `RegisterColouring.Instruction.yields_ofTerm` — **what reading a term yields**: an instruction
  that is written like the term, or issues within the term;
* `RegisterColouring.Instruction.ofTerm_eq_ok_iff` — **the terms that are read as an instruction**.
-/

import RegisterColouring.Proofs.Spelling

set_option autoImplicit false

namespace RegisterColouring

/-! ### Spans one after the other -/

namespace Span

/-- **Spans one after the other** between two positions, none of them empty. -/
def Laid (low high : Int) : List Span → Prop
  | [] => low ≤ high
  | span :: spans => low ≤ span.start ∧ span.start < span.stop ∧ Laid span.stop high spans

/-- A span within another, and not empty. -/
def Covers (outer inner : Span) : Prop :=
  outer.start ≤ inner.start ∧ inner.start < inner.stop ∧ inner.stop ≤ outer.stop

theorem covers_self {span : Span} (h : span.start < span.stop) : span.Covers span :=
  ⟨Int.le_refl _, h, Int.le_refl _⟩

namespace Laid

variable {low high : Int} {spans more : List Span}

theorem le (h : Laid low high spans) : low ≤ high := by
  induction spans generalizing low with
  | nil => exact h
  | cons span spans ih =>
      obtain ⟨hlow, hspan, hrest⟩ := h
      have hle := ih hrest
      omega

theorem append {middle : Int} (h : Laid low middle spans) (hmore : Laid middle high more) :
    Laid low high (spans ++ more) := by
  induction spans generalizing low with
  | nil =>
      cases more with
      | nil => exact Int.le_trans h hmore
      | cons span more => exact ⟨Int.le_trans h hmore.1, hmore.2⟩
  | cons span spans ih => exact ⟨h.1, h.2.1, ih h.2.2⟩

theorem widen (h : Laid low high spans) {low' high' : Int} (hlow : low' ≤ low)
    (hhigh : high ≤ high') : Laid low' high' spans := by
  induction spans generalizing low low' with
  | nil => exact Int.le_trans hlow (Int.le_trans h hhigh)
  | cons span spans ih =>
      exact ⟨Int.le_trans hlow h.1, h.2.1, ih h.2.2 (Int.le_refl _)⟩

theorem sublist (h : Laid low high spans) (hmore : more.Sublist spans) :
    Laid low high more := by
  induction hmore generalizing low with
  | slnil => exact h
  | cons span _ ih => exact ih (h.2.2.widen (Int.le_trans h.1 (Int.le_of_lt h.2.1)) (Int.le_refl _))
  | cons_cons span _ ih => exact ⟨h.1, h.2.1, ih h.2.2⟩

theorem covers (h : Laid low high spans) {span : Span} (hmem : span ∈ spans) :
    (Span.mk low high).Covers span := by
  induction spans generalizing low with
  | nil => simp at hmem
  | cons first spans ih =>
      obtain ⟨hlow, hfirst, hrest⟩ := h
      rcases List.mem_cons.1 hmem with rfl | hmem
      · exact ⟨hlow, hfirst, hrest.le⟩
      · obtain ⟨hstart, hspan, hstop⟩ := ih hrest hmem
        exact ⟨Int.le_trans hlow (Int.le_trans (Int.le_of_lt hfirst) hstart), hspan, hstop⟩

end Laid

/-- Spans that are in order, and not empty, between two positions. -/
theorem laid_of_pairwise {low high : Int} {spans : List Span} (hle : low ≤ high)
    (hcovers : ∀ span ∈ spans, (Span.mk low high).Covers span)
    (hpairwise : spans.Pairwise fun a b => a.stop ≤ b.start) : Laid low high spans := by
  induction spans generalizing low with
  | nil => exact hle
  | cons span spans ih =>
      obtain ⟨hafter, hpairwise⟩ := List.pairwise_cons.1 hpairwise
      obtain ⟨hlow, hspan, hhigh⟩ := hcovers span (List.mem_cons_self ..)
      refine ⟨hlow, hspan, ih hhigh ?_ hpairwise⟩
      intro other hother
      obtain ⟨-, hnonempty, hstop⟩ := hcovers other (List.mem_cons_of_mem _ hother)
      exact ⟨hafter other hother, hnonempty, hstop⟩

end Span

/-! ### Values and issues -/

namespace Read

variable {α β : Type} {P : α → Prop} {Q : β → Prop} {span : Span}

/-- **A result that is a value with some property, or issues within a span**: at least one, and one
after the other. -/
inductive Yields (P : α → Prop) (span : Span) : Read α → Prop
  | value {a : α} (h : P a) : Yields P span (.ok a)
  | complaints {issues : List Issue} (hne : issues ≠ [])
      (h : Span.Laid span.start span.stop (issues.map Issue.span)) : Yields P span (.error issues)

theorem yields_refuse {term : Term} (h : span.Covers term.span) (complaint : Complaint) :
    Yields P span (refuse term complaint) :=
  .complaints (List.cons_ne_nil _ _) h

namespace Yields

variable {result : Read α}

theorem bind {next : α → Read β} (h : Yields P span result)
    (hnext : ∀ a, P a → Yields Q span (next a)) : Yields Q span (result >>= next) := by
  cases h with
  | value h => exact hnext _ h
  | complaints hne h => exact .complaints hne h

theorem imp {P' : α → Prop} (h : Yields P span result) (himp : ∀ a, P a → P' a) :
    Yields P' span result := by
  cases h with
  | value h => exact .value (himp _ h)
  | complaints hne h => exact .complaints hne h

theorem holds (h : Yields P span result) : Holds P result := by
  cases h with
  | value h => exact holds_ok h
  | complaints hne h => exact holds_error _

theorem laid (h : Yields P span result) (hspan : span.start ≤ span.stop) :
    Span.Laid span.start span.stop (result.issues.map Issue.span) := by
  cases h with
  | value h => exact hspan
  | complaints hne h => exact h

theorem covers (h : Yields P span result) {issue : Issue} (hissue : issue ∈ result.issues) :
    span.Covers issue.span := by
  cases h with
  | value h => exact absurd hissue (List.not_mem_nil)
  | complaints hne h => exact h.covers (List.mem_map_of_mem hissue)

theorem exists_ok (h : Yields P span result) (hissues : result.issues = []) :
    ∃ a, result = .ok a := by
  cases h with
  | value h => exact ⟨_, rfl⟩
  | complaints hne h => exact absurd hissues hne

end Yields

/-- Issues of three results, one of which is no value. -/
theorem yields_three {γ δ : Type} {P : α → Prop} {Q : β → Prop} {R : γ → Prop} {S : δ → Prop}
    {first : Read α} {second : Read β} {third : Read γ} {a b c span : Span}
    (hfirst : Yields P a first) (hsecond : Yields Q b second) (hthird : Yields R c third)
    (hlaid : Span.Laid span.start span.stop [a, b, c])
    (hnot : ∀ x y z, first = .ok x → second = .ok y → third = .ok z → False) :
    Yields S span (.error (first.issues ++ second.issues ++ third.issues)) := by
  obtain ⟨hlow, ha, hab, hb, hbc, hc, hhigh⟩ := hlaid
  refine .complaints ?_ ?_
  · intro hnil
    simp only [List.append_eq_nil_iff] at hnil
    obtain ⟨x, hx⟩ := hfirst.exists_ok hnil.1.1
    obtain ⟨y, hy⟩ := hsecond.exists_ok hnil.1.2
    obtain ⟨z, hz⟩ := hthird.exists_ok hnil.2
    exact hnot x y z hx hy hz
  · rw [List.map_append, List.map_append]
    have hfirst := (hfirst.laid (Int.le_of_lt ha)).widen hlow (Int.le_refl _)
    have hsecond := (hsecond.laid (Int.le_of_lt hb)).widen hab (Int.le_refl _)
    have hthird := (hthird.laid (Int.le_of_lt hc)).widen hbc hhigh
    exact (hfirst.append hsecond).append hthird

end Read

open Read (Yields yields_refuse)

/-! ### Parts of instructions -/

namespace Term

variable {term : Term} {span : Span} (h : span.Covers term.span)

include h

theorem yields_itemWith (test : Item → Bool) (complaint : Complaint) :
    Yields (fun item => item.isSource = true ∧ term.spelling = .leaf item.render) span
      (term.itemWith test complaint) := by
  unfold itemWith
  split
  · next item hitem =>
    split
    · exact .value ⟨isSource_of_item? hitem, spelling_of_item? hitem⟩
    · exact yields_refuse h _
  · exact yields_refuse h _

theorem yields_labelName :
    Yields (fun name => term.spelling = .leaf (Item.label name).render) span term.labelName := by
  unfold labelName
  split
  · next name hname => exact .value (spelling_of_item? hname)
  · exact yields_refuse h _

theorem yields_numberWith (test : Int64 → Bool) (complaint : Complaint) :
    Yields (fun value => term.spelling = .leaf (Item.number value).render) span
      (term.numberWith test complaint) := by
  unfold numberWith
  split
  · next value hvalue =>
    split
    · exact .value (spelling_of_item? hvalue)
    · exact yields_refuse h _
  · exact yields_refuse h _

theorem yields_comparison :
    Yields (fun op => term.spelling = .leaf op.render) span term.comparison := by
  unfold comparison
  split
  · next op hop =>
    exact .value (spelling_of_read Comparison.eq_render Comparison.ofSymbol?_render hop)
  · exact yields_refuse h _

omit h in
theorem yields_memoryItem {base offset : Term} (hbase : span.Covers base.span)
    (hoffset : span.Covers offset.span) :
    Yields (fun item => Tree.leaf "mem" :: base.spelling :: [offset.spelling] =
      item.words.map .leaf) span (memoryItem base offset) := by
  refine (yields_itemWith hbase _ _).bind ?_
  intro item hitem
  refine (yields_numberWith hoffset _ _).bind ?_
  intro value hvalue
  refine .value ?_
  rw [hitem.2, hvalue, Item.words_memory]
  rfl

end Term

namespace Instruction

variable {whole : Term} {elements rest : List Term}

theorem yields_comparands {P : Instruction → Prop} {span : Span} {left op right : Term}
    {make : Item → Comparison → Item → Instruction}
    (hlaid : Span.Laid span.start span.stop [left.span, op.span, right.span])
    (h : ∀ l o r, left.spelling = .leaf l.render → op.spelling = .leaf o.render →
      right.spelling = .leaf r.render → P (make l o r)) :
    Yields P span (comparands left op right make) := by
  have hself : ∀ term ∈ [left, op, right], term.span.Covers term.span := fun term hterm =>
    Span.covers_self (hlaid.covers (List.mem_map_of_mem hterm)).2.1
  have hleft := Term.yields_itemWith (hself left (by simp)) Item.isValue .value
  have hop := Term.yields_comparison (hself op (by simp))
  have hright := Term.yields_itemWith (hself right (by simp)) Item.isValue .value
  unfold comparands
  split
  · next l o r hl ho hr =>
    exact .value (h l o r (hleft.holds l hl).2 (hop.holds o ho) (hright.holds r hr).2)
  · next hnot => exact Read.yields_three hleft hop hright hlaid hnot

variable (hwhole : whole.span.Covers whole.span)

include hwhole

theorem yields_stepped {word : String} {reversed : List Char} {direction : Step}
    (hword : word.toList.reverse = direction.render.toList.reverse ++ reversed) :
    Yields (fun instruction => Tree.node [.leaf word] = instruction.tree ∧
      Numeral.int64? word.toList = none) whole.span (ofWord.stepped whole reversed direction) := by
  unfold ofWord.stepped
  split
  · next target htarget =>
    split
    · next hwritable =>
      have hassignable := Item.isAssignable_iff.2 ⟨Item.isSource_of_ofSymbol? htarget, hwritable⟩
      rcases Item.eq_render_or_int64? htarget with hrender | ⟨value, -, rfl⟩
      · have hsplit : word.toList = target.render.toList ++ direction.render.toList := by
          rw [← hrender, String.toList_ofList, ← List.reverse_inj, hword, List.reverse_append,
            List.reverse_reverse]
        have htext : word = target.render ++ direction.render := by
          rw [← String.toList_inj, String.toList_append, hsplit]
        refine .value ⟨?_, ?_⟩
        · rw [htext]
          rfl
        · rw [hsplit, Item.int64?_eq_none hassignable]
      · simp [Item.isWritable] at hwritable
    · exact yields_refuse hwhole _
  · exact yields_refuse hwhole _

/-- A word that is read as an instruction is its only word, and no number. -/
theorem yields_ofWord (word : String) :
    Yields (fun instruction => Tree.node [.leaf word] = instruction.tree ∧
      Numeral.int64? word.toList = none) whole.span (ofWord whole word) := by
  unfold ofWord
  split
  · next hreturn =>
    rw [hreturn]
    exact .value ⟨rfl, rfl⟩
  · split
    · next rest hrest => exact yields_stepped hwhole hrest
    · next rest hrest => exact yields_stepped hwhole hrest
    · exact yields_refuse hwhole _

theorem yields_ofGoto {first : Term} (hfirst : first.spelling = .leaf "goto")
    (hlaid : Span.Laid whole.span.start whole.span.stop ((first :: rest).map Term.span)) :
    Yields (fun instruction => Tree.node ((first :: rest).map Term.spelling) = instruction.tree)
      whole.span (ofGoto whole (first :: rest)) := by
  unfold ofGoto
  split
  · next first target heq =>
    obtain ⟨rfl, rfl⟩ := List.cons.inj heq
    refine (Term.yields_labelName (hlaid.covers (by simp))).bind ?_
    intro name hname
    exact .value (by simp [hfirst, hname, tree, words])
  · exact yields_refuse hwhole _

omit hwhole in
theorem yields_calleeOf {term : Term} {span : Span} (h : span.Covers term.span) :
    Yields (fun callee => term.spelling = .leaf callee.render) span (calleeOf term) := by
  unfold calleeOf
  split
  · next service hservice =>
    exact .value (Term.spelling_of_read Service.eq_render Service.ofSymbol?_render hservice)
  · split
    · next name hname => exact .value (Term.spelling_of_item? hname)
    · next item _ hitem =>
      split
      · exact .value (Term.spelling_of_item? hitem)
      · exact yields_refuse h _
    · exact yields_refuse h _

theorem yields_ofCall {first : Term} (hfirst : first.spelling = .leaf "call")
    (hlaid : Span.Laid whole.span.start whole.span.stop ((first :: rest).map Term.span)) :
    Yields (fun instruction => Tree.node ((first :: rest).map Term.spelling) = instruction.tree)
      whole.span (ofCall whole (first :: rest)) := by
  unfold ofCall
  split
  · next first callee arguments heq =>
    obtain ⟨rfl, rfl⟩ := List.cons.inj heq
    refine (Term.yields_numberWith (hlaid.covers (by simp)) _ _).bind ?_
    intro count hcount
    refine (yields_calleeOf (hlaid.covers (by simp))).bind ?_
    intro target htarget
    exact .value (by simp [hfirst, htarget, hcount, tree, words])
  · exact yields_refuse hwhole _

theorem yields_ofJumpIf {first : Term} (hfirst : first.spelling = .leaf "cjump")
    (hlaid : Span.Laid whole.span.start whole.span.stop ((first :: rest).map Term.span)) :
    Yields (fun instruction => Tree.node ((first :: rest).map Term.spelling) = instruction.tree)
      whole.span (ofJumpIf whole (first :: rest)) := by
  unfold ofJumpIf
  split
  · next first left op right target heq =>
    obtain ⟨rfl, rfl⟩ := List.cons.inj heq
    refine (Term.yields_labelName (hlaid.covers (by simp))).bind ?_
    intro name hname
    refine yields_comparands (hlaid.sublist (by simp)) ?_
    intro l o r hl ho hr
    simp [hfirst, hl, ho, hr, hname, tree, words]
  · exact yields_refuse hwhole _

theorem yields_ofMemory {first : Term} (hfirst : first.spelling = .leaf "mem")
    (hlaid : Span.Laid whole.span.start whole.span.stop ((first :: rest).map Term.span)) :
    Yields (fun instruction => Tree.node ((first :: rest).map Term.spelling) = instruction.tree)
      whole.span (ofMemory whole (first :: rest)) := by
  unfold ofMemory
  split
  · next first base offset op source heq =>
    obtain ⟨rfl, rfl⟩ := List.cons.inj heq
    have hop : whole.span.Covers op.span := hlaid.covers (by simp)
    have hsource : whole.span.Covers source.span := hlaid.covers (by simp)
    refine (Term.yields_memoryItem (hlaid.covers (by simp)) (hlaid.covers (by simp))).bind ?_
    intro target htarget
    split
    · next harrow =>
      refine (Term.yields_itemWith hsource _ _).bind ?_
      intro item hitem
      have harrow := Term.spelling_of_keyword (by decide) harrow
      exact .value (by simp [hfirst, hitem, harrow, tree, words, ← htarget,
        Item.words_of_isSource hitem.1])
    · split
      · next operator hoperator =>
        have hoperator := Term.spelling_of_read ArithOp.eq_render ArithOp.ofSymbol?_render hoperator
        split
        · refine (Term.yields_itemWith hsource _ _).bind ?_
          intro item hitem
          exact .value (by simp [hfirst, hitem, hoperator, tree, words, ← htarget,
            Item.words_of_isSource hitem.1])
        · exact yields_refuse hop _
      · exact yields_refuse hop _
  · exact yields_refuse hwhole _

theorem yields_ofSources {target : Item} (htarget : target.isSource = true)
    (hlaid : Span.Laid whole.span.start whole.span.stop (rest.map Term.span)) :
    Yields (fun instruction => Tree.node (.leaf target.render :: .leaf "<-" ::
      rest.map Term.spelling) = instruction.tree) whole.span (ofSources whole target rest) := by
  unfold ofSources
  split
  · next source =>
    refine (Term.yields_itemWith (hlaid.covers (by simp)) _ _).bind ?_
    intro item hitem
    exact .value (by simp [hitem, tree, words, Item.words_of_isSource htarget,
      Item.words_of_isSource hitem.1])
  · next keyword offset =>
    split
    · next hkeyword =>
      have hkeyword := Term.spelling_of_keyword (by decide) hkeyword
      refine (Term.yields_numberWith (hlaid.covers (by simp)) _ _).bind ?_
      intro value hvalue
      exact .value (by simp [hkeyword, hvalue, tree, words])
    · exact yields_refuse hwhole _
  · next first second third =>
    split
    · next hkeyword =>
      have hkeyword := Term.spelling_of_keyword (by decide) hkeyword
      refine (Term.yields_memoryItem (hlaid.covers (by simp)) (hlaid.covers (by simp))).bind ?_
      intro item hitem
      exact .value (by simp [hkeyword, tree, words, ← hitem, Item.words_of_isSource htarget])
    · refine yields_comparands hlaid ?_
      intro l o r hl ho hr
      simp [hl, ho, hr, tree, words]
  · exact yields_refuse hwhole _

theorem yields_ofArith {target : Item} (htarget : target.isSource = true) (op : ArithOp)
    (hlaid : Span.Laid whole.span.start whole.span.stop (rest.map Term.span)) :
    Yields (fun instruction => Tree.node (.leaf target.render :: .leaf op.render ::
      rest.map Term.spelling) = instruction.tree) whole.span (ofArith whole op target rest) := by
  unfold ofArith
  split
  · next source =>
    refine (Term.yields_itemWith (hlaid.covers (by simp)) _ _).bind ?_
    intro item hitem
    exact .value (by simp [hitem, tree, words])
  · next keyword base offset =>
    split
    · next hkeyword =>
      have hkeyword := Term.spelling_of_keyword (by decide) hkeyword.1
      refine (Term.yields_memoryItem (hlaid.covers (by simp)) (hlaid.covers (by simp))).bind ?_
      intro item hitem
      exact .value (by simp [hkeyword, tree, words, ← hitem, Item.words_of_isSource htarget])
    · exact yields_refuse hwhole _
  · exact yields_refuse hwhole _

theorem yields_ofShift {target : Term} (htarget : whole.span.Covers target.span) (op : ShiftOp)
    (hlaid : Span.Laid whole.span.start whole.span.stop (rest.map Term.span)) :
    Yields (fun instruction => Tree.node (target.spelling :: .leaf op.render ::
      rest.map Term.spelling) = instruction.tree) whole.span (ofShift whole target op rest) := by
  unfold ofShift
  split
  · next amount =>
    refine (Term.yields_itemWith htarget _ _).bind ?_
    intro item hitem
    refine (Term.yields_itemWith (hlaid.covers (by simp)) _ _).bind ?_
    intro source hsource
    exact .value (by simp [hitem, hsource, tree, words])
  · exact yields_refuse hwhole _

theorem yields_ofAddress {target : Term} (htarget : whole.span.Covers target.span)
    (hlaid : Span.Laid whole.span.start whole.span.stop (rest.map Term.span)) :
    Yields (fun instruction => Tree.node (target.spelling :: .leaf "@" ::
      rest.map Term.spelling) = instruction.tree) whole.span (ofAddress whole target rest) := by
  unfold ofAddress
  split
  · next base index scale =>
    have hbase : whole.span.Covers base.span := hlaid.covers (by simp)
    have hindex : whole.span.Covers index.span := hlaid.covers (by simp)
    split
    · next a b c ha hb hc =>
      have ha := ((Term.yields_itemWith htarget _ _).holds a ha).2
      have hb := ((Term.yields_itemWith hbase _ _).holds b hb).2
      have hc := ((Term.yields_itemWith hindex _ _).holds c hc).2
      refine (Term.yields_numberWith (hlaid.covers (by simp)) _ _).bind ?_
      intro value hvalue
      exact .value (by simp [ha, hb, hc, hvalue, tree, words])
    · exact yields_refuse hwhole _
  · exact yields_refuse hwhole _

theorem yields_ofOperator {target op : Term}
    (hlaid : Span.Laid whole.span.start whole.span.stop ((target :: op :: rest).map Term.span)) :
    Yields (fun instruction => Tree.node ((target :: op :: rest).map Term.spelling) =
      instruction.tree) whole.span (ofOperator whole target op rest) := by
  have htarget : whole.span.Covers target.span := hlaid.covers (by simp)
  have hrest : Span.Laid whole.span.start whole.span.stop (rest.map Term.span) :=
    hlaid.sublist (by simp)
  unfold ofOperator
  dsimp only
  split
  · next harrow =>
    refine (Term.yields_itemWith htarget _ _).bind ?_
    intro item hitem
    have harrow := Term.spelling_of_getD (by decide) (by decide) harrow
    rw [List.map_cons, List.map_cons, hitem.2, harrow]
    exact yields_ofSources hwhole hitem.1 hrest
  · split
    · next operator hoperator =>
      have hoperator := ArithOp.eq_render hoperator
      have hop := Term.spelling_of_getD operator.ofSymbol?_render
        (by cases operator <;> decide) hoperator
      refine (Term.yields_itemWith htarget _ _).bind ?_
      intro item hitem
      rw [List.map_cons, List.map_cons, hitem.2, hop]
      exact yields_ofArith hwhole hitem.1 operator hrest
    · split
      · next operator hoperator =>
        have hop := Term.spelling_of_getD operator.ofSymbol?_render
          (by cases operator <;> decide) (ShiftOp.eq_render hoperator)
        rw [List.map_cons, List.map_cons, hop]
        exact yields_ofShift hwhole htarget operator hrest
      · split
        · next haddress =>
          have hop := Term.spelling_of_getD (by decide) (by decide) haddress
          rw [List.map_cons, List.map_cons, hop]
          exact yields_ofAddress hwhole htarget hrest
        · exact yields_refuse (hlaid.covers (by simp)) _

theorem yields_ofElements
    (hlaid : Span.Laid whole.span.start whole.span.stop (elements.map Term.span)) :
    Yields (fun instruction => Tree.node (elements.map Term.spelling) = instruction.tree)
      whole.span (ofElements whole elements) := by
  unfold ofElements
  split
  · exact yields_refuse hwhole _
  · next word =>
    cases word with
    | symbol span value =>
        refine (yields_ofWord hwhole value).imp ?_
        rintro instruction ⟨htree, hnumber⟩
        rw [← htree, List.map_singleton, Term.spelling_of_symbol? rfl,
          Numeral.plain_of_none hnumber]
    | list span inner => exact yields_refuse hwhole _
  · next first second rest =>
    dsimp only
    split
    · next hkeyword =>
      exact yields_ofGoto hwhole (Term.spelling_of_getD (by decide) (by decide) hkeyword) hlaid
    · split
      · next hkeyword =>
        exact yields_ofCall hwhole (Term.spelling_of_getD (by decide) (by decide) hkeyword) hlaid
      · split
        · next hkeyword =>
          exact yields_ofJumpIf hwhole (Term.spelling_of_getD (by decide) (by decide) hkeyword)
            hlaid
        · split
          · next hkeyword =>
            exact yields_ofMemory hwhole (Term.spelling_of_getD (by decide) (by decide) hkeyword)
              hlaid
          · split
            · exact yields_refuse hwhole _
            · exact yields_ofOperator hwhole hlaid

end Instruction

/-! ### Instructions -/

/-- **A term that is laid out**: its span is not empty, and its elements lie one after the other
within the span. -/
structure Term.LaidOut (term : Term) : Prop where
  nonempty : term.span.start < term.span.stop
  inside : ∀ span elements, term = list span elements →
    Span.Laid span.start span.stop (elements.map Term.span)

theorem Term.LaidOut.covers {term : Term} (h : term.LaidOut) : term.span.Covers term.span :=
  Span.covers_self h.nonempty

namespace Instruction

variable {term : Term} {instruction : Instruction}

/-- **What reading a term yields**: an instruction that is written like the term, or issues within
the term. -/
theorem yields_ofTerm (h : term.LaidOut) :
    Yields (fun instruction => term.spelling = instruction.tree) term.span (ofTerm term) := by
  unfold ofTerm
  split
  · next span value =>
    split
    · next name hname => exact .value (Term.spelling_of_item? hname)
    · exact yields_refuse h.covers _
  · next span elements =>
    rw [Term.spelling_list]
    exact yields_ofElements h.covers (h.inside span elements rfl)

/-- A word that is read as an instruction is read like its decimal text. -/
theorem ofWord_plain {whole : Term} {word : String} (hwhole : whole.span.Covers whole.span)
    (h : ofWord whole.plain (Numeral.plain word) = .ok instruction) :
    ofWord whole word = .ok instruction := by
  have hspan : whole.plain.span.Covers whole.plain.span := by rwa [Term.span_plain]
  have hnumber := ((yields_ofWord hspan _).holds instruction h).2
  cases hword : Numeral.int64? word.toList with
  | some value =>
      rw [Numeral.plain_of_some hword, Numeral.int64?_integer] at hnumber
      exact absurd hnumber (Option.some_ne_none _)
  | none =>
      rw [Numeral.plain_of_none hword] at h
      rw [← h]
      simp only [ofWord, ofWord.stepped, Term.refuse_plain]

/-- A term that is written like a well formed instruction is read as the instruction. -/
theorem ofTerm_of_spelling (hterm : term.LaidOut) (h : instruction.isWellFormed = true)
    (hspelling : term.spelling = instruction.tree) : ofTerm term = .ok instruction := by
  have hplain : ofTerm term.plain = .ok instruction := ofTerm_of_tree h hspelling
  cases term with
  | symbol span value =>
      have hitem := (Term.symbol span value).item?_plain
      rw [Term.plain] at hitem hplain
      simp only [ofTerm, hitem] at hplain ⊢
      split at hplain
      · exact hplain
      · simp [Read.refuse] at hplain
  | list span elements =>
      have helements : ofElements (Term.list span elements).plain (elements.map Term.plain) =
          .ok instruction := by
        rw [Term.plain, ofTerm, Term.plainAll_eq_map] at hplain
        rwa [Term.plain, Term.plainAll_eq_map]
      rw [ofTerm]
      by_cases hlength : elements.length = 1
      · obtain ⟨word, rfl⟩ := List.length_eq_one_iff.1 hlength
        cases word with
        | symbol place value => exact ofWord_plain hterm.covers helements
        | list place inner => exact absurd helements (by simp [ofElements, Term.plain, ofWord,
            Term.symbol?, Read.refuse])
      · rwa [ofElements_plain _ _ hlength] at helements

/-- **The terms that are read as an instruction** are those that are written like it. -/
theorem ofTerm_eq_ok_iff (hterm : term.LaidOut) : ofTerm term = .ok instruction ↔
    instruction.isWellFormed = true ∧ term.spelling = instruction.tree := by
  constructor
  · intro h
    exact ⟨holds_ofTerm term instruction h, (yields_ofTerm hterm).holds instruction h⟩
  · rintro ⟨hwellFormed, hspelling⟩
    exact ofTerm_of_spelling hterm hwellFormed hspelling

/-- A term that is no instruction has issues, which lie within the term. -/
theorem isInstruction_iff (hterm : term.LaidOut) :
    term.IsInstruction ↔ (ofTerm term).issues = [] := by
  constructor
  · rintro ⟨instruction, hinstruction⟩
    rw [(ofTerm_eq_ok_iff hterm).2 hinstruction, Read.issues_ok]
  · intro hissues
    obtain ⟨instruction, hinstruction⟩ := (yields_ofTerm hterm).exists_ok hissues
    exact ⟨instruction, (ofTerm_eq_ok_iff hterm).1 hinstruction⟩

end Instruction

end RegisterColouring
