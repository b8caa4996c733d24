/-
**Spans are exact, and reading inverts writing.**

A term that is read, at any depth, has the span of the text it was read from.  This stretch of the
text is all that the term needs: the tokens in it are the tokens of the term, and no others.  Read by
itself, the stretch gives the term again, with its spans counted from where the stretch starts.  In
the other direction, the text of a term is read as the term, whatever its spans were.

Main definitions:

* `RegisterColouring.Term.HasPart` — the terms at any depth of a term;
* `RegisterColouring.Term.shift` — a term with all its spans moved;
* `RegisterColouring.Span.stretch` — the text of a span;
* `RegisterColouring.Term.ExactIn` — a term whose span is exact.

Main results:

* `RegisterColouring.Splits.stretch` — **the tokens of a stretch of text** that starts and ends with
  a token;
* `RegisterColouring.Denotes.part` — the tokens of a term at any depth stand in one place;
* `RegisterColouring.Term.spells_render` — the text of a term spells its tokens;
* `RegisterColouring.Term.spans_exact` — **spans are exact, and reading inverts writing**.
-/

import RegisterColouring.Proofs.RecordedTerms

set_option autoImplicit false

namespace RegisterColouring

/-! ### Moved tokens -/

namespace Token

/-- A token of a text from which `d` characters have been taken in front. -/
def back (d : Nat) : Token → Token
  | opening start => opening (start - d)
  | closing start => closing (start - d)
  | symbol start text => symbol (start - d) text

theorem Spread.append {low high : Nat} {tokens more : List Token}
    (h : Spread low high (tokens ++ more)) :
    ∃ middle, Spread low middle tokens ∧ Spread middle high more := by
  induction tokens generalizing low with
  | nil => exact ⟨low, Nat.le_refl _, h⟩
  | cons token tokens ih =>
      obtain ⟨hstart, htext, hrest⟩ := h
      obtain ⟨middle, htokens, hmore⟩ := ih hrest
      exact ⟨middle, ⟨hstart, htext, htokens⟩, hmore⟩

end Token

theorem Stops.of_append {text more : List Char} (h : Stops (text ++ more)) : Stops text := by
  cases text with
  | nil => exact stops_nil
  | cons c rest => exact stops_cons.2 (stops_cons.1 h)

namespace Splits

variable {position : Nat} {text : List Char} {tokens front rest : List Token} {token : Token}

/-- Taking away text in front moves the tokens back. -/
theorem back (h : Splits position text tokens) {d : Nat} (hd : d ≤ position) :
    Splits (position - d) text (tokens.map (Token.back d)) := by
  have hnext : ∀ {p : Nat} (k : Nat), d ≤ p → p + k - d = p - d + k := fun k hp => by omega
  induction h with
  | nil position => exact .nil _
  | blank hc _ ih =>
      have hrest := ih (Nat.le_succ_of_le hd)
      rw [hnext 1 hd] at hrest
      exact .blank hc hrest
  | @comment position body rest tokens hbody hhead _ ih =>
      have hrest := ih (by omega)
      rw [hnext _ (Nat.le_succ_of_le hd), hnext 1 hd] at hrest
      exact .comment hbody hhead hrest
  | opening _ ih =>
      have hrest := ih (Nat.le_succ_of_le hd)
      rw [hnext 1 hd] at hrest
      exact .opening hrest
  | closing _ ih =>
      have hrest := ih (Nat.le_succ_of_le hd)
      rw [hnext 1 hd] at hrest
      exact .closing hrest
  | @symbol position word rest tokens hne hword hstops _ ih =>
      have hrest := ih (by omega)
      rw [hnext _ hd] at hrest
      exact .symbol hne hword hstops hrest

/-- **The first token of a text.**  After some text that is skipped stands the token, and then the
text of the other tokens.  If that text is cut short, the token stays. -/
theorem uncons (h : Splits position text (token :: rest)) :
    ∃ gap after, text = gap ++ (token.text ++ after) ∧ position + gap.length = token.start ∧
      Splits (token.start + token.text.length) after rest ∧
      ∀ {during behind : List Char} {more : List Token}, after = during ++ behind →
        Splits (token.start + token.text.length) during more →
        Splits token.start (token.text ++ during) (token :: more) ∧
          Splits position (gap ++ (token.text ++ during)) (token :: more) := by
  have htext : token.text ≠ [] := h.spread.2.1
  generalize htokens : token :: rest = tokens at h
  induction h with
  | nil position => simp at htokens
  | @blank position c text tokens hc _ ih =>
      obtain ⟨gap, after, rfl, hstart, hrest, hframe⟩ := ih htokens
      refine ⟨c :: gap, after, rfl, ?_, hrest, fun hafter hduring =>
        ⟨(hframe hafter hduring).1, .blank hc (hframe hafter hduring).2⟩⟩
      rw [← hstart, List.length_cons]
      omega
  | @comment position body text tokens hbody hhead _ ih =>
      obtain ⟨gap, after, rfl, hstart, hrest, hframe⟩ := ih htokens
      refine ⟨';' :: body ++ gap, after, by simp, ?_, hrest, ?_⟩
      · rw [← hstart, List.length_append, List.length_cons]
        omega
      · intro during behind more hafter hduring
        -- the text after the comment starts as before, since the token is left
        have hhead' : ∀ c ∈ (gap ++ (token.text ++ during)).head?, c = '\n' := by
          rw [← List.append_assoc, List.head?_append_of_ne_nil _ (by simp [htext])] at hhead ⊢
          exact hhead
        have hsplits := Splits.comment hbody hhead' (hframe hafter hduring).2
        rw [List.append_assoc]
        exact ⟨(hframe hafter hduring).1, hsplits⟩
  | opening h =>
      obtain ⟨rfl, rfl⟩ := List.cons.inj htokens
      exact ⟨[], _, rfl, rfl, h, fun _ hduring => ⟨.opening hduring, .opening hduring⟩⟩
  | closing h =>
      obtain ⟨rfl, rfl⟩ := List.cons.inj htokens
      exact ⟨[], _, rfl, rfl, h, fun _ hduring => ⟨.closing hduring, .closing hduring⟩⟩
  | symbol hne hword hstops h =>
      obtain ⟨rfl, rfl⟩ := List.cons.inj htokens
      refine ⟨[], _, rfl, rfl, h, ?_⟩
      rintro during behind more rfl hduring
      have hsplits := Splits.symbol hne hword hstops.of_append hduring
      exact ⟨hsplits, hsplits⟩

/-- The text from a token on. -/
theorem from_token (h : Splits position text (front ++ token :: rest)) :
    ∃ before after, text = before ++ after ∧ position + before.length = token.start ∧
      Splits token.start after (token :: rest) := by
  induction front generalizing position text with
  | nil =>
      obtain ⟨gap, after, rfl, hstart, hrest, hframe⟩ := h.uncons
      exact ⟨gap, token.text ++ after, rfl, hstart, (hframe (List.append_nil _).symm hrest).1⟩
  | cons first front ih =>
      obtain ⟨gap, after, rfl, hstart, hrest, -⟩ := h.uncons
      obtain ⟨before, after, rfl, hbefore, hafter⟩ := ih hrest
      refine ⟨gap ++ first.text ++ before, after, by simp, ?_, hafter⟩
      rw [← hbefore, ← hstart]
      simp only [List.length_append]
      omega

/-- The text up to the end of a token. -/
theorem up_to_token (h : Splits position text (front ++ token :: rest)) :
    ∃ before after, text = before ++ after ∧
      position + before.length = token.start + token.text.length ∧
      Splits position before (front ++ [token]) := by
  induction front generalizing position text with
  | nil =>
      obtain ⟨gap, after, rfl, hstart, -, hframe⟩ := h.uncons
      refine ⟨gap ++ token.text, after, by simp, ?_, ?_⟩
      · rw [← hstart, List.length_append, Nat.add_assoc]
      · simpa using (hframe (List.nil_append after).symm (.nil _)).2
  | cons first front ih =>
      obtain ⟨gap, after, rfl, hstart, hrest, hframe⟩ := h.uncons
      obtain ⟨before, behind, rfl, hbefore, hsplits⟩ := ih hrest
      refine ⟨gap ++ (first.text ++ before), behind, by simp, ?_, (hframe rfl hsplits).2⟩
      rw [← hbefore, ← hstart]
      simp only [List.length_append]
      omega

end Splits

/-- **The text of a span.** -/
def Span.stretch (text : List Char) (span : Span) : List Char :=
  (text.drop span.start.toNat).take (span.stop - span.start).toNat

/-- Tokens that stand in one place, from the first to the last of them. -/
def Token.Extent (tokens : List Token) (span : Span) : Prop :=
  ∃ first inner init last, tokens = first :: inner ∧ tokens = init ++ [last] ∧
    span = ⟨first.start, last.start + last.text.length⟩

/-- **The tokens of a stretch of text** that starts and ends with a token. -/
theorem Splits.stretch {text : List Char} {front middle rest : List Token} {span : Span}
    (h : Splits 0 text (front ++ middle ++ rest)) (hspan : Token.Extent middle span) :
    Splits 0 (span.stretch text) (middle.map (Token.back span.start.toNat)) := by
  obtain ⟨first, inner, init, last, hfirst, hlast, rfl⟩ := hspan
  rw [List.append_assoc, hfirst, List.cons_append] at h
  obtain ⟨before, after, rfl, hbefore, hafter⟩ := h.from_token
  rw [← List.cons_append, ← hfirst, hlast, List.append_assoc, List.singleton_append] at hafter
  obtain ⟨during, behind, rfl, hduring, hsplits⟩ := hafter.up_to_token
  rw [← hlast] at hsplits
  have hdrop : (before ++ (during ++ behind)).drop first.start = during ++ behind := by
    rw [← hbefore, Nat.zero_add, List.drop_left]
  have hlength : ((last.start : Int) + last.text.length - first.start).toNat = during.length := by
    omega
  have hback := hsplits.back (Nat.le_refl _)
  rw [Nat.sub_self] at hback
  simp only [Span.stretch, Int.toNat_natCast, hdrop, hlength, List.take_left]
  exact hback

/-! ### Parts of terms -/

/-- A span that has been moved. -/
def Span.shift (d : Int) (span : Span) : Span := ⟨span.start + d, span.stop + d⟩

namespace Term

/-- **The terms at any depth of a term**, itself included. -/
inductive HasPart : Term → Term → Prop
  | self (term : Term) : HasPart term term
  | element {span : Span} {elements : List Term} {element part : Term} (hmem : element ∈ elements)
      (h : HasPart element part) : HasPart (list span elements) part

@[simp] theorem hasPart_symbol_iff {span : Span} {value : String} {part : Term} :
    (symbol span value).HasPart part ↔ part = symbol span value := by
  constructor
  · intro h
    cases h
    rfl
  · rintro rfl
    exact .self _

@[simp] theorem hasPart_list_iff {span : Span} {elements : List Term} {part : Term} :
    (list span elements).HasPart part ↔
      part = list span elements ∨ ∃ element ∈ elements, element.HasPart part := by
  constructor
  · intro h
    cases h with
    | self => exact Or.inl rfl
    | element hmem h => exact Or.inr ⟨_, hmem, h⟩
  · rintro (rfl | ⟨element, hmem, h⟩)
    · exact .self _
    · exact .element hmem h

mutual

/-- **A term with all its spans moved.** -/
def shift (d : Int) : Term → Term
  | symbol span value => symbol (span.shift d) value
  | list span elements => list (span.shift d) (shiftAll d elements)

/-- Terms with all their spans moved. -/
def shiftAll (d : Int) : List Term → List Term
  | [] => []
  | term :: terms => shift d term :: shiftAll d terms

end

mutual

/-- Moving the spans of a term leaves the term as it is otherwise. -/
theorem tree_shift (d : Int) : ∀ term : Term, (shift d term).tree = term.tree
  | symbol span value => by rw [shift, tree, tree]
  | list span elements => by rw [shift, tree, tree, trees_shiftAll d elements]

theorem trees_shiftAll (d : Int) : ∀ terms : List Term, trees (shiftAll d terms) = trees terms
  | [] => by rw [shiftAll]
  | term :: terms => by rw [shiftAll, trees, trees, tree_shift d term, trees_shiftAll d terms]

end

end Term

open Term (HasPart)

namespace Denotes

variable {tokens : List Token} {terms : List Term} {term : Term}

/-- Tokens that are moved back denote the terms with their spans moved back. -/
theorem back (h : Denotes tokens terms) {d : Nat} (hd : ∀ token ∈ tokens, d ≤ token.start) :
    Denotes (tokens.map (Token.back d)) (Term.shiftAll (-d) terms) := by
  have hspan : ∀ (start finish : Nat) (k : Int), d ≤ start → d ≤ finish →
      Span.shift (-d) ⟨start, finish + k⟩ = ⟨(start - d : Nat), (finish - d : Nat) + k⟩ := by
    intro start finish k hstart hfinish
    rw [Span.shift, Int.ofNat_sub hstart, Int.ofNat_sub hfinish]
    simp only [Span.mk.injEq]
    constructor <;> omega
  induction h with
  | nil => exact .nil
  | @symbol start text tokens terms _ ih =>
      obtain ⟨hstart, htokens⟩ := List.forall_mem_cons.1 hd
      rw [Term.shiftAll, Term.shift, hspan start start _ hstart hstart]
      exact .symbol (ih htokens)
  | @list start finish inside tokens elements terms _ _ ihinside ih =>
      obtain ⟨hstart, hrest⟩ := List.forall_mem_cons.1 hd
      obtain ⟨hinside, hrest⟩ := List.forall_mem_append.1 hrest
      obtain ⟨hfinish, htokens⟩ := List.forall_mem_cons.1 hrest
      rw [Term.shiftAll, Term.shift, hspan start finish 1 hstart hfinish]
      rw [List.map_append, List.map_cons, List.map_cons]
      exact .list (ihinside hinside) (ih htokens)

/-- The tokens of one term start and end where the term does. -/
theorem extent (h : Denotes tokens [term]) : Token.Extent tokens term.span := by
  cases h with
  | @symbol start text tokens _ hrest =>
      cases hrest
      exact ⟨_, [], [], _, rfl, rfl, rfl⟩
  | @list start finish inside tokens elements _ hinside hrest =>
      cases hrest
      exact ⟨_, inside ++ [.closing finish], .opening start :: inside, .closing finish, rfl, rfl,
        rfl⟩

/-- The tokens of one of several terms stand in one place. -/
theorem mem (h : Denotes tokens terms) (hterm : term ∈ terms) :
    ∃ front middle rest, tokens = front ++ middle ++ rest ∧ Denotes middle [term] := by
  induction terms generalizing tokens with
  | nil => simp at hterm
  | cons first terms ih =>
      obtain ⟨front, rest, rfl, hfirst, hrest⟩ := h.first
      rcases List.mem_cons.1 hterm with rfl | hterm
      · exact ⟨[], front, rest, rfl, hfirst⟩
      · obtain ⟨front', middle, rest', rfl, hmiddle⟩ := ih hrest hterm
        exact ⟨front ++ front', middle, rest', by simp, hmiddle⟩

/-- The tokens of a list are those of its elements, in parentheses. -/
theorem of_list {span : Span} {elements : List Term} (h : Denotes tokens [.list span elements]) :
    ∃ (start finish : Nat) (inside : List Token),
      tokens = .opening start :: inside ++ [.closing finish] ∧ span = ⟨start, finish + 1⟩ ∧
        Denotes inside elements := by
  cases h with
  | list hinside hrest =>
      cases hrest
      exact ⟨_, _, _, rfl, rfl, hinside⟩

/-- **The tokens of a term at any depth stand in one place.** -/
theorem part {part : Term} (h : Denotes tokens [term]) (hpart : term.HasPart part) :
    ∃ front middle rest, tokens = front ++ middle ++ rest ∧ Denotes middle [part] := by
  induction hpart generalizing tokens with
  | self term => exact ⟨[], tokens, [], by simp, h⟩
  | element hmem _ ih =>
      obtain ⟨start, finish, inside, rfl, -, hinside⟩ := h.of_list
      obtain ⟨front, middle, rest, rfl, hmiddle⟩ := hinside.mem hmem
      obtain ⟨front', middle', rest', rfl, hmiddle'⟩ := ih hmiddle
      exact ⟨.opening start :: front ++ front', middle', rest' ++ rest ++ [.closing finish],
        by simp, hmiddle'⟩

/-- **Terms stand one after the other** between the positions between which their tokens do. -/
theorem laid {low high : Nat} (h : Denotes tokens terms) (hspread : Token.Spread low high tokens) :
    (∀ term ∈ terms, (low : Int) ≤ term.span.start ∧ term.span.start < term.span.stop ∧
        term.span.stop ≤ high) ∧
      terms.Pairwise fun a b => a.span.stop ≤ b.span.start := by
  induction h generalizing low with
  | nil => exact ⟨by simp, List.Pairwise.nil⟩
  | @symbol start text tokens terms _ ih =>
      obtain ⟨hstart, htext, hrest⟩ := hspread
      obtain ⟨hterms, hpairwise⟩ := ih hrest
      have hpos : 0 < text.length := List.length_pos_of_ne_nil htext
      have hlow : low ≤ start := hstart
      have hle : start + text.length ≤ high := hrest.le
      have hlater : ∀ term ∈ terms, ((start + text.length : Nat) : Int) ≤ term.span.start :=
        fun term hterm => (hterms term hterm).1
      refine ⟨?_, List.pairwise_cons.2 ⟨?_, hpairwise⟩⟩
      · intro term hterm
        rcases List.mem_cons.1 hterm with rfl | hterm
        · simp only [Term.span_symbol]
          omega
        · have hbounds := hterms term hterm
          have := hlater term hterm
          omega
      · intro term hterm
        have := hlater term hterm
        simp only [Term.span_symbol]
        omega
  | @list start finish inside tokens elements terms _ _ _ ih =>
      obtain ⟨hstart, -, hrest⟩ := hspread
      obtain ⟨middle, hinside, hfinish, -, htokens⟩ := Token.Spread.append hrest
      obtain ⟨hterms, hpairwise⟩ := ih htokens
      have hlow : low ≤ start := hstart
      have hmiddle : start + 1 ≤ middle := hinside.le
      have hclose : middle ≤ finish := hfinish
      have hle : finish + 1 ≤ high := htokens.le
      have hlater : ∀ term ∈ terms, ((finish + 1 : Nat) : Int) ≤ term.span.start :=
        fun term hterm => (hterms term hterm).1
      refine ⟨?_, List.pairwise_cons.2 ⟨?_, hpairwise⟩⟩
      · intro term hterm
        rcases List.mem_cons.1 hterm with rfl | hterm
        · simp only [Term.span_list]
          omega
        · have hbounds := hterms term hterm
          have := hlater term hterm
          omega
      · intro term hterm
        have := hlater term hterm
        simp only [Term.span_list]
        omega

end Denotes

namespace Term

/-! ### Exact spans -/

/-- **A term whose span is exact**: the text of the span, read by itself, gives the term again with
its spans moved to the front, and the elements of a list stand strictly inside its span, one after
the other. -/
structure ExactIn (text : List Char) (term : Term) : Prop where
  bounds : 0 ≤ term.span.start ∧ term.span.start < term.span.stop ∧ term.span.stop ≤ text.length
  again : readOne (term.span.stretch text) = .ok (term.shift (-term.span.start)) ∧
    (term.shift (-term.span.start)).tree = term.tree
  inside : ∀ span elements, term = list span elements →
    (∀ element ∈ elements, span.start < element.span.start ∧
      element.span.start < element.span.stop ∧ element.span.stop < span.stop) ∧
    elements.Pairwise fun a b => a.span.stop ≤ b.span.start

theorem exactIn_of_denotes {text : List Char} {front middle rest : List Token} {part : Term}
    (hsplits : Splits 0 text (front ++ middle ++ rest)) (h : Denotes middle [part]) :
    part.ExactIn text := by
  have hspread : Token.Spread 0 text.length (front ++ (middle ++ rest)) := by
    have hspread := hsplits.spread
    rwa [Nat.zero_add, List.append_assoc] at hspread
  obtain ⟨low, hfront, hmiddle⟩ := hspread.append
  obtain ⟨high, hmiddle, hrest⟩ := hmiddle.append
  have hbounds := (h.laid hmiddle).1 part (List.mem_singleton_self _)
  have hhigh : high ≤ text.length := hrest.le
  refine ⟨⟨by omega, hbounds.2.1, by omega⟩, ⟨?_, tree_shift _ part⟩, ?_⟩
  · -- no token of the part starts before the first one
    have hstart : ∀ token ∈ middle, part.span.start.toNat ≤ token.start := by
      obtain ⟨first, inner, init, last, rfl, -, hspan⟩ := h.extent
      have hfirst : Token.Spread first.start high (first :: inner) :=
        ⟨Nat.le_refl _, hmiddle.2⟩
      rw [hspan]
      exact fun token htoken => (hfirst.mem htoken).1
    have hshift := h.back hstart
    have hcast : ((part.span.start.toNat : Nat) : Int) = part.span.start := by omega
    rw [hcast, shiftAll, shiftAll] at hshift
    rw [readOne_eq_ok_iff, readAll_eq_ok_iff, ← splits_iff.1 (hsplits.stretch h.extent)]
    exact hshift
  · rintro span elements rfl
    obtain ⟨start, finish, inside, rfl, rfl, hinside⟩ := h.of_list
    obtain ⟨hlow, -, htail⟩ := hmiddle
    obtain ⟨stop, hspread, hfinish, -⟩ := Token.Spread.append htail
    have hstop : stop ≤ finish := hfinish
    obtain ⟨helements, hpairwise⟩ := hinside.laid hspread
    refine ⟨?_, hpairwise⟩
    intro element helement
    obtain ⟨hleft, hlt, hright⟩ := helements element helement
    have hnext : ((start + 1 : Nat) : Int) ≤ element.span.start := hleft
    refine ⟨?_, hlt, ?_⟩ <;> simp only <;> omega

theorem exactIn_of_readAll {text : List Char} {terms : List Term} {term part : Term}
    (h : readAll text = .ok terms) (hterm : term ∈ terms) (hpart : term.HasPart part) :
    part.ExactIn text := by
  obtain ⟨front, middle, rest, htokens, hmiddle⟩ := (readAll_eq_ok_iff.1 h).mem hterm
  obtain ⟨front', middle', rest', rfl, hmiddle'⟩ := hmiddle.part hpart
  have hsplits : Splits 0 text (front ++ front' ++ middle' ++ (rest' ++ rest)) := by
    rw [splits_iff, htokens]
    simp
  exact exactIn_of_denotes hsplits hmiddle'

/-- A term that is in a table with all its parts has its parts there. -/
theorem placeOf_part {table : SpanTable} {term part : Term} (h : table.Recorded term)
    (hpart : term.HasPart part) : table.placeOf part = .ok part.span := by
  induction hpart with
  | self term => exact h.placeOf_eq
  | element hmem _ ih =>
      cases h with
      | list _ helements => exact ih (helements _ hmem)

/-! ### The text of a term -/

/-- A term all of whose symbols are words. -/
def Wordy (term : Term) : Prop := ∀ span value, term.HasPart (symbol span value) → IsWord value

mutual

/-- **The text of a term spells its tokens.** -/
theorem spells_render : ∀ term : Term, term.Wordy → Spells term.render.toList term.tree.marks
  | symbol span value, h => by
      rw [render, tree, Tree.marks]
      exact Spells.word (h span value (.self _))
  | list span elements, h => by
      rw [render, tree, Tree.marks]
      have hinside := spells_renderAll elements fun element helement span' value hpart =>
        h span' value (.element helement hpart)
      simpa using hinside.parenthesised

theorem spells_renderAll : ∀ terms : List Term, (∀ term ∈ terms, term.Wordy) →
    Spells (renderAll terms).toList (Tree.marksAll (trees terms))
  | [], _ => Spells.nil
  | [term], h => by
      rw [renderAll, trees, trees, Tree.marksAll, Tree.marksAll, List.append_nil]
      exact spells_render term (h term (List.mem_singleton_self _))
  | term :: next :: terms, h => by
      have hterm := spells_render term (h term (List.mem_cons_self ..))
      have hrest := spells_renderAll (next :: terms) fun other hother =>
        h other (List.mem_cons_of_mem _ hother)
      have hboth := hterm.append_blank (c := ' ') (by decide) hrest
      rw [trees, Tree.marksAll]
      simpa [renderAll] using hboth

end

/-- **Spans are exact, and reading inverts writing.**  Every term of a text that is read, at any
depth, is on record with its span, and this span is exact.  The text of every term whose symbols are
words is read as that term, its spans apart. -/
theorem spans_exact :
    (∀ source terms, readAll source.text = .ok terms →
      ∃ table, readAllRecorded source = .ok (.ok (terms, table)) ∧
        ∀ term ∈ terms, ∀ part, term.HasPart part →
          table.placeOf part = .ok part.span ∧ part.ExactIn source.text) ∧
    (∀ source term, readOne source.text = .ok term →
      ∃ table, readOneRecorded source = .ok (.ok (term, table)) ∧
        ∀ part, term.HasPart part →
          table.placeOf part = .ok part.span ∧ part.ExactIn source.text) ∧
    ∀ term : Term, term.Wordy →
      ∃ read, readOne term.render.toList = .ok read ∧ read.tree = term.tree := by
  refine ⟨?_, ?_, fun term h => readOne_of_marks (spells_render term h).marks_eq⟩
  · intro source terms h
    obtain ⟨table, htable, -, hrecorded⟩ := readAllRecorded_eq_ok source
    refine ⟨table, by rw [htable, h]; rfl, ?_⟩
    intro term hterm part hpart
    exact ⟨placeOf_part (hrecorded terms h term hterm) hpart, exactIn_of_readAll h hterm hpart⟩
  · intro source term h
    obtain ⟨table, htable, -, hrecorded⟩ := readOneRecorded_eq_ok source
    refine ⟨table, by rw [htable, h]; rfl, ?_⟩
    intro part hpart
    exact ⟨placeOf_part (hrecorded term h) hpart,
      exactIn_of_readAll (readOne_eq_ok_iff.1 h) (List.mem_singleton_self _) hpart⟩

/-- A text with a comment that holds parentheses, and no blank after its lists. -/
def commented : List Char := "(a ;(\n(b(c)))d".toList

/-- The first term of the text. -/
def commentedList : Term :=
  list ⟨0, 13⟩ [symbol ⟨1, 2⟩ "a",
    list ⟨6, 12⟩ [symbol ⟨7, 8⟩ "b", list ⟨8, 11⟩ [symbol ⟨9, 10⟩ "c"]]]

theorem wordy_commentedList : commentedList.Wordy := by
  intro span value h
  simp only [commentedList, hasPart_list_iff, hasPart_symbol_iff, List.exists_mem_cons_iff,
    List.not_mem_nil, false_and, exists_false, or_false, symbol.injEq, reduceCtorEq, false_or] at h
  rcases h with ⟨-, rfl⟩ | ⟨-, rfl⟩ | ⟨-, rfl⟩ <;> decide

theorem commented_spans_exact :
    readAll commented = .ok [commentedList, symbol ⟨13, 14⟩ "d"] ∧
      readOne "(b(c))".toList = .ok
        (list ⟨0, 6⟩ [symbol ⟨1, 2⟩ "b", list ⟨2, 5⟩ [symbol ⟨3, 4⟩ "c"]]) ∧
      commentedList.render = "(a (b (c)))" ∧
      ∃ read, readOne "(a (b (c)))".toList = .ok read ∧ read.tree = commentedList.tree := by
  obtain ⟨hall, -, hrender⟩ := spans_exact
  have hread : readAll commented = .ok [commentedList, symbol ⟨13, 14⟩ "d"] := rfl
  obtain ⟨table, -, hexact⟩ := hall ⟨"", commented⟩ _ hread
  have hinner := hexact commentedList (List.mem_cons_self ..) _
    (.element (List.mem_cons_of_mem _ (List.mem_cons_self ..)) (.self _))
  exact ⟨hread, hinner.2.again.1, rfl, hrender commentedList wordy_commentedList⟩

end Term

end RegisterColouring
