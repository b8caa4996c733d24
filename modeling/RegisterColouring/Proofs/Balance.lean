/-
**Exactly the balanced texts can be read.**

The tokens of a text denote terms if its parentheses match: each closing parenthesis ends the list
that the last open parenthesis before it has begun.  The reader goes through the tokens once, with a
stack of the lists that are still open.  What it has after some tokens says what these tokens are:
tokens that denote the finished terms, and then, for each open list, its parenthesis and tokens that
denote the elements read so far.  So a closing parenthesis that finds the stack empty is the first
one without a partner, a stack that is not empty at the end is an open list, and there is nothing
else that can go wrong.

Main definitions:

* `RegisterColouring.Denotes` — **the terms that tokens denote**;
* `RegisterColouring.Token.Sheltered`, `RegisterColouring.Token.Balanced` — parentheses that match;
* `RegisterColouring.Token.FirstStray` — the first closing parenthesis without a partner;
* `RegisterColouring.Term.Reading.Holds` — what the reader has after some tokens.

Main results:

* `RegisterColouring.Term.Reading.Holds.step` — **what one token does**;
* `RegisterColouring.Term.readTokens_cases` — how reading ends;
* `RegisterColouring.Term.reading_exact` — **exactly the balanced texts can be read**, and where
  reading fails on the others.
-/

import RegisterColouring.Proofs.Splitting

set_option autoImplicit false

namespace RegisterColouring

/-! ### Parentheses that match -/

namespace Token

/-- An opening parenthesis. -/
def isOpening : Token → Bool
  | opening _ => true
  | _ => false

/-- A closing parenthesis. -/
def isClosing : Token → Bool
  | closing _ => true
  | _ => false

/-- How many of some tokens are opening parentheses. -/
def openings (tokens : List Token) : Nat := tokens.countP isOpening

/-- How many of some tokens are closing parentheses. -/
def closings (tokens : List Token) : Nat := tokens.countP isClosing

@[simp] theorem openings_append (tokens more : List Token) :
    openings (tokens ++ more) = openings tokens + openings more :=
  List.countP_append

@[simp] theorem closings_append (tokens more : List Token) :
    closings (tokens ++ more) = closings tokens + closings more :=
  List.countP_append

@[simp] theorem openings_nil : openings [] = 0 := rfl

@[simp] theorem closings_nil : closings [] = 0 := rfl

@[simp] theorem openings_cons (token : Token) (tokens : List Token) :
    openings (token :: tokens) = openings tokens + if token.isOpening then 1 else 0 :=
  List.countP_cons

@[simp] theorem closings_cons (token : Token) (tokens : List Token) :
    closings (token :: tokens) = closings tokens + if token.isClosing then 1 else 0 :=
  List.countP_cons

@[simp] theorem isOpening_opening (start : Nat) : (opening start).isOpening = true := rfl

@[simp] theorem isOpening_closing (start : Nat) : (closing start).isOpening = false := rfl

@[simp] theorem isOpening_symbol (start : Nat) (text : List Char) :
    (symbol start text).isOpening = false := rfl

@[simp] theorem isClosing_opening (start : Nat) : (opening start).isClosing = false := rfl

@[simp] theorem isClosing_closing (start : Nat) : (closing start).isClosing = true := rfl

@[simp] theorem isClosing_symbol (start : Nat) (text : List Char) :
    (symbol start text).isClosing = false := rfl

/-- **No closing parenthesis is without a partner**: at no point have more lists been closed than
opened. -/
def Sheltered (tokens : List Token) : Prop :=
  ∀ front, front <+: tokens → closings front ≤ openings front

/-- **Parentheses that match**: no closing one is without a partner, and there are as many opening
ones. -/
def Balanced (tokens : List Token) : Prop :=
  Sheltered tokens ∧ closings tokens = openings tokens

/-- **The first closing parenthesis without a partner** is at a given position: before it all
parentheses match. -/
def FirstStray (tokens : List Token) (position : Nat) : Prop :=
  ∃ front rest, tokens = front ++ closing position :: rest ∧ Balanced front

theorem sheltered_nil : Sheltered [] := by
  intro front h
  rw [List.prefix_nil.1 h]
  exact Nat.le_refl _

theorem Sheltered.append {tokens more : List Token} (h : Sheltered tokens)
    (hmore : Sheltered more) : Sheltered (tokens ++ more) := by
  rintro front ⟨rest, hrest⟩
  rcases List.append_eq_append_iff.1 hrest with ⟨others, rfl, -⟩ | ⟨others, rfl, rfl⟩
  · exact h front (List.prefix_append ..)
  · have hbefore := h tokens (List.prefix_refl _)
    have hafter := hmore others (List.prefix_append ..)
    rw [openings_append, closings_append]
    omega

theorem sheltered_singleton {token : Token} (h : token.isClosing = false) : Sheltered [token] := by
  intro front hfront
  have hle : closings front ≤ closings [token] := hfront.sublist.countP_le
  rw [closings_cons, h] at hle
  simp only [closings_nil, Bool.false_eq_true, if_false] at hle
  omega

theorem balanced_nil : Balanced [] := ⟨sheltered_nil, rfl⟩

theorem Balanced.append {tokens more : List Token} (h : Balanced tokens) (hmore : Balanced more) :
    Balanced (tokens ++ more) :=
  ⟨h.1.append hmore.1, by rw [openings_append, closings_append, h.2, hmore.2]⟩

theorem balanced_symbol (start : Nat) (text : List Char) : Balanced [symbol start text] :=
  ⟨sheltered_singleton rfl, rfl⟩

/-- Matching parentheses with a pair around them. -/
theorem Balanced.parenthesised {inside : List Token} (h : Balanced inside) (start finish : Nat) :
    Balanced (opening start :: inside ++ [closing finish]) := by
  have hcount : closings (opening start :: inside ++ [closing finish]) =
      openings (opening start :: inside ++ [closing finish]) := by
    simp [h.2]
  refine ⟨?_, hcount⟩
  intro front hfront
  rcases List.prefix_concat_iff.1 hfront with rfl | hfront
  · exact hcount.le
  · have hopening : Sheltered [opening start] := sheltered_singleton rfl
    exact hopening.append h.1 front hfront

/-- A closing parenthesis after matching ones is without a partner. -/
theorem not_sheltered_of_firstStray {tokens : List Token} {position : Nat}
    (h : FirstStray tokens position) : ¬ Sheltered tokens := by
  obtain ⟨front, rest, rfl, -, hcount⟩ := h
  intro hsheltered
  have hle := hsheltered (front ++ [closing position]) ⟨rest, by simp⟩
  simp only [openings_append, closings_append, openings_cons, closings_cons, openings_nil,
    closings_nil, isOpening_closing, isClosing_closing] at hle
  simp only [hcount, Bool.false_eq_true, if_false, if_true] at hle
  omega

theorem FirstStray.unique {tokens : List Token} {p q : Nat} (hp : FirstStray tokens p)
    (hq : FirstStray tokens q) : p = q := by
  obtain ⟨front, rest, rfl, hfront⟩ := hp
  obtain ⟨front', rest', heq, hfront'⟩ := hq
  -- of two fronts the longer one would hold the parenthesis after the shorter one
  have hlonger : ∀ {a b others : List Token} {position : Nat}, Balanced a → Balanced b →
      b ≠ a ++ closing position :: others := by
    rintro a _ others position ha hb rfl
    exact not_sheltered_of_firstStray ⟨a, others, rfl, ha⟩ hb.1
  rcases List.append_eq_append_iff.1 heq with ⟨others, hothers, htail⟩ | ⟨others, hothers, htail⟩
  · cases others with
    | nil => exact Token.closing.inj (List.cons.inj htail).1
    | cons token others =>
        obtain rfl := (List.cons.inj htail).1
        exact absurd hothers (hlonger hfront hfront')
  · cases others with
    | nil => exact (Token.closing.inj (List.cons.inj htail).1).symm
    | cons token others =>
        obtain rfl := (List.cons.inj htail).1
        exact absurd hothers (hlonger hfront' hfront)

end Token

/-! ### The terms that tokens denote -/

/-- **The terms that tokens denote.**  A symbol denotes itself, and an opening parenthesis, tokens
that denote some terms and a closing parenthesis denote the list of these terms. -/
inductive Denotes : List Token → List Term → Prop
  | nil : Denotes [] []
  | symbol {start : Nat} {text : List Char} {tokens : List Token} {terms : List Term}
      (h : Denotes tokens terms) :
      Denotes (.symbol start text :: tokens)
        (.symbol ⟨start, start + text.length⟩ (String.ofList text) :: terms)
  | list {start finish : Nat} {inside tokens : List Token} {elements terms : List Term}
      (hinside : Denotes inside elements) (h : Denotes tokens terms) :
      Denotes (.opening start :: inside ++ .closing finish :: tokens)
        (.list ⟨start, finish + 1⟩ elements :: terms)

namespace Denotes

variable {tokens more : List Token} {terms others : List Term} {term : Term}

theorem append (h : Denotes tokens terms) (hmore : Denotes more others) :
    Denotes (tokens ++ more) (terms ++ others) := by
  induction h with
  | nil => exact hmore
  | symbol _ ih => exact .symbol ih
  | list hinside _ _ ih =>
      rw [List.append_assoc, List.cons_append]
      exact .list hinside ih

/-- The tokens of the first term come first. -/
theorem first (h : Denotes tokens (term :: terms)) :
    ∃ front rest, tokens = front ++ rest ∧ Denotes front [term] ∧ Denotes rest terms := by
  cases h with
  | symbol hrest => exact ⟨[_], _, rfl, .symbol .nil, hrest⟩
  | @list start finish inside tokens elements _ hinside hrest =>
      exact ⟨.opening start :: inside ++ [.closing finish], tokens, by simp, .list hinside .nil,
        hrest⟩

/-- **Tokens that denote terms are balanced.** -/
theorem balanced (h : Denotes tokens terms) : Token.Balanced tokens := by
  induction h with
  | nil => exact Token.balanced_nil
  | symbol _ ih => exact (Token.balanced_symbol _ _).append ih
  | @list start finish inside tokens _ _ _ _ ihinside ih =>
      have hpair := (ihinside.parenthesised start finish).append ih
      rwa [List.append_assoc, List.singleton_append] at hpair

end Denotes

namespace Term

/-! ### What the reader has after some tokens -/

namespace Reading

/-- Several terms have been read. -/
def addAll (reading : Reading) (terms : List Term) : Reading := terms.foldl add reading

theorem addAll_inside (inner : Open) (outer : List Open) (finished terms : List Term) :
    addAll ⟨inner :: outer, finished⟩ terms =
      ⟨{ inner with elements := terms.reverse ++ inner.elements } :: outer, finished⟩ := by
  induction terms generalizing inner with
  | nil => rfl
  | cons term terms ih =>
      rw [addAll, List.foldl_cons, ← addAll, add, ih]
      simp

theorem addAll_outside (finished terms : List Term) :
    addAll ⟨[], finished⟩ terms = ⟨[], terms.reverse ++ finished⟩ := by
  induction terms generalizing finished with
  | nil => rfl
  | cons term terms ih =>
      rw [addAll, List.foldl_cons, ← addAll, add, ih]
      simp

/-- What the open lists, innermost first, and the finished terms, latest first, say about the tokens
that have been read. -/
def Represents : List Open → List Term → List Token → Prop
  | [], finished, tokens => Denotes tokens finished.reverse
  | inner :: outer, finished, tokens =>
    ∃ front inside, tokens = front ++ .opening inner.start :: inside ∧
      Denotes inside inner.elements.reverse ∧ Represents outer finished front

/-- **What the reader has after some tokens.** -/
def Holds (reading : Reading) (tokens : List Token) : Prop :=
  Represents reading.pending reading.finished tokens

namespace Holds

variable {reading next : Reading} {tokens more : List Token} {token : Token} {term : Term}

theorem empty : Holds .empty [] := .nil

/-- Tokens that denote a term add it to what the reader has. -/
theorem add (h : Holds reading tokens) (hmore : Denotes more [term]) :
    Holds (reading.add term) (tokens ++ more) := by
  obtain ⟨pending, finished⟩ := reading
  cases pending with
  | nil =>
      have hall : Denotes (tokens ++ more) (finished.reverse ++ [term]) := Denotes.append h hmore
      rw [← List.reverse_cons] at hall
      exact hall
  | cons inner outer =>
      obtain ⟨front, inside, rfl, hinside, hfront⟩ := h
      have hall := hinside.append hmore
      rw [← List.reverse_cons] at hall
      exact ⟨front, inside ++ more, by simp, hall, hfront⟩

/-- **What one token does.** -/
theorem step (h : Holds reading tokens) (hstep : reading.step token = .ok next) :
    Holds next (tokens ++ [token]) := by
  cases token with
  | symbol start text =>
      obtain rfl := Except.ok.inj hstep
      exact h.add (.symbol .nil)
  | opening start =>
      obtain rfl := Except.ok.inj hstep
      exact ⟨tokens, [], rfl, .nil, h⟩
  | closing start =>
      obtain ⟨pending, finished⟩ := reading
      cases pending with
      | nil => simp [Reading.step] at hstep
      | cons inner outer =>
          obtain rfl := Except.ok.inj hstep
          obtain ⟨front, inside, rfl, hinside, hfront⟩ := h
          have hlist : Denotes (.opening inner.start :: inside ++ [.closing start])
              [.list ⟨inner.start, start + 1⟩ inner.elements.reverse] := .list hinside .nil
          have hadd : Holds (Reading.add ⟨outer, finished⟩ _) _ := Holds.add hfront hlist
          simpa using hadd

/-- No closing parenthesis that was read is without a partner, and each open list has an opening
parenthesis without one. -/
theorem sheltered (h : Holds reading tokens) : Token.Sheltered tokens ∧
    Token.openings tokens = Token.closings tokens + reading.pending.length := by
  obtain ⟨pending, finished⟩ := reading
  induction pending generalizing tokens with
  | nil =>
      obtain ⟨hsheltered, hcount⟩ := Denotes.balanced h
      exact ⟨hsheltered, hcount.symm⟩
  | cons inner outer ih =>
      obtain ⟨front, inside, rfl, hinside, hfront⟩ := h
      obtain ⟨hsheltered, hcount⟩ := ih hfront
      obtain ⟨hinside, hinsides⟩ := hinside.balanced
      have hopening : Token.Sheltered [.opening inner.start] := Token.sheltered_singleton rfl
      refine ⟨hsheltered.append (hopening.append hinside), ?_⟩
      simp only [Token.openings_append, Token.closings_append, Token.openings_cons,
        Token.closings_cons, Token.isOpening_opening, Token.isClosing_opening, if_true, hcount,
        Bool.false_eq_true, if_false, hinsides, List.length_cons]
      omega

end Holds

end Reading

/-! ### Reading all terms -/

/-- **Reading tokens that denote terms adds these terms.** -/
theorem readTokens_of_denotes {tokens : List Token} {terms : List Term} (h : Denotes tokens terms)
    (length : Nat) (reading : Reading) (rest : List Token) :
    readTokens length reading (tokens ++ rest) = readTokens length (reading.addAll terms) rest := by
  induction h generalizing reading rest with
  | nil => rfl
  | symbol _ ih => exact ih _ rest
  | @list start finish inside tokens elements terms _ _ ihinside ih =>
      have hopen : readTokens length reading
          (.opening start :: (inside ++ .closing finish :: (tokens ++ rest))) =
          readTokens length ⟨⟨start, []⟩ :: reading.pending, reading.finished⟩
            (inside ++ .closing finish :: (tokens ++ rest)) := rfl
      rw [List.append_assoc, List.cons_append, List.cons_append, hopen, ihinside,
        Reading.addAll_inside]
      simp only [readTokens, Reading.step, List.append_nil, List.reverse_reverse]
      exact ih _ rest

/-- **How reading ends**, after some tokens have been read: with the terms that all tokens denote,
at the first closing parenthesis without a partner, or with an open list. -/
theorem readTokens_cases (length : Nat) {reading : Reading} {tokens : List Token}
    (h : reading.Holds tokens) (rest : List Token) :
    (∃ terms, readTokens length reading rest = .ok terms ∧ Denotes (tokens ++ rest) terms) ∨
      (∃ position, Token.FirstStray (tokens ++ rest) position ∧
        readTokens length reading rest = .error ⟨Span.single position, .endOfList⟩) ∨
      (Token.Sheltered (tokens ++ rest) ∧
        Token.closings (tokens ++ rest) < Token.openings (tokens ++ rest) ∧
        readTokens length reading rest = .error ⟨Span.empty length, .endOfFile⟩) := by
  induction rest generalizing reading tokens with
  | nil =>
      rw [List.append_nil, readTokens]
      obtain ⟨hsheltered, hcount⟩ := h.sheltered
      obtain ⟨pending, finished⟩ := reading
      cases pending with
      | nil => exact Or.inl ⟨finished.reverse, rfl, h⟩
      | cons inner outer =>
          rw [List.length_cons] at hcount
          exact Or.inr (Or.inr ⟨hsheltered, by omega, rfl⟩)
  | cons token rest ih =>
      cases hstep : reading.step token with
      | ok next =>
          have hnext := ih (h.step hstep)
          simpa only [readTokens, hstep, List.append_assoc, List.singleton_append] using hnext
      | error issue =>
          -- only a closing parenthesis that finds no open list is refused
          obtain ⟨pending, finished⟩ := reading
          cases token with
          | symbol start text => simp [Reading.step] at hstep
          | opening start => simp [Reading.step] at hstep
          | closing start =>
              cases pending with
              | cons inner outer => simp [Reading.step] at hstep
              | nil =>
                  refine Or.inr (Or.inl ⟨start, ⟨tokens, rest, rfl, Denotes.balanced h⟩, ?_⟩)
                  simp only [readTokens, Reading.step]

variable {text : List Char} {terms : List Term} {term : Term} {issue : Issue}

theorem readAll_cases (text : List Char) :
    (∃ terms, readAll text = .ok terms ∧ Denotes (Token.scan text) terms) ∨
      (∃ position, Token.FirstStray (Token.scan text) position ∧
        readAll text = .error ⟨Span.single position, .endOfList⟩) ∨
      (Token.Sheltered (Token.scan text) ∧
        Token.closings (Token.scan text) < Token.openings (Token.scan text) ∧
        readAll text = .error ⟨Span.empty text.length, .endOfFile⟩) :=
  readTokens_cases text.length Reading.Holds.empty (Token.scan text)

theorem readAll_eq_ok_iff : readAll text = .ok terms ↔ Denotes (Token.scan text) terms := by
  constructor
  · intro h
    rcases readAll_cases text with ⟨terms', hok, hdenotes⟩ | ⟨_, -, herror⟩ | ⟨-, -, herror⟩
    · obtain rfl := Except.ok.inj (h.symm.trans hok)
      exact hdenotes
    · exact absurd (h.symm.trans herror) (by simp)
    · exact absurd (h.symm.trans herror) (by simp)
  · intro h
    have hread := readTokens_of_denotes h text.length .empty []
    rw [List.append_nil, Reading.empty, Reading.addAll_outside] at hread
    rw [readAll, Reading.empty, hread]
    simp [readTokens, Reading.finish]

theorem readAll_ok_iff_balanced :
    (∃ terms, readAll text = .ok terms) ↔ Token.Balanced (Token.scan text) := by
  constructor
  · rintro ⟨terms, h⟩
    exact (readAll_eq_ok_iff.1 h).balanced
  · rintro ⟨hsheltered, hcount⟩
    rcases readAll_cases text with ⟨terms, hok, -⟩ | ⟨_, hstray, -⟩ | ⟨-, hlt, -⟩
    · exact ⟨terms, hok⟩
    · exact absurd hsheltered (Token.not_sheltered_of_firstStray hstray)
    · omega

theorem readAll_eq_error_iff : readAll text = .error issue ↔
    (∃ position, Token.FirstStray (Token.scan text) position ∧
      issue = ⟨Span.single position, .endOfList⟩) ∨
    (Token.Sheltered (Token.scan text) ∧
      Token.closings (Token.scan text) < Token.openings (Token.scan text) ∧
      issue = ⟨Span.empty text.length, .endOfFile⟩) := by
  rcases readAll_cases text with ⟨terms, hok, hdenotes⟩ | ⟨position, hstray, herror⟩ |
    ⟨hsheltered, hlt, herror⟩
  · obtain ⟨hsheltered, hcount⟩ := hdenotes.balanced
    rw [hok]
    constructor
    · intro h
      simp at h
    · rintro (⟨_, hstray, -⟩ | ⟨-, hlt, -⟩)
      · exact absurd hsheltered (Token.not_sheltered_of_firstStray hstray)
      · omega
  · rw [herror, Except.error.injEq]
    constructor
    · rintro rfl
      exact Or.inl ⟨position, hstray, rfl⟩
    · rintro (⟨other, hother, rfl⟩ | ⟨hsheltered, -⟩)
      · rw [hstray.unique hother]
      · exact absurd hsheltered (Token.not_sheltered_of_firstStray hstray)
  · rw [herror, Except.error.injEq]
    constructor
    · rintro rfl
      exact Or.inr ⟨hsheltered, hlt, rfl⟩
    · rintro (⟨_, hstray, -⟩ | ⟨-, -, rfl⟩)
      · exact absurd hsheltered (Token.not_sheltered_of_firstStray hstray)
      · rfl

/-! ### Reading one term -/

/-- Inside a list, reading one term goes on as reading all terms does. -/
theorem readSingle_inside {inside : List Token} {elements : List Term}
    (h : Denotes inside elements) (length : Nat) (inner : Open) (outer : List Open)
    (finished : List Term) (rest : List Token) :
    readSingle length ⟨inner :: outer, finished⟩ (inside ++ rest) = readSingle length
      ⟨{ inner with elements := elements.reverse ++ inner.elements } :: outer, finished⟩ rest := by
  induction h generalizing inner outer rest with
  | nil => rfl
  | symbol _ ih =>
      rw [List.cons_append, readSingle_step (by rfl) (by rfl), Reading.add, ih]
      simp [Token.span, Token.start, Token.text]
  | @list start finish inside tokens elements terms _ _ ihinside ih =>
      rw [List.append_assoc, List.cons_append, List.cons_append,
        readSingle_step (by rfl) (by rfl), ihinside, readSingle_step (by rfl) (by rfl),
        Reading.add, ih]
      simp

/-- Reading one term reads the tokens of a term as that term. -/
theorem readSingle_of_denotes {front : List Token} (h : Denotes front [term]) (length : Nat)
    (rest : List Token) :
    readSingle length .empty (front ++ rest) = readSingle length ⟨[], [term]⟩ rest := by
  cases h with
  | symbol hrest =>
      cases hrest
      exact readSingle_step (by rfl) (by rfl) rest
  | list hinside hrest =>
      cases hrest
      rw [List.append_assoc, List.cons_append, readSingle_step (by rfl) (by rfl),
        Reading.empty, readSingle_inside hinside, List.singleton_append,
        readSingle_step (by rfl) (by rfl)]
      simp [Reading.add]

/-- As long as no tokens from the first on denote a term, reading one term is reading all terms. -/
theorem readSingle_eq_readTokens (length : Nat) {reading : Reading} {tokens rest : List Token}
    (h : reading.Holds tokens)
    (hnone : ∀ front term, front <+: tokens ++ rest → ¬ Denotes front [term]) :
    readSingle length reading rest = readTokens length reading rest := by
  induction rest generalizing reading tokens with
  | nil => rfl
  | cons token rest ih =>
      have hsingle : reading.isSingle = false := by
        obtain ⟨pending, finished⟩ := reading
        cases pending with
        | cons inner outer => rfl
        | nil =>
            cases hterms : finished.reverse with
            | nil =>
                rw [List.reverse_eq_nil_iff] at hterms
                rw [hterms]
                rfl
            | cons term terms =>
                have hdenotes : Denotes tokens finished.reverse := h
                rw [hterms] at hdenotes
                obtain ⟨front, others, rfl, hfront, -⟩ := hdenotes.first
                exact absurd hfront (hnone front term ⟨others ++ token :: rest, by simp⟩)
      cases hstep : reading.step token with
      | error issue =>
          simp only [readSingle, readTokens, hsingle, hstep, Bool.false_eq_true, if_false]
      | ok next =>
          rw [readSingle_step hsingle hstep, ih (h.step hstep) (by simpa using hnone)]
          simp only [readTokens, hstep]

/-- **How reading one term ends.** -/
theorem readOne_cases (text : List Char) :
    (∃ term, Denotes (Token.scan text) [term] ∧ readOne text = .ok term) ∨
      (Token.scan text = [] ∧ readOne text = .error ⟨Span.empty text.length, .endOfFile⟩) ∨
      (∃ front term next rest, Token.scan text = front ++ next :: rest ∧ Denotes front [term] ∧
        readOne text = .error ⟨Span.single next.start, .remainder⟩) ∨
      ((∀ front term, front <+: Token.scan text → ¬ Denotes front [term]) ∧
        ∃ issue, readAll text = .error issue ∧ readOne text = .error issue) := by
  by_cases hfirst : ∃ front term, front <+: Token.scan text ∧ Denotes front [term]
  · obtain ⟨front, term, ⟨rest, hrest⟩, hdenotes⟩ := hfirst
    have hread := readSingle_of_denotes hdenotes text.length rest
    rw [hrest] at hread
    cases rest with
    | nil =>
        rw [List.append_nil] at hrest
        refine Or.inl ⟨term, hrest ▸ hdenotes, ?_⟩
        simp [readOne, hread, readSingle, Reading.finish]
    | cons next rest =>
        refine Or.inr (Or.inr (Or.inl ⟨front, term, next, rest, hrest.symm, hdenotes, ?_⟩))
        simp [readOne, hread, readSingle, Reading.isSingle]
  · have hnone : ∀ front term, front <+: Token.scan text → ¬ Denotes front [term] :=
      fun front term hfront hdenotes => hfirst ⟨front, term, hfront, hdenotes⟩
    have hread : readSingle text.length .empty (Token.scan text) = readAll text :=
      readSingle_eq_readTokens text.length Reading.Holds.empty hnone
    cases hall : readAll text with
    | error issue =>
        refine Or.inr (Or.inr (Or.inr ⟨hnone, issue, rfl, ?_⟩))
        simp [readOne, hread, hall]
    | ok terms =>
        have hdenotes := readAll_eq_ok_iff.1 hall
        cases terms with
        | cons term terms =>
            obtain ⟨front, others, hsplit, hfront, -⟩ := hdenotes.first
            exact absurd hfront (hnone front term ⟨others, hsplit.symm⟩)
        | nil =>
            refine Or.inr (Or.inl ⟨?_, by simp [readOne, hread, hall]⟩)
            generalize Token.scan text = tokens at hdenotes
            cases hdenotes
            rfl

theorem readOne_eq_ok_iff : readOne text = .ok term ↔ readAll text = .ok [term] := by
  rw [readAll_eq_ok_iff]
  constructor
  · intro h
    rcases readOne_cases text with ⟨other, hdenotes, hok⟩ | ⟨-, herror⟩ |
      ⟨_, _, _, _, -, -, herror⟩ | ⟨-, _, -, herror⟩
    · obtain rfl := Except.ok.inj (h.symm.trans hok)
      exact hdenotes
    all_goals exact absurd (h.symm.trans herror) (by simp)
  · intro h
    have hread := readSingle_of_denotes h text.length []
    rw [List.append_nil] at hread
    simp [readOne, hread, readSingle, Reading.finish]

/-- Tokens after the first term that some tokens denote are refused. -/
theorem readOne_remainder {front rest : List Token} {next : Token}
    (hsplit : Token.scan text = front ++ next :: rest) (h : Denotes front [term]) :
    readOne text = .error ⟨Span.single next.start, .remainder⟩ := by
  have hread := readSingle_of_denotes h text.length (next :: rest)
  simp [readOne, hsplit, hread, readSingle, Reading.isSingle]

theorem readOne_eq_error_iff : readOne text = .error issue ↔
    (Token.scan text = [] ∧ issue = ⟨Span.empty text.length, .endOfFile⟩) ∨
    (∃ front term next rest, Token.scan text = front ++ next :: rest ∧ Denotes front [term] ∧
      issue = ⟨Span.single next.start, .remainder⟩) ∨
    ((∀ front term, front <+: Token.scan text → ¬ Denotes front [term]) ∧
      readAll text = .error issue) := by
  constructor
  · intro h
    rcases readOne_cases text with ⟨_, -, hok⟩ | ⟨hnil, herror⟩ |
      ⟨front, term, next, rest, hsplit, hdenotes, herror⟩ | ⟨hnone, other, hall, herror⟩
    · exact absurd (h.symm.trans hok) (by simp)
    · exact Or.inl ⟨hnil, Except.error.inj (h.symm.trans herror)⟩
    · exact Or.inr (Or.inl ⟨front, term, next, rest, hsplit, hdenotes,
        Except.error.inj (h.symm.trans herror)⟩)
    · obtain rfl := Except.error.inj (h.symm.trans herror)
      exact Or.inr (Or.inr ⟨hnone, hall⟩)
  · rintro (⟨hnil, rfl⟩ | ⟨front, term, next, rest, hsplit, hdenotes, rfl⟩ | ⟨hnone, hall⟩)
    · simp [readOne, hnil, readSingle, Reading.finish, Reading.empty]
    · exact readOne_remainder hsplit hdenotes
    · have hread : readSingle text.length .empty (Token.scan text) = readAll text :=
        readSingle_eq_readTokens text.length Reading.Holds.empty hnone
      simp [readOne, hread, hall]

/-- **Exactly the balanced texts can be read.**  The tokens of a text are those it splits into.  All
its terms can be read if and only if the parentheses among its tokens match, and they are the terms
that the tokens denote.  Otherwise the first closing parenthesis without a partner is refused, or,
if there is none, the end of the text.  A text can be read as one term if and only if that is all it
holds.  Otherwise the end of a text without tokens is refused; if some tokens from the first on
denote a term, the first character of the token after them is; and if there is no first term, what
stands in the way of reading all terms. -/
theorem reading_exact (text : List Char) :
    (∀ tokens, Splits 0 text tokens ↔ tokens = Token.scan text) ∧
    (∀ terms, readAll text = .ok terms ↔ Denotes (Token.scan text) terms) ∧
    ((∃ terms, readAll text = .ok terms) ↔ Token.Balanced (Token.scan text)) ∧
    (∀ issue, readAll text = .error issue ↔
      (∃ position, Token.FirstStray (Token.scan text) position ∧
        issue = ⟨⟨position, position + 1⟩, .endOfList⟩) ∨
      ((¬ ∃ position, Token.FirstStray (Token.scan text) position) ∧
        ¬ Token.Balanced (Token.scan text) ∧
        issue = ⟨⟨text.length, text.length⟩, .endOfFile⟩)) ∧
    (∀ term, readOne text = .ok term ↔ readAll text = .ok [term]) ∧
    (∀ issue, readOne text = .error issue ↔
      (Token.scan text = [] ∧ issue = ⟨⟨text.length, text.length⟩, .endOfFile⟩) ∨
      (∃ front term next rest, Token.scan text = front ++ next :: rest ∧ Denotes front [term] ∧
        issue = ⟨⟨next.start, next.start + 1⟩, .remainder⟩) ∨
      ((∀ front term, front <+: Token.scan text → ¬ Denotes front [term]) ∧
        readAll text = .error issue)) ∧
    Complaint.endOfList.message = "unexpected end-of-list" ∧
    Complaint.endOfFile.message = "unexpected end-of-file" ∧
    Complaint.remainder.message = "unexpected remainder" := by
  refine ⟨fun _ => splits_iff, fun _ => readAll_eq_ok_iff, readAll_ok_iff_balanced, ?_,
    fun _ => readOne_eq_ok_iff, fun _ => readOne_eq_error_iff, rfl, rfl, rfl⟩
  intro issue
  rw [readAll_eq_error_iff]
  refine or_congr Iff.rfl ?_
  rw [← and_assoc, ← and_assoc]
  refine and_congr_left fun _ => ?_
  constructor
  · rintro ⟨hsheltered, hlt⟩
    refine ⟨?_, fun hbalanced => absurd hbalanced.2 hlt.ne⟩
    rintro ⟨position, hstray⟩
    exact Token.not_sheltered_of_firstStray hstray hsheltered
  · rintro ⟨hstray, hbalanced⟩
    rcases readAll_cases text with ⟨terms, -, hdenotes⟩ | ⟨position, hfirst, -⟩ | ⟨h, hlt, -⟩
    · exact absurd hdenotes.balanced hbalanced
    · exact absurd ⟨position, hfirst⟩ hstray
    · exact ⟨h, hlt⟩

end Term

end RegisterColouring
