/-
**Texts of terms.**

What a text denotes depends on its tokens only, not on where they stand: the same parentheses and
words with other blanks between them are read as the same terms, but for their spans.  A tree is a
term without spans.  A text spells some tokens if it is scanned to them wherever it stands before
something that cannot continue its last word; texts that spell tokens can be put in parentheses and
in a row with blanks between them.  A text whose tokens are those of a tree is read as the tree.

Main definitions:

* `RegisterColouring.Mark`, `RegisterColouring.Token.marks` — tokens without positions;
* `RegisterColouring.Tree`, `RegisterColouring.Term.tree` — terms without spans;
* `RegisterColouring.Tree.marks` — the tokens of a tree;
* `RegisterColouring.Spells` — what a text is scanned to.

Main results:

* `RegisterColouring.Spells.parenthesised`, `RegisterColouring.Spells.intercalate`,
  `RegisterColouring.Spells.lines` — texts put together;
* `RegisterColouring.Term.readOne_of_marks` — **a text with the tokens of a tree is read as the
  tree**.
-/

import Mathlib.Data.List.Forall2
import RegisterColouring.Term.Reader

set_option autoImplicit false

namespace RegisterColouring

/-! ### Tokens without positions -/

/-- A token without its position. -/
inductive Mark where
  | opening
  | closing
  | word (text : String)
  deriving DecidableEq, Repr

namespace Token

/-- A token, its position forgotten. -/
def mark : Token → Mark
  | opening _ => .opening
  | closing _ => .closing
  | symbol _ text => .word (String.ofList text)

theorem mark_eq_opening_iff {token : Token} :
    token.mark = .opening ↔ ∃ start, token = opening start := by
  cases token <;> simp [mark]

theorem mark_eq_closing_iff {token : Token} :
    token.mark = .closing ↔ ∃ start, token = closing start := by
  cases token <;> simp [mark]

theorem mark_eq_word_iff {token : Token} {word : String} :
    token.mark = .word word ↔ ∃ start, token = symbol start word.toList := by
  cases token with
  | opening => simp [mark]
  | closing => simp [mark]
  | symbol start text =>
      simp only [mark, Mark.word.injEq, symbol.injEq, exists_eq_left']
      exact ⟨fun h => by simp [← h], fun h => by simp [h]⟩

/-- **The tokens of a text without their positions.** -/
def marks (text : List Char) : List Mark := (scan text).map mark

/-- Two places of the scanner that differ at most in where a symbol started. -/
def Place.Similar : Place → Place → Prop
  | .between, .between => True
  | .comment, .comment => True
  | .inside _ read, .inside _ read' => read = read'
  | _, _ => False

theorem Place.Similar.comment_iff {place place' : Place} (h : place.Similar place') :
    place = .comment ↔ place' = .comment := by
  cases place <;> cases place' <;> simp_all [Place.Similar]

theorem Place.Similar.finished {place place' : Place} (h : place.Similar place') :
    place.finished.map mark = place'.finished.map mark := by
  cases place <;> cases place' <;> simp_all [Place.Similar, Place.finished, mark]

theorem Place.Similar.extend {place place' : Place} (h : place.Similar place') (p q : Nat)
    (c : Char) : (place.extend p c).Similar (place'.extend q c) := by
  cases place <;> cases place' <;> simp_all [Place.Similar, Place.extend]

theorem Place.similar_self (place : Place) : place.Similar place := by
  cases place <;> simp [Place.Similar]

theorem map_mark_parenthesis (p q : Nat) (c : Char) :
    (parenthesis p c).map mark = (parenthesis q c).map mark := by
  unfold parenthesis
  split
  · rfl
  · split <;> rfl

/-- Scanning does not depend on positions. -/
theorem map_mark_scanFrom {place place' : Place} (h : place.Similar place') (p q : Nat)
    (text : List Char) :
    (scanFrom place p text).map mark = (scanFrom place' q text).map mark := by
  induction text generalizing place place' p q with
  | nil => exact h.finished
  | cons c rest ih =>
      unfold scanFrom
      by_cases hcomment : place = .comment
      · rw [if_pos hcomment, if_pos (h.comment_iff.1 hcomment)]
        exact ih (Place.similar_self _) _ _
      · rw [if_neg hcomment, if_neg fun h' => hcomment (h.comment_iff.2 h')]
        split
        · exact ih (h.extend p q c) _ _
        · rw [List.map_append, List.map_append, List.map_append, List.map_append, h.finished,
            map_mark_parenthesis p q, ih (Place.similar_self _) (p + 1) (q + 1)]

theorem map_mark_scanFrom_between (p : Nat) (text : List Char) :
    (scanFrom .between p text).map mark = marks text :=
  map_mark_scanFrom (Place.similar_self _) p 0 text

@[simp] theorem marks_nil : marks [] = [] := rfl

theorem marks_cons_of_not_letter {c : Char} (h : isSymbolLetter c = false) (hc : c ≠ ';')
    (rest : List Char) : marks (c :: rest) = (parenthesis 0 c).map mark ++ marks rest := by
  have hstep : scan (c :: rest) = parenthesis 0 c ++ scanFrom .between 1 rest := by
    rw [scan, scanFrom, if_neg (by simp), if_neg (by simp [h]), if_neg hc]
    rfl
  rw [marks, hstep, List.map_append, map_mark_scanFrom_between]

@[simp] theorem marks_opening (rest : List Char) : marks ('(' :: rest) = .opening :: marks rest :=
  marks_cons_of_not_letter (by decide) (by decide) rest

@[simp] theorem marks_closing (rest : List Char) : marks (')' :: rest) = .closing :: marks rest :=
  marks_cons_of_not_letter (by decide) (by decide) rest

theorem marks_blank {c : Char} (h : isBlank c = true) (rest : List Char) :
    marks (c :: rest) = marks rest := by
  have hne : ∀ d, isBlank d = false → c ≠ d := by
    rintro d hd rfl
    rw [h] at hd
    exact absurd hd (by decide)
  rw [marks_cons_of_not_letter (by simp [isSymbolLetter, h]) (hne ';' (by decide)), parenthesis,
    if_neg (hne '(' (by decide)), if_neg (hne ')' (by decide))]
  rfl

end Token

/-! ### Words -/

/-- A word: some characters, all of which can stand in a symbol. -/
def IsWord (text : String) : Prop := text.toList ≠ [] ∧ ∀ c ∈ text.toList, isSymbolLetter c = true

theorem isWord_iff {text : String} :
    IsWord text ↔ (!text.toList.isEmpty && text.toList.all isSymbolLetter) = true := by
  simp [IsWord]

instance (text : String) : Decidable (IsWord text) := decidable_of_iff' _ isWord_iff

/-- A text that cannot continue a word before it. -/
def Stops (text : List Char) : Prop := ∀ c ∈ text.head?, isSymbolLetter c = false

@[simp] theorem stops_nil : Stops [] := by simp [Stops]

@[simp] theorem stops_cons {c : Char} {rest : List Char} :
    Stops (c :: rest) ↔ isSymbolLetter c = false := by
  simp [Stops]

theorem not_isSymbolLetter_of_isBlank {c : Char} (h : isBlank c = true) :
    isSymbolLetter c = false := by
  simp [isSymbolLetter, h]

namespace Token

/-- Scanning inside a word goes on to its end. -/
theorem map_mark_scanFrom_inside {word rest : List Char}
    (hword : ∀ c ∈ word, isSymbolLetter c = true) (hrest : Stops rest) (start p : Nat)
    (read : List Char) :
    (scanFrom (.inside start read) p (word ++ rest)).map mark =
      .word (String.ofList (read.reverse ++ word)) :: marks rest := by
  induction word generalizing p read with
  | nil =>
      rw [List.nil_append, List.append_nil]
      cases rest with
      | nil => rfl
      | cons c rest =>
          have hc := stops_cons.1 hrest
          have hinside : scanFrom (.inside start read) p (c :: rest) =
              symbol start read.reverse :: scanFrom .between p (c :: rest) := by
            simp [scanFrom, hc, Place.finished]
          rw [hinside, List.map_cons, map_mark_scanFrom_between]
          rfl
  | cons c word ih =>
      have hstep : scanFrom (.inside start read) p (c :: word ++ rest) =
          scanFrom (.inside start (c :: read)) (p + 1) (word ++ rest) := by
        simp [scanFrom, hword c (List.mem_cons_self ..), Place.extend]
      rw [hstep, ih fun d hd => hword d (List.mem_cons_of_mem _ hd)]
      simp

theorem marks_word {word : String} (hword : IsWord word) {rest : List Char} (hrest : Stops rest) :
    marks (word.toList ++ rest) = .word word :: marks rest := by
  obtain ⟨hne, hletters⟩ := hword
  cases hlist : word.toList with
  | nil => exact absurd hlist hne
  | cons c letters =>
      rw [hlist] at hletters
      have hstart : scan (c :: letters ++ rest) = scanFrom (.inside 0 [c]) 1 (letters ++ rest) := by
        simp [scan, scanFrom, hletters c (List.mem_cons_self ..), Place.extend]
      rw [marks, hstart, map_mark_scanFrom_inside
        (fun d hd => hletters d (List.mem_cons_of_mem _ hd)) hrest]
      simp [← hlist]

end Token

/-! ### Spelling -/

/-- **A text spells some tokens**: it is scanned to them, whatever stands after it, as long as that
cannot continue a word. -/
def Spells (text : List Char) (marks : List Mark) : Prop :=
  ∀ rest, Stops rest → Token.marks (text ++ rest) = marks ++ Token.marks rest

namespace Spells

variable {text other : List Char} {marks more : List Mark} {c : Char}

theorem nil : Spells [] [] := fun _ _ => rfl

theorem word {text : String} (h : IsWord text) : Spells text.toList [.word text] :=
  fun _ hrest => Token.marks_word h hrest

/-- A blank in front of a text does not matter. -/
theorem cons_blank (hc : isBlank c = true) (h : Spells text marks) : Spells (c :: text) marks := by
  intro rest hrest
  rw [List.cons_append, Token.marks_blank hc, h rest hrest]

/-- Two texts with a blank between them. -/
theorem append_blank (h : Spells text marks) (hc : isBlank c = true) (hother : Spells other more) :
    Spells (text ++ c :: other) (marks ++ more) := by
  intro rest hrest
  rw [List.append_assoc, List.cons_append, h _ (stops_cons.2 (not_isSymbolLetter_of_isBlank hc)),
    Token.marks_blank hc, hother rest hrest, List.append_assoc]

/-- A text in parentheses. -/
theorem parenthesised (h : Spells text marks) :
    Spells ('(' :: text ++ [')']) (.opening :: marks ++ [.closing]) := by
  intro rest _
  rw [List.append_assoc, List.cons_append, Token.marks_opening,
    h ([')'] ++ rest) (stops_cons.2 (by decide))]
  simp

/-- Texts in a row, with a space between neighbours. -/
theorem intercalate {parts : List String} {groups : List (List Mark)}
    (h : List.Forall₂ (fun part group => Spells part.toList group) parts groups) :
    Spells (" ".intercalate parts).toList groups.flatten := by
  rw [String.toList_intercalate]
  induction h with
  | nil => exact nil
  | @cons part group parts groups hpart hparts ih =>
      cases hparts with
      | nil => simpa using hpart
      | cons => simpa using hpart.append_blank (c := ' ') (by decide) ih

/-- Texts in a row, each of them on a line of its own. -/
theorem lines {α : Type} {text : α → String} {group : α → List Mark} {list : List α}
    (h : ∀ a ∈ list, Spells (text a).toList (group a)) :
    Spells (String.join (list.map fun a => text a ++ "\n")).toList (list.flatMap group) := by
  induction list with
  | nil => exact nil
  | cons a list ih =>
      have hrest := ih fun b hb => h b (List.mem_cons_of_mem _ hb)
      have hline := (h a (List.mem_cons_self ..)).append_blank (c := '\n') (by decide) hrest
      rw [List.map_cons, String.join_cons, String.toList_append, String.toList_append,
        List.append_assoc, List.flatMap_cons]
      exact hline

theorem marks_eq (h : Spells text marks) : Token.marks text = marks := by
  have hall := h [] stops_nil
  simpa using hall

end Spells

/-! ### Terms without spans -/

/-- A term without spans. -/
inductive Tree where
  | leaf (word : String)
  | node (children : List Tree)
  deriving Repr

namespace Tree

mutual

/-- The tokens of a tree. -/
def marks : Tree → List Mark
  | leaf word => [.word word]
  | node children => .opening :: marksAll children ++ [.closing]

/-- The tokens of trees, one after the other. -/
def marksAll : List Tree → List Mark
  | [] => []
  | tree :: trees => marks tree ++ marksAll trees

end

theorem marksAll_eq_flatMap (trees : List Tree) : marksAll trees = trees.flatMap marks := by
  induction trees with
  | nil => rfl
  | cons tree trees ih => rw [marksAll, List.flatMap_cons, ih]

theorem marksAll_map_leaf (words : List String) :
    marksAll (words.map leaf) = words.map Mark.word := by
  induction words with
  | nil => rfl
  | cons word words ih =>
      rw [List.map_cons, marksAll, ih, marks, List.singleton_append, List.map_cons]

end Tree

namespace Term

mutual

/-- A term, its spans forgotten. -/
def tree : Term → Tree
  | symbol _ value => .leaf value
  | list _ elements => .node (trees elements)

/-- Terms, their spans forgotten. -/
def trees : List Term → List Tree
  | [] => []
  | term :: terms => tree term :: trees terms

end

theorem trees_eq_map (terms : List Term) : trees terms = terms.map tree := by
  induction terms with
  | nil => rfl
  | cons term terms ih => rw [trees, List.map_cons, ih]

theorem tree_eq_leaf_iff {term : Term} {word : String} :
    term.tree = .leaf word ↔ ∃ span, term = symbol span word := by
  cases term with
  | symbol span value => simp [tree]
  | list span elements => simp [tree]

theorem tree_eq_node_iff {term : Term} {children : List Tree} :
    term.tree = .node children ↔
      ∃ span elements, term = list span elements ∧ elements.map tree = children := by
  cases term with
  | symbol span value => simp [tree]
  | list span elements => simp [tree, trees_eq_map, and_assoc]

/-! ### Reading -/

theorem readSingle_step {length : Nat} {reading next : Reading} {token : Token}
    (hsingle : reading.isSingle = false) (hstep : reading.step token = .ok next)
    (tokens : List Token) :
    readSingle length reading (token :: tokens) = readSingle length next tokens := by
  simp only [readSingle, hsingle, hstep, Bool.false_eq_true, if_false]

mutual

/-- **Reading the tokens of a tree adds a term for it.** -/
theorem readSingle_tree (length : Nat) : ∀ (tree : Tree) (tokens : List Token),
    tokens.map Token.mark = tree.marks → ∀ reading : Reading, reading.isSingle = false →
    ∃ term : Term, term.tree = tree ∧ ∀ rest,
      readSingle length reading (tokens ++ rest) = readSingle length (reading.add term) rest
  | .leaf word, tokens, htokens, reading, hsingle => by
      rw [Tree.marks, List.map_eq_singleton_iff] at htokens
      obtain ⟨token, rfl, htoken⟩ := htokens
      obtain ⟨start, rfl⟩ := Token.mark_eq_word_iff.1 htoken
      refine ⟨symbol (Token.symbol start word.toList).span word, by rw [tree], fun rest => ?_⟩
      refine readSingle_step hsingle ?_ rest
      simp [Reading.step]
  | .node children, tokens, htokens, reading, hsingle => by
      rw [Tree.marks, List.map_eq_append_iff] at htokens
      obtain ⟨front, last, rfl, hfront, hlast⟩ := htokens
      rw [List.map_eq_cons_iff] at hfront
      obtain ⟨first, inside, rfl, hfirst, hinside⟩ := hfront
      rw [List.map_eq_singleton_iff] at hlast
      obtain ⟨final, rfl, hfinal⟩ := hlast
      obtain ⟨start, rfl⟩ := Token.mark_eq_opening_iff.1 hfirst
      obtain ⟨finish, rfl⟩ := Token.mark_eq_closing_iff.1 hfinal
      obtain ⟨terms, hterms, hread⟩ :=
        readSingle_trees length children inside hinside ⟨start, []⟩ reading.pending reading.finished
      refine ⟨list ⟨start, finish + 1⟩ terms, by rw [tree, trees_eq_map, hterms], fun rest => ?_⟩
      rw [List.append_assoc, List.cons_append, readSingle_step hsingle (by rfl), hread,
        List.singleton_append, readSingle_step (by rfl) (by rfl)]
      simp

/-- Reading the tokens of some trees inside a list adds a term for each of them. -/
theorem readSingle_trees (length : Nat) : ∀ (children : List Tree) (tokens : List Token),
    tokens.map Token.mark = Tree.marksAll children →
    ∀ (inner : Open) (outer : List Open) (finished : List Term),
    ∃ terms : List Term, terms.map tree = children ∧ ∀ rest,
      readSingle length ⟨inner :: outer, finished⟩ (tokens ++ rest) =
        readSingle length
          ⟨{ inner with elements := terms.reverse ++ inner.elements } :: outer, finished⟩ rest
  | [], tokens, htokens, inner, outer, finished => by
      rw [Tree.marksAll, List.map_eq_nil_iff] at htokens
      exact ⟨[], rfl, fun rest => by simp [htokens]⟩
  | child :: children, tokens, htokens, inner, outer, finished => by
      rw [Tree.marksAll, List.map_eq_append_iff] at htokens
      obtain ⟨front, back, rfl, hfront, hback⟩ := htokens
      obtain ⟨term, hterm, hread⟩ :=
        readSingle_tree length child front hfront ⟨inner :: outer, finished⟩ rfl
      obtain ⟨terms, hterms, hreadAll⟩ := readSingle_trees length children back hback
        { inner with elements := term :: inner.elements } outer finished
      refine ⟨term :: terms, by rw [List.map_cons, hterm, hterms], fun rest => ?_⟩
      rw [List.append_assoc, hread, Reading.add, hreadAll]
      simp

end

/-- **A text with the tokens of a tree is read as the tree.** -/
theorem readOne_of_marks {text : List Char} {tree : Tree} (h : Token.marks text = tree.marks) :
    ∃ term : Term, readOne text = .ok term ∧ term.tree = tree := by
  obtain ⟨term, hterm, hread⟩ := readSingle_tree text.length tree (Token.scan text) h .empty rfl
  have hall : readSingle text.length .empty (Token.scan text) = .ok [term] := by
    have hend := hread []
    rw [List.append_nil] at hend
    rw [hend]
    rfl
  exact ⟨term, by rw [readOne, hall], hterm⟩

end Term

end RegisterColouring
