/-
**Reading terms.**

The tokens of a text are read from left to right with a stack of the lists that are still open.  A
closing parenthesis without an open list and an open list at the end of the text are the only
obstacles to reading all terms of a text; reading a single term also refuses text without a term and
text after the first one.

Main definitions:

* `RegisterColouring.Term.readAll` — all terms of a text;
* `RegisterColouring.Term.readOne` — the only term of a text.
-/

import RegisterColouring.Term.Basic
import RegisterColouring.Term.Token
import RegisterColouring.Term.Complaint

set_option autoImplicit false

namespace RegisterColouring

namespace Term

/-- A list that is still open: where it starts, and the elements read so far, latest first. -/
structure Open where
  start : Nat
  elements : List Term
  deriving Repr

/-- What has been read: the open lists, innermost first, and the finished terms outside of them,
latest first. -/
structure Reading where
  pending : List Open
  finished : List Term
  deriving Repr

namespace Reading

/-- Nothing has been read. -/
def empty : Reading := ⟨[], []⟩

/-- A term has been read: it belongs to the innermost open list. -/
def add (reading : Reading) (term : Term) : Reading :=
  match reading.pending with
  | [] => { reading with finished := term :: reading.finished }
  | inner :: outer =>
    { reading with pending := { inner with elements := term :: inner.elements } :: outer }

/-- One more token has been read. -/
def step (reading : Reading) : Token → Except Issue Reading
  | .symbol start text =>
    .ok (reading.add (symbol (Token.symbol start text).span (String.ofList text)))
  | .opening start => .ok { reading with pending := ⟨start, []⟩ :: reading.pending }
  | .closing start =>
    match reading.pending with
    | [] => .error ⟨Span.single start, .endOfList⟩
    | inner :: outer =>
      .ok (add { reading with pending := outer }
        (list ⟨inner.start, start + 1⟩ inner.elements.reverse))

/-- The terms that have been read by the end of a text of the given length. -/
def finish (reading : Reading) (length : Nat) : Except Issue (List Term) :=
  match reading.pending with
  | [] => .ok reading.finished.reverse
  | _ :: _ => .error ⟨Span.empty length, .endOfFile⟩

/-- Exactly one term has been read, and it is complete. -/
def isSingle (reading : Reading) : Bool := reading.pending.isEmpty && !reading.finished.isEmpty

end Reading

/-- The terms that tokens denote, after what has been read, in a text of the given length. -/
def readTokens (length : Nat) (reading : Reading) : List Token → Except Issue (List Term)
  | [] => reading.finish length
  | token :: tokens =>
    match reading.step token with
    | .ok reading => readTokens length reading tokens
    | .error issue => .error issue

/-- The first term that tokens denote, after what has been read, if no token follows it. -/
def readSingle (length : Nat) (reading : Reading) : List Token → Except Issue (List Term)
  | [] => reading.finish length
  | token :: tokens =>
    if reading.isSingle then .error ⟨Span.single token.start, .remainder⟩
    else match reading.step token with
      | .ok reading => readSingle length reading tokens
      | .error issue => .error issue

/-- **All terms of a text.** -/
def readAll (text : List Char) : Except Issue (List Term) :=
  readTokens text.length .empty (Token.scan text)

/-- **The only term of a text.** -/
def readOne (text : List Char) : Except Issue Term :=
  match readSingle text.length .empty (Token.scan text) with
  | .ok (term :: _) => .ok term
  | .ok [] => .error ⟨Span.empty text.length, .endOfFile⟩
  | .error issue => .error issue

end Term

end RegisterColouring
