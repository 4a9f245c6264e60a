import GraphicsBatch.Text.Position

/-! # Reading a source text from left to right

A cursor is a place in the text with all that is left from there on. Blanks are spaces, tabs,
carriage returns and bars; a comment runs from an opening brace to the next closing one.
-/

namespace GraphicsBatch.Source

/-! ## Characters -/

def isBlank (c : Char) : Bool := c = ' ' || c = '\t' || c = '\r' || c = '|'

def isDigit (c : Char) : Bool := '0' ≤ c && c ≤ '9'

def isNameStart (c : Char) : Bool :=
  ('A' ≤ c && c ≤ 'Z') || ('a' ≤ c && c ≤ 'z') || c = '_'

def isNameChar (c : Char) : Bool := isNameStart c || isDigit c

/-- Line ends are line feeds: a carriage return before one is dropped, any other is a blank. -/
def normalize : List Char → List Char
  | '\r' :: '\n' :: cs => '\n' :: normalize cs
  | c :: cs => c :: normalize cs
  | [] => []

/-! ## Cursors -/

structure Cursor where
  pos : Position
  rest : List Char
deriving Inhabited

namespace Cursor

def ofText (text : List Char) : Cursor := ⟨.start, text⟩

def atEnd (c : Cursor) : Bool := c.rest.isEmpty

/-- The next `n` characters, or as many as there are. -/
def peek (c : Cursor) (n : Nat) : List Char := c.rest.take n

def advance (c : Cursor) (n : Nat) : Cursor :=
  ⟨c.pos.afterAll (c.rest.take n), c.rest.drop n⟩

/-- Cuts off the longest run of characters in a class. -/
def span (c : Cursor) (p : Char → Bool) : List Char × Cursor :=
  let run := c.rest.takeWhile p
  (run, ⟨c.pos.afterAll run, c.rest.dropWhile p⟩)

/-- Skips blanks and comments. `opened` is the brace of the comment that is being skipped. -/
def skipFrom (newlines : Bool) : Option Cursor → Position → List Char → Except Cursor Cursor
  | none, p, [] => .ok ⟨p, []⟩
  | some opened, _, [] => .error opened
  | some opened, p, c :: cs =>
    skipFrom newlines (if c = '}' then none else some opened) (p.after c) cs
  | none, p, c :: cs =>
    if c = '{' then skipFrom newlines (some ⟨p, c :: cs⟩) (p.after c) cs
    else if isBlank c || (newlines && c = '\n') then skipFrom newlines none (p.after c) cs
    else .ok ⟨p, c :: cs⟩

/-- Skips blanks and comments, and line ends too if `newlines` is set. Fails with the place of the
brace when a comment is never closed. -/
def skipBlank (c : Cursor) (newlines : Bool) : Except Cursor Cursor :=
  skipFrom newlines none c.pos c.rest

/-- A name, empty if none starts here. -/
def name (c : Cursor) : List Char × Cursor :=
  match c.rest with
  | d :: _ => if isNameStart d then c.span isNameChar else ([], c)
  | [] => ([], c)

/-- A run of digits, empty if none starts here. -/
def number (c : Cursor) : List Char × Cursor := c.span isDigit

/-- The contents of a quoted text whose opening quote is the next character. It may not run past
the end of its line. -/
def quoted (c : Cursor) : Option (List Char × Cursor) :=
  let (body, d) := (c.advance 1).span fun x => x != '"' && x != '\n'
  match d.rest with
  | '"' :: _ => some (body, d.advance 1)
  | _ => none

/-- The first of some strings that stands here. -/
def readFirst (c : Cursor) (items : List String) : Option (String × Cursor) :=
  (items.find? fun s => s.toList.isPrefixOf c.rest).map fun s => (s, c.advance s.toList.length)

end Cursor

end GraphicsBatch.Source
