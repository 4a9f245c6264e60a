import GraphicsBatch.Source.Cursor
import GraphicsBatch.Language.Fault

/-! # A reader over a whole text

The reader counts offsets in the text. A fault leaves it behind the character that is to blame.
-/

namespace GraphicsBatch.Source

structure Reader where
  text : List Char
  cursor : Cursor
deriving Inhabited

namespace Reader

def ofSource (source : String) : Reader :=
  let text := normalize source.toList
  ⟨text, .ofText text⟩

def offset (r : Reader) : Nat := r.text.length - r.cursor.rest.length

def atEnd (r : Reader) : Bool := r.cursor.atEnd

/-- How many characters a request for `n` of them takes in. The end of what is asked for is an offset,
and an offset below 0 counts from the end of the text. -/
def reach (r : Reader) (n : Int) : Nat := countBefore r.text.length (r.offset + n) - r.offset

def peek (r : Reader) (n : Int) : String := String.ofList (r.cursor.peek (r.reach n))

def read (r : Reader) (n : Int) : String × Reader :=
  (r.peek n, { r with cursor := r.cursor.advance (r.reach n) })

/-- The place of an offset, or of the reader itself. -/
def position (r : Reader) : Option Int → Position
  | some offset => .ofOffset r.text offset
  | none => r.cursor.pos

/-- Skips blanks and comments. Gives the next character, or an empty text at the end. -/
def skipBlank (r : Reader) (newlines : Bool) : Except ProgramError String × Reader :=
  match r.cursor.skipBlank newlines with
  | .ok c => (.ok (String.ofList (c.peek 1)), { r with cursor := c })
  | .error brace =>
    (.error (Malformed.unterminatedComment.toError brace.pos), { r with cursor := brace.advance 1 })

/-- Skips blanks, then takes the first of some strings that stands there. -/
def readFirst (r : Reader) (items : List String) (newlines : Bool) :
    Except ProgramError (Option String) × Reader :=
  match r.skipBlank newlines with
  | (.error e, r') => (.error e, r')
  | (.ok _, r') =>
    match r'.cursor.readFirst items with
    | some (s, c) => (.ok (some s), { r' with cursor := c })
    | none => (.ok none, r')

/-- Like `readFirst`, but one of the strings has to be there. -/
def require (r : Reader) (items : List String) (what : String) (newlines : Bool) :
    Except ProgramError String × Reader :=
  match r.readFirst items newlines with
  | (.error e, r') => (.error e, r')
  | (.ok (some s), r') => (.ok s, r')
  | (.ok none, r') => (.error ((Malformed.expected what).toError r'.cursor.pos), r')

def name (r : Reader) : String × Reader :=
  let (cs, c) := r.cursor.name
  (String.ofList cs, { r with cursor := c })

def number (r : Reader) : String × Reader :=
  let (cs, c) := r.cursor.number
  (String.ofList cs, { r with cursor := c })

def quoted (r : Reader) : Except ProgramError String × Reader :=
  match r.cursor.quoted with
  | some (cs, c) => (.ok (String.ofList cs), { r with cursor := c })
  | none =>
    (.error (Malformed.unterminatedText.toError r.cursor.pos),
      { r with cursor := r.cursor.advance 1 })

end Reader

end GraphicsBatch.Source
