/-! # Lines and columns -/

namespace GraphicsBatch

/-- A place in a text. Lines and columns count from 1. -/
structure Position where
  line : Int
  col : Int
deriving DecidableEq, Inhabited

/-- How many characters of a text of some length come before an offset. Below 0 offsets count from the
end of the text. -/
def countBefore (length : Nat) (offset : Int) : Nat :=
  if offset < 0 then (offset + length).toNat else min offset.toNat length

namespace Position

def start : Position := ⟨1, 1⟩

/-- The place behind a character that stands at `p`. -/
def after (p : Position) (c : Char) : Position :=
  if c = '\n' then ⟨p.line + 1, 1⟩ else ⟨p.line, p.col + 1⟩

/-- The place behind a run of characters that starts at `p`. -/
def afterAll (p : Position) (cs : List Char) : Position :=
  cs.foldl after p

/-- The place of an offset in a text. Columns go on past the end of the last line, and for offsets
below 0 they are what is missing to the place counted from the end. -/
def ofOffset (text : List Char) (offset : Int) : Position :=
  let count := countBefore text.length offset
  let p := start.afterAll (text.take count)
  ⟨p.line, p.col + (offset - count)⟩

@[simp] theorem afterAll_nil (p : Position) : p.afterAll [] = p := rfl

@[simp] theorem afterAll_cons (p : Position) (c : Char) (cs : List Char) :
    p.afterAll (c :: cs) = (p.after c).afterAll cs := rfl

theorem afterAll_append (p : Position) (cs ds : List Char) :
    p.afterAll (cs ++ ds) = (p.afterAll cs).afterAll ds := by
  simp [afterAll]

/-- `line:col`, as messages write it. -/
def render (p : Position) : String :=
  toString p.line ++ ":" ++ toString p.col

end Position

end GraphicsBatch
