/-! # White space -/

namespace GraphicsBatch.Text

/-- White space in the sense of Unicode, with the four separator controls of ASCII. -/
def isSpace (c : Char) : Bool :=
  let n := c.toNat
  (9 ≤ n && n ≤ 13) || (28 ≤ n && n ≤ 32) || n = 0x85 || n = 0xa0 || n = 0x1680 ||
    (0x2000 ≤ n && n ≤ 0x200a) || n = 0x2028 || n = 0x2029 || n = 0x202f || n = 0x205f || n = 0x3000

def trimLeft (p : Char → Bool) (cs : List Char) : List Char := cs.dropWhile p

def trimRight (p : Char → Bool) (cs : List Char) : List Char := (cs.reverse.dropWhile p).reverse

/-- Drops white space at both ends. -/
def strip (s : String) : String := String.ofList (trimRight isSpace (trimLeft isSpace s.toList))

def stripRight (s : String) : String := String.ofList (trimRight isSpace s.toList)

end GraphicsBatch.Text
