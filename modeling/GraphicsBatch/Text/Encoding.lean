/-! # Bytes as text -/

namespace GraphicsBatch.Text

def isContinuation (b : UInt8) (low high : UInt8) : Bool := low ≤ b && b ≤ high

/-- The character that some UTF-8 bytes stand for: the free bits of the first byte, then six bits
of each later byte. -/
def joinBits (first : Nat) (later : List UInt8) : Char :=
  Char.ofNat (later.foldl (fun n b => n * 64 + b.toNat % 64) first)

/-- The range of the second byte of a sequence of three or four bytes, which rules out long forms,
surrogates and places past the last one. -/
def secondByte (b : UInt8) : UInt8 × UInt8 :=
  if b = 0xe0 then (0xa0, 0xbf)
  else if b = 0xed then (0x80, 0x9f)
  else if b = 0xf0 then (0x90, 0xbf)
  else if b = 0xf4 then (0x80, 0x8f)
  else (0x80, 0xbf)

/-- One character of UTF-8, or `none` for a sequence that is cut short, and the number of bytes
after the first that belong to it. -/
def decodeOne (b : UInt8) (bs : List UInt8) : Option Char × Nat :=
  let n := b.toNat
  let (low, high) := secondByte b
  if n < 0x80 then (some (Char.ofNat n), 0)
  -- A continuation byte starts nothing, and the others start a long form or a place past the last one.
  else if n < 0xc2 || 0xf4 < n then (none, 0)
  else if n < 0xe0 then
    match bs with
    | c :: _ => if isContinuation c 0x80 0xbf then (some (joinBits (n - 0xc0) [c]), 1) else (none, 0)
    | [] => (none, 0)
  else
    match bs with
    | [] => (none, 0)
    | c :: cs =>
      if !isContinuation c low high then (none, 0)
      else match cs with
        | [] => (none, 1)
        | d :: ds =>
          if !isContinuation d 0x80 0xbf then (none, 1)
          else if n < 0xf0 then (some (joinBits (n - 0xe0) [c, d]), 2)
          else match ds with
            | [] => (none, 2)
            | e :: _ =>
              if !isContinuation e 0x80 0xbf then (none, 2)
              else (some (joinBits (n - 0xf0) [c, d, e]), 3)

/-- Decodes UTF-8; `none` stands for a sequence that is not valid. -/
def decodeUtf8 : (skip : Nat) → List UInt8 → List (Option Char)
  | _, [] => []
  | skip + 1, _ :: bs => decodeUtf8 skip bs
  | 0, b :: bs =>
    let (c, later) := decodeOne b bs
    c :: decodeUtf8 later bs

/-- The text of some bytes in UTF-8, if they are valid. -/
def ofUtf8? (bytes : List UInt8) : Option String :=
  ((decodeUtf8 0 bytes).mapM id).map String.ofList

/-- The text of some bytes in UTF-8, with a replacement character for each invalid sequence. -/
def ofUtf8Lossy (bytes : List UInt8) : String :=
  String.ofList ((decodeUtf8 0 bytes).map fun c => c.getD '\ufffd')

/-- The text of some bytes in Latin-1, where each byte is one character. -/
def ofLatin1 (bytes : List UInt8) : String :=
  String.ofList (bytes.map fun b => Char.ofNat b.toNat)

/-- Line ends become line feeds, whether they were written as CR, CRLF or LF. -/
def unifyLineEnds : List Char → List Char
  | '\r' :: '\n' :: cs => '\n' :: unifyLineEnds cs
  | '\r' :: cs => '\n' :: unifyLineEnds cs
  | c :: cs => c :: unifyLineEnds cs
  | [] => []

/-- Drops a byte order mark at the start of a text. -/
def dropByteOrderMark : List Char → List Char
  | '\ufeff' :: cs => cs
  | cs => cs

end GraphicsBatch.Text
