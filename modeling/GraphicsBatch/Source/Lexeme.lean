import GraphicsBatch.Source.Cursor

/-! # Lexemes

A source text is cut into words, numerals, quoted texts, line ends and single marks. Each lexeme
keeps its place and whether it is attached to the lexeme before it, which matters for the colon of
a label and for the second character of a comparison sign.
-/

namespace GraphicsBatch.Source

inductive Token where
  | word (name : String)
  | numeral (digits : List Char)
  | text (contents : String)
  | lineEnd
  | mark (c : Char)
  /-- A quote that has no partner on its line. -/
  | openText
  /-- The brace of a comment that is never closed; nothing comes after it. -/
  | openComment
deriving DecidableEq, Inhabited

structure Lexeme where
  token : Token
  pos : Position
  attached : Bool
deriving DecidableEq, Inhabited

/-- The lexemes that are left, and the place where the text ends. -/
structure Lexemes where
  items : List Lexeme
  finish : Position
deriving Inhabited

/-- The character a lexeme starts with. -/
def Token.first : Token → Char
  | .word name => name.toList.headD '_'
  | .numeral digits => digits.headD '0'
  | .text _ | .openText => '"'
  | .lineEnd => '\n'
  | .mark c => c
  | .openComment => '{'

/-! ## Cutting -/

namespace Cursor

/-- The token that starts with the character `d`, which is no blank and opens no comment, and the
cursor behind it. -/
def token (c : Cursor) (d : Char) : Token × Cursor :=
  if d = '\n' then (.lineEnd, c.advance 1)
  else if isNameStart d then
    let (name, rest) := c.span isNameChar
    (.word (String.ofList name), rest)
  else if isDigit d then
    let (digits, rest) := c.number
    (.numeral digits, rest)
  else if d = '"' then
    match c.quoted with
    | some (body, rest) => (.text (String.ofList body), rest)
    | none => (.openText, c.advance 1)
  else (.mark d, c.advance 1)

theorem length_span_le (c : Cursor) (p : Char → Bool) :
    (c.span p).2.rest.length ≤ c.rest.length := by
  simpa [span] using (List.dropWhile_suffix p).length_le

theorem length_span_lt {c : Cursor} {d : Char} {ds : List Char} (p : Char → Bool)
    (h : c.rest = d :: ds) (hd : p d = true) : (c.span p).2.rest.length < c.rest.length := by
  have := (List.dropWhile_suffix p (l := ds)).length_le
  simp [span, h, hd]
  omega

theorem length_advance_lt {c : Cursor} {d : Char} {ds : List Char} (h : c.rest = d :: ds) :
    (c.advance 1).rest.length < c.rest.length := by
  simp [advance, h]

theorem length_quoted_lt {c e : Cursor} {d : Char} {ds body : List Char} (h : c.rest = d :: ds)
    (hq : c.quoted = some (body, e)) : e.rest.length < c.rest.length := by
  have h1 := length_advance_lt h
  have h2 := length_span_le (c.advance 1) fun x => x != '"' && x != '\n'
  simp only [quoted] at hq
  split at hq
  · rename_i hr
    simp only [Option.some.injEq, Prod.mk.injEq] at hq
    have h3 := length_advance_lt hr
    rw [hq.2] at h3
    omega
  · simp at hq

theorem length_token_lt {c : Cursor} {d : Char} {ds : List Char} (h : c.rest = d :: ds) :
    (c.token d).2.rest.length < c.rest.length := by
  unfold token
  split
  · exact length_advance_lt h
  split
  · rename_i hd
    exact length_span_lt _ h (by simp [isNameChar, hd])
  split
  · rename_i hd
    exact length_span_lt _ h hd
  split
  · cases hq : c.quoted with
    | some r => exact length_quoted_lt h hq
    | none => exact length_advance_lt h
  · exact length_advance_lt h

theorem length_skipFrom_le (newlines : Bool) (opened : Option Cursor) (p : Position)
    (cs : List Char) (c : Cursor) (h : skipFrom newlines opened p cs = .ok c) :
    c.rest.length ≤ cs.length := by
  fun_induction skipFrom newlines opened p cs with
  | case1 => cases h; simp
  | case2 => cases h
  | case3 _ _ _ _ ih => exact Nat.le_succ_of_le (ih h)
  | case4 _ _ ih => exact Nat.le_succ_of_le (ih h)
  | case5 _ _ _ _ _ ih => exact Nat.le_succ_of_le (ih h)
  | case6 => cases h; simp

theorem length_skipBlank_le {c d : Cursor} {newlines : Bool} (h : c.skipBlank newlines = .ok d) :
    d.rest.length ≤ c.rest.length :=
  length_skipFrom_le newlines none c.pos c.rest d h

/-- All lexemes from a cursor on. -/
def lexemes (c : Cursor) : Lexemes :=
  match _h : c.skipBlank false with
  | .error brace => ⟨[⟨.openComment, brace.pos, false⟩], brace.pos⟩
  | .ok c' =>
    match _hr : c'.rest with
    | [] => ⟨[], c'.pos⟩
    | d :: _ =>
      let next := c'.token d
      let later := lexemes next.2
      ⟨⟨next.1, c'.pos, c'.pos = c.pos⟩ :: later.items, later.finish⟩
termination_by c.rest.length
decreasing_by
  have h1 := length_skipBlank_le _h
  have h2 := length_token_lt _hr
  omega

end Cursor

/-- The lexemes of a source text. -/
def Lexemes.ofText (text : List Char) : Lexemes :=
  (Cursor.ofText (normalize text)).lexemes

end GraphicsBatch.Source
