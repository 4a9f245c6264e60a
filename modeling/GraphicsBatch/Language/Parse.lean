import GraphicsBatch.Language.Signature
import GraphicsBatch.Source.Lexeme

/-! # Reading programs

Statements are read from the lexemes of a source text, line by line. A line end closes a group,
except inside an argument list. When all is read, every label that is used must be defined.
-/

namespace GraphicsBatch.Parse

open Source

/-- A reader takes lexemes from the front of what is left. -/
abbrev Reads := StateT Lexemes (Except ParseFault)

/-! ## Lexemes at hand -/

/-- The place of the next lexeme, or of the end of the text. -/
def place (s : Lexemes) : Position :=
  match s.items with
  | l :: _ => l.pos
  | [] => s.finish

def here : Reads Position := fun s => .ok (place s, s)

/-- The next lexeme. A comment that is never closed shows here. -/
def peek : Reads (Option Lexeme) := fun s =>
  match s.items with
  | l :: _ =>
    if l.token = .openComment then .error (.malformed .unterminatedComment l.pos)
    else .ok (some l, s)
  | [] => .ok (none, s)

def drop : Reads Unit := fun s => .ok ((), { s with items := s.items.tail })

def failAt {α : Type} (cause : Malformed) (pos : Position) : Reads α :=
  fun _ => .error (.malformed cause pos)

def expected {α : Type} (what : String) : Reads α :=
  fun s => .error (.malformed (.expected what) (place s))

/-- Takes a mark that is attached to the lexeme before it. -/
def attached (c : Char) : Reads Bool := fun s =>
  match s.items with
  | l :: rest =>
    if l.attached && l.token = .mark c then .ok (true, { s with items := rest }) else .ok (false, s)
  | [] => .ok (false, s)

/-- Takes a mark, or fails naming it. -/
def mark (c : Char) : Reads Unit := do
  match ← peek with
  | some l => if l.token = .mark c then drop else expected ("'" ++ c.toString ++ "'")
  | none => expected ("'" ++ c.toString ++ "'")

/-! ## Operands -/

/-- Integer literals go up to the largest signed 64-bit number. -/
def maxLiteral : Nat := 9223372036854775807

def literal (digits : List Char) (pos : Position) : Except ParseFault Nat :=
  let n := Text.ofDigits (digits.map fun c => c.toNat - '0'.toNat)
  if Text.digitLimit < digits.length then .error (.longNumeral digits.length)
  else if maxLiteral < n then .error (.malformed (.integerTooLarge (String.ofList digits)) pos)
  else .ok n

theorem literal_le {digits : List Char} {pos : Position} {n : Nat}
    (h : literal digits pos = .ok n) : n ≤ maxLiteral := by
  unfold literal at h
  dsimp only at h
  split at h
  · cases h
  · split at h
    · cases h
    · cases h
      omega

theorem length_le_of_le_maxLiteral {n : Nat} (h : n ≤ maxLiteral) :
    (toString n).length ≤ Text.digitLimit := by
  have hlength : (toString n).length ≤ 19 :=
    (Nat.length_repr_le_iff (by decide)).mpr (Nat.lt_of_le_of_lt h (by decide))
  exact Nat.le_trans hlength (by decide)

/-- A name that is not reserved. -/
def plainName (what : String) : Reads (String × Position) := do
  match ← peek with
  | some ⟨.word name, pos, _⟩ =>
    if isReserved name then failAt (.expected what) pos
    else
      drop
      return (name, pos)
  | _ => expected what

def operand : Reads Operand := do
  match ← peek with
  | some ⟨.numeral digits, pos, _⟩ =>
    drop
    let n ← literal digits pos
    return .literal n
  | _ =>
    let (name, _) ← plainName "integer or variable"
    return .var name

/-- The target of a jump, with its place. A colon may follow. -/
def labelName : Reads (String × Position) := do
  let found ← plainName "label"
  let _ ← attached ':'
  return found

/-- Takes a comparison sign, the longest that stands there. -/
def comparison : Reads Comparison := do
  let what := "comparison operator"
  match ← peek with
  | some ⟨.mark '=', _, _⟩ =>
    drop
    return .eq
  | some ⟨.mark '<', _, _⟩ =>
    drop
    if ← attached '=' then return .le
    else if ← attached '>' then return .ne
    else return .lt
  | some ⟨.mark '>', _, _⟩ =>
    drop
    if ← attached '=' then return .ge
    else return .gt
  | _ => expected what

/-- Takes an arithmetic operator, if one follows. -/
def operator : Reads (Option Operator) := do
  match ← peek with
  | some ⟨.mark c, _, _⟩ =>
    match Operator.ofSign? c with
    | some op =>
      drop
      return some op
    | none => return none
  | _ => return none

/-! ## Argument lists -/

/-- What an argument list may go on with. -/
inductive Want where
  /-- The first argument or the end. -/
  | first
  | argument
  /-- A comma or the end. -/
  | separator
deriving DecidableEq, Inhabited

def Want.describe : Want → String
  | .separator => "',' or ')'"
  | _ => "argument"

/-- An argument that is a single lexeme. -/
def argument (l : Lexeme) : Except ParseFault RawArg :=
  match l.token with
  | .text s => .ok ⟨.text s, l.pos⟩
  | .numeral digits =>
    match h : literal digits l.pos with
    | .ok n => .ok ⟨.integer (.ofNat n (length_le_of_le_maxLiteral (literal_le h))), l.pos⟩
    | .error f => .error f
  | .word name => .ok ⟨.name name, l.pos⟩
  | .openText => .error (.malformed .unterminatedText l.pos)
  | .openComment => .error (.malformed .unterminatedComment l.pos)
  | .lineEnd | .mark _ => .error (.malformed (.expected "argument") l.pos)

section

variable {digits : List Char} {pos : Position} {attached : Bool}

theorem argument_of_literal {n : Nat} (h : literal digits pos = .ok n) :
    argument ⟨.numeral digits, pos, attached⟩ =
      .ok ⟨.integer (.ofNat n (length_le_of_le_maxLiteral (literal_le h))), pos⟩ := by
  unfold argument
  dsimp only
  split
  · rename_i n' h'
    cases h.symm.trans h'
    rfl
  · rename_i f h'
    cases h.symm.trans h'

theorem argument_of_literal_error {f : ParseFault} (h : literal digits pos = .error f) :
    argument ⟨.numeral digits, pos, attached⟩ = .error f := by
  unfold argument
  dsimp only
  split
  · rename_i n h'
    cases h.symm.trans h'
  · rename_i f' h'
    cases h.symm.trans h'
    rfl

end

/-- Reads arguments up to the closing parenthesis; line ends do not matter. Gives the arguments, the
place where the list ends, and the lexemes behind it. An empty list ends behind its parenthesis. -/
def arguments (finish : Position) :
    Want → List Lexeme → Except ParseFault (List RawArg × Position × List Lexeme)
  | want, [] => .error (.malformed (.expected want.describe) finish)
  | want, l :: rest =>
    if l.token = .lineEnd then arguments finish want rest
    else match want with
      | .separator =>
        match l.token with
        | .mark ',' => arguments finish .argument rest
        | .mark ')' => .ok ([], l.pos, rest)
        | .openComment => .error (.malformed .unterminatedComment l.pos)
        | _ => .error (.malformed (.expected "',' or ')'") l.pos)
      | _ =>
        -- A parenthesis right behind a comma closes nothing.
        if want = .first && l.token = .mark ')' then .ok ([], l.pos.after ')', rest)
        else do
          let arg ← argument l
          let (args, endPos, after) ← arguments finish .separator rest
          return (arg :: args, endPos, after)

def argumentList : Reads (List RawArg × Position) := fun s =>
  match arguments s.finish .first s.items with
  | .ok (args, endPos, rest) => .ok ((args, endPos), { s with items := rest })
  | .error e => .error e

/-! ## Statements -/

/-- A use of a label, with the place that is blamed if it is not defined. -/
abbrev Reference := String × Position

/-- The labels that some arguments refer to. -/
def references (args : List Argument) (pos : Position) : List Reference :=
  args.filterMap fun a =>
    match a.value with
    | .label name => some (name, pos)
    | _ => none

/-- What follows the word `If`. The place where a failed condition goes is set once the line is
complete. -/
def condition : Reads Action := do
  let lhs ← operand
  let op ← comparison
  let rhs ← operand
  match ← peek with
  | some ⟨.word name, pos, _⟩ =>
    if Text.upper name = Text.upper Keyword.andThen.spelling then drop
    else failAt (.expected Keyword.andThen.spelling) pos
  | _ => expected Keyword.andThen.spelling
  return .cond lhs op rhs 0

/-- What follows the word `Set`. -/
def assignment : Reads Action := do
  let (var, _) ← plainName "variable"
  mark '='
  let first ← operand
  match ← operator with
  | some op =>
    let second ← operand
    return .assign var ⟨first, some (op, second)⟩
  | none => return .assign var ⟨first, none⟩

/-- What follows the name of a command, which stands at `pos`. -/
def call (c : Command) (pos : Position) : Reads (Action × List Reference) := do
  mark '('
  let (args, endPos) ← argumentList
  match c.checkArguments args endPos with
  | .ok args => return (.call c args, references args pos)
  | .error (cause, pos) => failAt cause pos

/-- What follows a keyword, which was spelled `name` and stands at `pos`. -/
def statement (k : Keyword) (name : String) (pos : Position) : Reads (Action × List Reference) := do
  match k with
  | .goto =>
    let target ← labelName
    return (.goto target.1, [target])
  | .gosub =>
    let target ← labelName
    return (.gosub target.1, [target])
  | .back => return (.back, [])
  | .finish => return (.finish, [])
  | .cond => return (← condition, [])
  | .assign => return (← assignment, [])
  | .andThen => failAt (.unexpected name) pos
  | .command c => if c.isPlain then return (.plain c, []) else call c pos

/-! ## Programs -/

/-- What has been read so far, latest first. -/
structure Draft where
  lines : List (List Statement) := []
  line : List Statement := []
  /-- Upper-case names of the labels that are defined. -/
  labels : List String := []
  references : List Reference := []
deriving Inhabited

namespace Draft

def push (d : Draft) (action : Action) (pos : Position) : Draft :=
  { d with line := ⟨action, pos⟩ :: d.line }

def endLine (d : Draft) : Draft :=
  { d with lines := d.line.reverse :: d.lines, line := [] }

/-- Defines a label. In pedantic programs a label stands at the start of its line. -/
def addLabel (d : Draft) (pedantic : Bool) (name : String) (pos : Position) :
    Except ParseFault Draft :=
  let key := Text.upper name
  if isReserved name then .error (.malformed (.reservedLabel name) pos)
  else if pedantic && pos.col != 1 then .error (.malformed (.labelNotAtLineStart name) pos)
  else if d.labels.contains key then .error (.malformed (.duplicateLabel name) pos)
  else .ok { d.push (.label name) pos with labels := key :: d.labels }

/-- The finished program, if every label that is used is defined. -/
def close (d : Draft) : Except ParseFault Program :=
  match d.references.reverse.find? fun r => !d.labels.contains (Text.upper r.1) with
  | some (name, pos) => .error (.undefinedLabel name pos)
  | none => .ok (.ofLines d.lines.reverse)

end Draft

/-- What follows a word that starts a command or a label and stands at `pos`. -/
def afterWord (pedantic : Bool) (d : Draft) (name : String) (pos : Position) : Reads Draft := do
  if ← attached ':' then d.addLabel pedantic name pos
  else match Keyword.ofName? name with
    | none => failAt (.unknownCommand name) pos
    | some k =>
      let (action, refs) ← statement k name pos
      return { d.push action pos with references := refs.reverse ++ d.references }

/-! ### Every command takes at least one lexeme -/

/-- A reader never gives back more lexemes than it was given. -/
def Shrinks {α : Type} (r : Reads α) : Prop :=
  ∀ s a s', r s = .ok (a, s') → s'.items.length ≤ s.items.length

namespace Shrinks

variable {α β : Type}

theorem pure (a : α) : Shrinks (Pure.pure a : Reads α) := by
  intro s b s' h
  cases h
  exact Nat.le_refl _

theorem bind {r : Reads α} {f : α → Reads β} (hr : Shrinks r) (hf : ∀ a, Shrinks (f a)) :
    Shrinks (r >>= f) := by
  intro s b s' h
  cases hs : r s with
  | error e => simp [Bind.bind, StateT.bind, Except.bind, hs] at h
  | ok p =>
    simp only [Bind.bind, StateT.bind, Except.bind, hs] at h
    exact Nat.le_trans (hf _ _ _ _ h) (hr _ _ _ hs)

theorem lift (e : Except ParseFault α) : Shrinks (monadLift e : Reads α) := by
  intro s a s' h
  cases e with
  | error e => cases h
  | ok v =>
    cases h
    exact Nat.le_refl _

theorem failAt (cause : Malformed) (pos : Position) : Shrinks (Parse.failAt cause pos : Reads α) := by
  intro s a s' h
  cases h

theorem expected (what : String) : Shrinks (Parse.expected what : Reads α) := by
  intro s a s' h
  cases h

theorem peek : Shrinks Parse.peek := by
  intro s a s' h
  unfold Parse.peek at h
  split at h
  · split at h
    · cases h
    · cases h
      exact Nat.le_refl _
  · cases h
    exact Nat.le_refl _

theorem drop : Shrinks Parse.drop := by
  intro s a s' h
  cases h
  simp

theorem attached (c : Char) : Shrinks (Parse.attached c) := by
  intro s a s' h
  unfold Parse.attached at h
  split at h
  · rename_i hs
    split at h
    · cases h
      simp [hs]
    · cases h
      exact Nat.le_refl _
  · cases h
    exact Nat.le_refl _

theorem mark (c : Char) : Shrinks (Parse.mark c) := by
  refine bind peek fun o => ?_
  split
  · split
    · exact drop
    · exact expected _
  · exact expected _

theorem plainName (what : String) : Shrinks (Parse.plainName what) := by
  refine bind peek fun o => ?_
  split
  · split
    · exact failAt _ _
    · exact bind drop fun _ => pure _
  · exact expected _

theorem operand : Shrinks Parse.operand := by
  refine bind peek fun o => ?_
  split
  · exact bind drop fun _ => bind (lift _) fun _ => pure _
  · exact bind (plainName _) fun _ => pure _

theorem labelName : Shrinks Parse.labelName :=
  bind (plainName _) fun _ => bind (attached _) fun _ => pure _

theorem comparison : Shrinks Parse.comparison := by
  refine bind peek fun o => ?_
  split
  · exact bind drop fun _ => pure _
  · refine bind drop fun _ => bind (attached _) fun b => ?_
    split
    · exact pure _
    · refine bind (attached _) fun b => ?_
      split <;> exact pure _
  · refine bind drop fun _ => bind (attached _) fun b => ?_
    split <;> exact pure _
  · exact expected _

theorem operator : Shrinks Parse.operator := by
  refine bind peek fun o => ?_
  split
  · split
    · exact bind drop fun _ => pure _
    · exact pure _
  · exact pure _

end Shrinks

theorem length_arguments_le {finish : Position} {want : Want} {ls rest : List Lexeme}
    {args : List RawArg} {endPos : Position}
    (h : arguments finish want ls = .ok (args, endPos, rest)) : rest.length ≤ ls.length := by
  induction ls generalizing want args endPos with
  | nil => simp [arguments] at h
  | cons l ls ih =>
    rw [List.length_cons]
    unfold arguments at h
    split at h
    · exact Nat.le_succ_of_le (ih h)
    · split at h
      · split at h
        · exact Nat.le_succ_of_le (ih h)
        · cases h
          exact Nat.le_succ _
        · cases h
        · cases h
      · split at h
        · cases h
          exact Nat.le_succ _
        · cases ha : argument l with
          | error e => simp [ha, Bind.bind, Except.bind] at h
          | ok arg =>
            cases hr : arguments finish .separator ls with
            | error e => simp [ha, hr, Bind.bind, Except.bind] at h
            | ok p =>
              obtain ⟨as, q, r⟩ := p
              simp only [ha, hr, Bind.bind, Except.bind, Pure.pure, Except.pure,
                Except.ok.injEq, Prod.mk.injEq] at h
              obtain ⟨-, -, rfl⟩ := h
              exact Nat.le_succ_of_le (ih hr)

namespace Shrinks

theorem argumentList : Shrinks Parse.argumentList := by
  intro s a s' h
  unfold Parse.argumentList at h
  split at h
  · rename_i ha
    cases h
    exact length_arguments_le ha
  · cases h

theorem condition : Shrinks Parse.condition := by
  refine bind operand fun _ => bind comparison fun _ => bind operand fun _ => bind peek fun o => ?_
  split
  · split
    · exact bind drop fun _ => pure _
    · exact bind (failAt _ _) fun _ => pure _
  · exact bind (expected _) fun _ => pure _

theorem assignment : Shrinks Parse.assignment := by
  refine bind (plainName _) fun _ => bind (mark _) fun _ => bind operand fun _ =>
    bind operator fun o => ?_
  split
  · exact bind operand fun _ => pure _
  · exact pure _

theorem call (c : Command) (pos : Position) : Shrinks (Parse.call c pos) := by
  refine bind (mark _) fun _ => bind argumentList fun r => ?_
  obtain ⟨args, endPos⟩ := r
  dsimp only
  split
  · exact pure _
  · exact failAt _ _

theorem statement (k : Keyword) (name : String) (pos : Position) :
    Shrinks (Parse.statement k name pos) := by
  cases k with
  | goto => exact bind labelName fun _ => pure _
  | gosub => exact bind labelName fun _ => pure _
  | back => exact pure _
  | finish => exact pure _
  | cond => exact bind condition fun _ => pure _
  | assign => exact bind assignment fun _ => pure _
  | andThen => exact failAt _ _
  | command c =>
    unfold Parse.statement
    dsimp only
    split
    · exact pure _
    · exact call _ _

theorem afterWord (pedantic : Bool) (d : Draft) (name : String) (pos : Position) :
    Shrinks (Parse.afterWord pedantic d name pos) := by
  refine bind (attached _) fun b => ?_
  split
  · exact lift _
  · split
    · exact failAt _ _
    · exact bind (statement _ _ _) fun _ => pure _

end Shrinks

/-! ### Reading all commands -/

/-- Reads commands and line ends until nothing is left. -/
def commands (pedantic : Bool) (d : Draft) (s : Lexemes) : Except ParseFault Draft :=
  match s with
  | ⟨[], _⟩ => .ok d.endLine
  | ⟨l :: items, finish⟩ =>
    let rest : Lexemes := ⟨items, finish⟩
    match l.token with
    | .lineEnd => commands pedantic d.endLine rest
    | .openComment => .error (.malformed .unterminatedComment l.pos)
    | .word name =>
      match _h : afterWord pedantic d name l.pos rest with
      | .ok (d', rest') => commands pedantic d' rest'
      | .error e => .error e
    | t => .error (.malformed (.unexpected t.first.toString) l.pos)
termination_by s.items.length
decreasing_by
  · simp
  · have := Shrinks.afterWord pedantic d name l.pos _ _ _ _h
    exact Nat.lt_succ_of_le this

end Parse

/-- Reads a program. In pedantic programs labels stand at the start of a line. -/
def Program.parse (source : String) (pedantic : Bool) : Except ParseFault Program := do
  let draft ← Parse.commands pedantic {} (Source.Lexemes.ofText source.toList)
  draft.close

end GraphicsBatch
