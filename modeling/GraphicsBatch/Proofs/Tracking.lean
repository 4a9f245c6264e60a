import GraphicsBatch.Proofs.Alike
import GraphicsBatch.Proofs.Scan

/-!
# Sources that are read alike

A reader that is put on two rows of lexemes that are alike gives results that are alike. The second row may go on
behind a line end: the end of a text and the end of a line stop a statement in the same way. No reader passes over a
comment that is never closed.
-/

namespace GraphicsBatch

open Source

/-! ## One command at a time -/

namespace Parse

/-- What `commands` does with the next lexeme. -/
def command (pedantic : Bool) (d : Draft) (l : Lexeme) : Reads Draft :=
  match l.token with
  | .lineEnd => pure d.endLine
  | .openComment => failAt .unterminatedComment l.pos
  | .word name => afterWord pedantic d name l.pos
  | t => failAt (.unexpected t.first.toString) l.pos

theorem commands_cons {pedantic : Bool} {d : Draft} {l : Lexeme} {s : Lexemes} :
    commands pedantic d (.cons l s) = command pedantic d l s >>= fun r => commands pedantic r.1 r.2 := by
  unfold Lexemes.cons
  rw [commands]
  obtain ⟨token, pos, att⟩ := l
  cases token with
  | word name =>
    dsimp only [command]
    split
    · rename_i h
      rw [h]
      rfl
    · rename_i h
      rw [h]
      rfl
  | _ => rfl

theorem Shrinks.command (pedantic : Bool) (d : Draft) (l : Lexeme) : Shrinks (Parse.command pedantic d l) := by
  unfold Parse.command
  split
  · exact pure _
  · exact failAt _ _
  · exact afterWord _ _ _ _
  · exact failAt _ _

/-- What holds at the end of the text and is carried back over each command holds of every successful reading. -/
theorem commands_induction {pedantic : Bool} {motive : Draft → Lexemes → Draft → Prop}
    (nil : ∀ d finish, motive d ⟨[], finish⟩ d.endLine)
    (cons : ∀ d l s e t r, command pedantic d l s = .ok (e, t) → commands pedantic e t = .ok r → motive e t r →
      motive d (.cons l s) r)
    {d r : Draft} {s : Lexemes} (h : commands pedantic d s = .ok r) : motive d s r := by
  induction hn : s.items.length using Nat.strong_induction_on generalizing d s with
  | _ n ih =>
    obtain ⟨items, finish⟩ := s
    cases items with
    | nil =>
      rw [commands] at h
      cases h
      exact nil d finish
    | cons l items =>
      have hcons : commands pedantic d (.cons l ⟨items, finish⟩) = .ok r := h
      rw [commands_cons] at hcons
      obtain ⟨⟨e, t⟩, hstep, hrest⟩ := Except.bind_eq_ok.mp hcons
      have hle := Shrinks.command pedantic d l ⟨items, finish⟩ e t hstep
      have hlt : t.items.length < n := by
        simp only [List.length_cons] at hn hle
        omega
      exact cons d l ⟨items, finish⟩ e t r hstep hrest (ih t.items.length hlt hrest rfl)

end Parse

/-- No comment is left open. -/
def Source.Lexemes.Closed (s : Lexemes) : Prop := ∀ l ∈ s.items, l.token ≠ .openComment

theorem Source.Lexemes.Closed.cons {l : Lexeme} {s : Lexemes} (hl : l.token ≠ .openComment) (hs : s.Closed) :
    (Lexemes.cons l s).Closed :=
  List.forall_mem_cons.mpr ⟨hl, hs⟩

namespace Likeness

variable (lk : Likeness)

/-! ## Lexemes, statements and drafts -/

inductive TokenLike : Token → Token → Prop where
  | word {a b : String} : lk.word a b → TokenLike (.word a) (.word b)
  | numeral (digits : List Char) : TokenLike (.numeral digits) (.numeral digits)
  | text (s : String) : TokenLike (.text s) (.text s)
  | lineEnd : TokenLike .lineEnd .lineEnd
  | mark (c : Char) : TokenLike (.mark c) (.mark c)
  | openText : TokenLike .openText .openText
  | openComment : TokenLike .openComment .openComment

structure LexemeLike (l l' : Lexeme) : Prop where
  token : lk.TokenLike l.token l'.token
  pos : lk.place l.pos l'.pos
  attached : l.attached = l'.attached

/-- Lexemes that are alike, and more behind the second ones. The ends of both rows only correspond if there is no
more. -/
structure Ahead (more s s' : Lexemes) : Prop where
  items : ∃ front, List.Forall₂ lk.LexemeLike s.items front ∧ s'.items = front ++ more.items
  finish_eq : s'.finish = more.finish
  finish : more.items = [] → lk.place s.finish s'.finish

inductive OperandLike : Operand → Operand → Prop where
  | literal (n : Nat) : OperandLike (.literal n) (.literal n)
  | var {a b : String} : lk.word a b → OperandLike (.var a) (.var b)

inductive ExprLike : Expr → Expr → Prop where
  | one {x y : Operand} : lk.OperandLike x y → ExprLike ⟨x, none⟩ ⟨y, none⟩
  | two {x x' y y' : Operand} (op : Operator) : lk.OperandLike x y → lk.OperandLike x' y' →
      ExprLike ⟨x, some (op, x')⟩ ⟨y, some (op, y')⟩

inductive ActionLike : Action → Action → Prop where
  | label {a b : String} : lk.word a b → ActionLike (.label a) (.label b)
  | call (c : Command) {xs ys : List Argument} : List.Forall₂ lk.ArgumentLike xs ys →
      ActionLike (.call c xs) (.call c ys)
  | plain (c : Command) : ActionLike (.plain c) (.plain c)
  | goto {a b : String} : lk.word a b → ActionLike (.goto a) (.goto b)
  | gosub {a b : String} : lk.word a b → ActionLike (.gosub a) (.gosub b)
  | back : ActionLike .back .back
  | finish : ActionLike .finish .finish
  | cond {x x' y y' : Operand} (op : Comparison) (t : Nat) : lk.OperandLike x y → lk.OperandLike x' y' →
      ActionLike (.cond x op x' t) (.cond y op y' t)
  | assign {a b : String} {x y : Expr} : lk.word a b → lk.ExprLike x y → ActionLike (.assign a x) (.assign b y)

structure StatementLike (x y : Statement) : Prop where
  action : lk.ActionLike x.action y.action
  pos : lk.place x.pos y.pos

def NamedLike (x y : String × Position) : Prop := lk.word x.1 y.1 ∧ lk.place x.2 y.2

/-- A statement with the labels it refers to. -/
def StatedLike (x y : Action × List Parse.Reference) : Prop :=
  lk.ActionLike x.1 y.1 ∧ List.Forall₂ lk.NamedLike x.2 y.2

structure DraftLike (d d' : Parse.Draft) : Prop where
  lines : List.Forall₂ (List.Forall₂ lk.StatementLike) d.lines d'.lines
  line : List.Forall₂ lk.StatementLike d.line d'.line
  labels : d.labels = d'.labels
  references : List.Forall₂ lk.NamedLike d.references d'.references

/-- Faults of one kind at places that correspond. -/
def FaultLike : ParseFault → ParseFault → Prop
  | .malformed _ p, .malformed _ q => lk.place p q
  | .undefinedLabel _ p, .undefinedLabel _ q => lk.place p q
  | .longNumeral n, .longNumeral m => n = m
  | _, _ => False

variable {lk} {more s s' t t' : Lexemes} {l l' : Lexeme}

theorem ActionLike.eq (hword : ∀ a b, lk.word a b → a = b) {x y : Action} (h : lk.ActionLike x y) : x = y := by
  have hoperand : ∀ {x y : Operand}, lk.OperandLike x y → x = y := by
    intro x y h
    cases h with
    | literal n => rfl
    | var hab => rw [hword _ _ hab]
  have hargument : ∀ {x y : Argument}, lk.ArgumentLike x y → x = y := by
    rintro ⟨kind, value⟩ ⟨kind', value'⟩ ⟨hkind, hvalue⟩
    cases hkind
    cases hvalue with
    | var hab | label hab => rw [hword _ _ hab]
    | _ => rfl
  cases h with
  | label hab | goto hab | gosub hab => rw [hword _ _ hab]
  | call c hargs =>
    have hxy : List.Forall₂ (· = ·) _ _ := hargs.imp fun _ _ => hargument
    rw [List.forall₂_eq_eq_eq] at hxy
    rw [hxy]
  | cond op t hx hy => rw [hoperand hx, hoperand hy]
  | assign hab he =>
    rw [hword _ _ hab]
    cases he with
    | one hx => rw [hoperand hx]
    | two op hx hy => rw [hoperand hx, hoperand hy]
  | _ => rfl

theorem TokenLike.refl (hword : ∀ a, lk.word a a) (t : Token) : lk.TokenLike t t := by
  cases t with
  | word a => exact .word (hword a)
  | numeral digits => exact .numeral digits
  | text s => exact .text s
  | lineEnd => exact .lineEnd
  | mark c => exact .mark c
  | openText => exact .openText
  | openComment => exact .openComment

theorem TokenLike.eq_iff {t t' u : Token} (h : lk.TokenLike t t') (hu : ∀ a, u ≠ .word a) : t = u ↔ t' = u := by
  cases h with
  | word _ =>
    constructor
    · rintro rfl
      exact absurd rfl (hu _)
    · rintro rfl
      exact absurd rfl (hu _)
  | _ => exact Iff.rfl

namespace Ahead

theorem cons (hl : lk.LexemeLike l l') (ht : lk.Ahead more t t') : lk.Ahead more (.cons l t) (.cons l' t') := by
  obtain ⟨⟨front, hfront, hitems⟩, heq, hfinish⟩ := ht
  exact ⟨⟨l' :: front, .cons hl hfront, by rw [Lexemes.cons, hitems, List.cons_append]⟩, heq, hfinish⟩

theorem cases (hs : lk.Ahead more s s') :
    (∃ l l' t t', s = .cons l t ∧ s' = .cons l' t' ∧ lk.LexemeLike l l' ∧ lk.Ahead more t t') ∨
      s = ⟨[], s.finish⟩ ∧ s' = more := by
  obtain ⟨items, finish⟩ := s
  obtain ⟨items', finish'⟩ := s'
  obtain ⟨⟨front, hfront, hitems⟩, heq, hfinish⟩ := hs
  dsimp only at hfront hitems heq hfinish
  subst hitems heq
  cases hfront with
  | nil => exact .inr ⟨rfl, rfl⟩
  | cons hl hrest =>
    exact .inl ⟨_, _, ⟨_, finish⟩, ⟨_, more.finish⟩, rfl, rfl, hl, ⟨⟨_, hrest, rfl⟩, rfl, hfinish⟩⟩

theorem place (hs : lk.Ahead more s s') (hmore : more.items = []) : lk.place (Parse.place s) (Parse.place s') := by
  rcases hs.cases with ⟨l, l', t, t', rfl, rfl, hl, -⟩ | ⟨hs0, rfl⟩
  · exact hl.pos
  · have hfinish := hs.finish hmore
    rw [hs0]
    unfold Parse.place
    rw [hmore]
    exact hfinish

end Ahead

/-! ## Readers -/

open Parse

theorem literal_like {digits : List Char} {p q : Position} (h : lk.place p q) :
    Agree True lk.FaultLike (· = ·) (Parse.literal digits p) (Parse.literal digits q) := by
  unfold Parse.literal
  dsimp only
  split
  · exact fun _ => rfl
  split
  · exact fun _ => h
  · exact rfl

theorem argument_like (hl : lk.LexemeLike l l') :
    Agree True lk.FaultLike (fun x y => lk.RawArgLike x y ∧ l.token ≠ .openComment)
      (Parse.argument l) (Parse.argument l') := by
  obtain ⟨token, pos, att⟩ := l
  obtain ⟨token', pos', att'⟩ := l'
  obtain ⟨htoken, hpos, -⟩ := hl
  cases htoken with
  | word hab => exact ⟨⟨.name hab, hpos⟩, by simp⟩
  | numeral digits =>
    have hlike : Agree True lk.FaultLike (· = ·) (Parse.literal digits pos) (Parse.literal digits pos') := literal_like hpos
    cases hn : Parse.literal digits pos with
    | error f =>
      cases hn' : Parse.literal digits pos' with
      | error f' =>
        rw [hn, hn'] at hlike
        rw [Parse.argument_of_literal_error hn, Parse.argument_of_literal_error hn']
        exact hlike
      | ok n' =>
        rw [hn, hn'] at hlike
        exact (hlike trivial).elim
    | ok n =>
      cases hn' : Parse.literal digits pos' with
      | error f' =>
        rw [hn, hn'] at hlike
        exact hlike.elim
      | ok n' =>
        rw [hn, hn'] at hlike
        obtain rfl : n = n' := hlike
        rw [Parse.argument_of_literal hn, Parse.argument_of_literal hn']
        exact ⟨⟨.integer _, hpos⟩, by simp⟩
  | text s => exact ⟨⟨.text s, hpos⟩, by simp⟩
  | _ => exact fun _ => hpos

/-- The arguments that are read from `xs`, with the end of their list and the lexemes behind it. -/
structure ArgumentsLike (lk : Likeness) (more : Lexemes) (xs : List Lexeme)
    (x y : List RawArg × Position × List Lexeme) : Prop where
  args : List.Forall₂ lk.RawArgLike x.1 y.1
  pos : lk.place x.2.1 y.2.1
  items : ∃ front, List.Forall₂ lk.LexemeLike x.2.2 front ∧ y.2.2 = front ++ more.items
  closed : (∀ l ∈ x.2.2, l.token ≠ .openComment) → ∀ l ∈ xs, l.token ≠ .openComment

theorem ArgumentsLike.cons {xs : List Lexeme} {x y : List RawArg × Position × List Lexeme} (hl : l.token ≠ .openComment)
    (h : lk.ArgumentsLike more xs x y) : lk.ArgumentsLike more (l :: xs) x y :=
  ⟨h.args, h.pos, h.items, fun hrest => List.forall_mem_cons.mpr ⟨hl, h.closed hrest⟩⟩

theorem arguments_like {finish finish' : Position} (hfinish : more.items = [] → lk.place finish finish') (want : Want)
    {xs ys : List Lexeme} (h : List.Forall₂ lk.LexemeLike xs ys) :
    Agree (more.items = []) lk.FaultLike (lk.ArgumentsLike more xs)
      (Parse.arguments finish want xs) (Parse.arguments finish' want (ys ++ more.items)) := by
  induction h generalizing want with
  | nil =>
    by_cases hmore : more.items = []
    · rw [hmore]
      exact fun _ => hfinish hmore
    · exact .of_not_strict hmore
  | @cons l l' xs ys hl hrest ih =>
    rw [List.cons_append]
    unfold Parse.arguments
    by_cases hend : l.token = .lineEnd
    · rw [if_pos hend, if_pos ((hl.token.eq_iff (by simp)).mp hend)]
      exact (ih want).mono fun _ _ h => h.cons (by simp [hend])
    rw [if_neg hend, if_neg (mt (hl.token.eq_iff (by simp)).mpr hend)]
    -- Where an argument may stand, both sides read one and want a separator next.
    have hnext : Agree (more.items = []) lk.FaultLike (lk.ArgumentsLike more (l :: xs))
        (do let arg ← Parse.argument l
            let rest ← Parse.arguments finish .separator xs
            return (arg :: rest.1, rest.2))
        (do let arg ← Parse.argument l'
            let rest ← Parse.arguments finish' .separator (ys ++ more.items)
            return (arg :: rest.1, rest.2)) :=
      Agree.bind (argument_like hl).weaken fun _ _ harg => Agree.bind (ih .separator) fun _ _ hargs =>
        .cons harg.2 ⟨.cons harg.1 hargs.args, hargs.pos, hargs.items, hargs.closed⟩
    cases want with
    | separator =>
      obtain ⟨token, pos, att⟩ := l
      obtain ⟨token', pos', att'⟩ := l'
      obtain ⟨htoken, hpos, -⟩ := hl
      cases htoken with
      | mark c =>
        dsimp only
        split
        · exact (ih .argument).mono fun _ _ h => h.cons (by simp)
        · exact .cons (by simp) ⟨.nil, hpos, ⟨ys, hrest, rfl⟩, id⟩
        · exact fun _ => hpos
        · exact fun _ => hpos
      | _ => exact fun _ => hpos
    | first =>
      have hclose : l.token = .mark ')' ↔ l'.token = .mark ')' := hl.token.eq_iff (by simp)
      simp only [hclose]
      split
      · rename_i hmark
        simp only [Bool.and_eq_true, decide_eq_true_eq] at hmark
        exact .cons (by simp [hclose.mpr hmark.2]) ⟨.nil, lk.place_after ')' hl.pos, ⟨ys, hrest, rfl⟩, id⟩
      · exact hnext
    | argument => exact hnext

theorem references_like {p q : Position} (hpos : lk.place p q) {xs ys : List Argument}
    (h : List.Forall₂ lk.ArgumentLike xs ys) :
    List.Forall₂ lk.NamedLike (Parse.references xs p) (Parse.references ys q) := by
  induction h with
  | nil => exact .nil
  | @cons x y xs ys hxy _ ih =>
    obtain ⟨xkind, xvalue⟩ := x
    obtain ⟨ykind, yvalue⟩ := y
    obtain ⟨-, hvalue⟩ := hxy
    cases hvalue with
    | label hab => exact .cons ⟨hab, hpos⟩ ih
    | _ => exact ih

/-- A reader gives related values on two rows and leaves rows that are related as before. What it takes from the first
row leaves no comment open. -/
def Tracks {α β : Type} (lk : Likeness) (more : Lexemes) (R : α → β → Prop) (r : Reads α) (r' : Reads β)
    (s s' : Lexemes) : Prop :=
  Agree (more.items = []) lk.FaultLike (fun x x' => R x.1 x'.1 ∧ lk.Ahead more x.2 x'.2 ∧ (x.2.Closed → s.Closed))
    (r s) (r' s')

namespace Tracks

variable {α α' β β' : Type} {R : α → α' → Prop} {Q : β → β' → Prop}

theorem pure {a : α} {a' : α'} (h : R a a') (hs : lk.Ahead more s s') :
    lk.Tracks more R (Pure.pure a) (Pure.pure a') s s' :=
  ⟨h, hs, id⟩

theorem bind {r : Reads α} {r' : Reads α'} {f : α → Reads β} {f' : α' → Reads β'} (hr : lk.Tracks more R r r' s s')
    (hf : ∀ a a' t t', R a a' → lk.Ahead more t t' → lk.Tracks more Q (f a) (f' a') t t') :
    lk.Tracks more Q (r >>= f) (r' >>= f') s s' :=
  Agree.bind hr fun x x' hx => (hf x.1 x'.1 x.2 x'.2 hx.1 hx.2.1).mono fun _ _ hy =>
    ⟨hy.1, hy.2.1, fun hclosed => hx.2.2 (hy.2.2 hclosed)⟩

theorem lift {x : Except ParseFault α} {x' : Except ParseFault α'} (hx : Agree True lk.FaultLike R x x')
    (hs : lk.Ahead more s s') : lk.Tracks more R (monadLift x : Reads α) (monadLift x' : Reads α') s s' :=
  Agree.bind (Agree.weaken hx) fun _ _ ha => ⟨ha, hs, id⟩

theorem failAt {cause cause' : Malformed} {p q : Position} (h : lk.place p q) :
    lk.Tracks more R (Parse.failAt cause p) (Parse.failAt cause' q) s s' :=
  fun _ => h

theorem expected {what what' : String} (hs : lk.Ahead more s s') :
    lk.Tracks more R (Parse.expected what) (Parse.expected what') s s' :=
  fun hmore => hs.place hmore

theorem drop (hl : l.token ≠ .openComment) (ht : lk.Ahead more t t') :
    lk.Tracks more (fun _ _ => True) Parse.drop Parse.drop (.cons l t) (.cons l' t') :=
  ⟨trivial, ht, .cons hl⟩

theorem argumentList (hs : lk.Ahead more s s') :
    lk.Tracks more (fun x y => List.Forall₂ lk.RawArgLike x.1 y.1 ∧ lk.place x.2 y.2)
      Parse.argumentList Parse.argumentList s s' := by
  obtain ⟨items, finish⟩ := s
  obtain ⟨items', finish'⟩ := s'
  obtain ⟨⟨front, hfront, hitems⟩, heq, hfinish⟩ := hs
  dsimp only at hfront hitems heq hfinish
  subst hitems
  -- A line end does not stop an argument list: it must be complete before the first row ends.
  unfold Tracks Parse.argumentList
  dsimp only
  rcases (arguments_like hfinish .first hfront).cases with
    ⟨x, y, hx, hy, hargs⟩ | ⟨e, e', hx, hy, he⟩ | ⟨e, y, hx, hy, hstrict⟩
  · rw [hx, hy]
    exact ⟨⟨hargs.args, hargs.pos⟩, ⟨hargs.items, heq, hfinish⟩, hargs.closed⟩
  · rw [hx, hy]
    exact he
  · rw [hx, hy]
    exact hstrict

section

variable (hmore : ∀ l ∈ more.items.head?, l.token = .lineEnd)

include hmore

theorem peek_bind {f : Option Lexeme → Reads α} {f' : Option Lexeme → Reads α'} (hs : lk.Ahead more s s')
    (hcons : ∀ l l' t t', lk.LexemeLike l l' → lk.Ahead more t t' →
      lk.Tracks more R (f (some l)) (f' (some l')) (.cons l t) (.cons l' t'))
    (hnone : more.items = [] → s = ⟨[], s.finish⟩ → s' = ⟨[], s'.finish⟩ → lk.Tracks more R (f none) (f' none) s s')
    (hline : ∀ l', l'.token = .lineEnd → more.items ≠ [] → s = ⟨[], s.finish⟩ →
      lk.Tracks more R (f none) (f' (some l')) s s') :
    lk.Tracks more R (Parse.peek >>= f) (Parse.peek >>= f') s s' := by
  rcases hs.cases with ⟨l, l', t, t', rfl, rfl, hl, ht⟩ | ⟨hs0, hs1⟩
  · by_cases hopen : l.token = .openComment
    · have hopen' := (hl.token.eq_iff (by simp)).mp hopen
      have hpeek : Parse.peek (.cons l t) = .error (.malformed .unterminatedComment l.pos) := if_pos hopen
      have hpeek' : Parse.peek (.cons l' t') = .error (.malformed .unterminatedComment l'.pos) := if_pos hopen'
      refine Agree.bind (R := fun _ _ => False) ?_ fun _ _ h => h.elim
      rw [hpeek, hpeek']
      exact fun _ => hl.pos
    · have hopen' := mt (hl.token.eq_iff (by simp)).mpr hopen
      have hpeek : Parse.peek (.cons l t) = .ok (some l, .cons l t) := if_neg hopen
      have hpeek' : Parse.peek (.cons l' t') = .ok (some l', .cons l' t') := if_neg hopen'
      show Agree _ _ _ (Parse.peek _ >>= fun x => f x.1 x.2) (Parse.peek _ >>= fun x => f' x.1 x.2)
      rw [hpeek, hpeek']
      exact hcons l l' t t' hl ht
  · have hpeek : Parse.peek s = .ok (none, s) := by rw [hs0]; rfl
    show Agree _ _ _ (Parse.peek s >>= fun x => f x.1 x.2) (Parse.peek s' >>= fun x => f' x.1 x.2)
    obtain ⟨items', finish'⟩ := s'
    subst hs1
    cases items' with
    | nil =>
      have hpeek' : Parse.peek ⟨[], finish'⟩ = .ok (none, ⟨[], finish'⟩) := rfl
      rw [hpeek, hpeek']
      exact hnone rfl hs0 rfl
    | cons l' items' =>
      have hl' := hmore l' rfl
      have hpeek' : Parse.peek ⟨l' :: items', finish'⟩ = .ok (some l', ⟨l' :: items', finish'⟩) :=
        if_neg (by simp [hl'])
      rw [hpeek, hpeek']
      exact hline l' hl' (by simp) hs0

theorem peek_bind_cons {f : Option Lexeme → Reads α} {f' : Option Lexeme → Reads α'} (hs : lk.Ahead more s s')
    (hf : ∀ finish, ∃ cause, f none ⟨[], finish⟩ = .error (.malformed cause finish))
    (hf' : ∀ finish, ∃ cause, f' none ⟨[], finish⟩ = .error (.malformed cause finish))
    (hcons : ∀ l l' t t', lk.LexemeLike l l' → lk.Ahead more t t' →
      lk.Tracks more R (f (some l)) (f' (some l')) (.cons l t) (.cons l' t')) :
    lk.Tracks more R (Parse.peek >>= f) (Parse.peek >>= f') s s' := by
  refine peek_bind hmore hs hcons ?_ ?_
  · intro hnil hs0 hs1
    obtain ⟨cause, hf⟩ := hf s.finish
    obtain ⟨cause', hf'⟩ := hf' s'.finish
    unfold Tracks
    rw [hs0, hs1, hf, hf']
    exact fun _ => hs.finish hnil
  · intro l' _ hne hs0
    obtain ⟨cause, hf⟩ := hf s.finish
    unfold Tracks
    rw [hs0, hf]
    exact .of_not_strict hne

theorem mark (c : Char) (hs : lk.Ahead more s s') :
    lk.Tracks more (fun _ _ => True) (Parse.mark c) (Parse.mark c) s s' := by
  refine peek_bind_cons hmore hs (fun _ => ⟨_, rfl⟩) (fun _ => ⟨_, rfl⟩) fun l l' t t' hl ht => ?_
  by_cases hc : l.token = .mark c
  · simp only [if_pos hc, if_pos ((hl.token.eq_iff (by simp)).mp hc)]
    exact drop (by simp [hc]) ht
  · simp only [if_neg hc, if_neg (mt (hl.token.eq_iff (by simp)).mpr hc)]
    exact expected (.cons hl ht)

theorem plainName {what what' : String} (hs : lk.Ahead more s s') :
    lk.Tracks more lk.NamedLike (Parse.plainName what) (Parse.plainName what') s s' := by
  refine peek_bind_cons hmore hs (fun _ => ⟨_, rfl⟩) (fun _ => ⟨_, rfl⟩) fun l l' t t' hl ht => ?_
  have hboth := Ahead.cons hl ht
  obtain ⟨token, pos, att⟩ := l
  obtain ⟨token', pos', att'⟩ := l'
  obtain ⟨htoken, hpos, -⟩ := hl
  cases htoken with
  | word hab =>
    simp only [lk.isReserved_eq hab]
    split
    · exact failAt hpos
    · exact bind (drop (by simp) ht) fun _ _ _ _ _ hu => pure ⟨hab, hpos⟩ hu
  | _ => exact expected hboth

theorem operand (hs : lk.Ahead more s s') : lk.Tracks more lk.OperandLike Parse.operand Parse.operand s s' := by
  refine peek_bind_cons hmore hs (fun _ => ⟨_, rfl⟩) (fun _ => ⟨_, rfl⟩) fun l l' t t' hl ht => ?_
  have hboth := Ahead.cons hl ht
  have hname : lk.Tracks more lk.OperandLike
      (do let x ← Parse.plainName "integer or variable"; return Operand.var x.1)
      (do let x ← Parse.plainName "integer or variable"; return Operand.var x.1) (.cons l t) (.cons l' t') :=
    bind (plainName hmore hboth) fun _ _ _ _ hab hu => pure (.var hab.1) hu
  obtain ⟨token, pos, att⟩ := l
  obtain ⟨token', pos', att'⟩ := l'
  obtain ⟨htoken, hpos, -⟩ := hl
  cases htoken with
  | numeral digits =>
    refine bind (drop (by simp) ht) fun _ _ _ _ _ hu => bind (lift (literal_like hpos) hu) fun n n' _ _ hn hv => ?_
    subst hn
    exact pure (.literal n) hv
  | _ => exact hname

theorem attached (c : Char) (hs : lk.Ahead more s s') :
    lk.Tracks more (· = ·) (Parse.attached c) (Parse.attached c) s s' := by
  rcases hs.cases with ⟨l, l', t, t', rfl, rfl, hl, ht⟩ | ⟨hs0, hs1⟩
  · have hiff : (l.attached && decide (l.token = .mark c)) = (l'.attached && decide (l'.token = .mark c)) := by
      rw [hl.attached, decide_eq_decide.mpr (hl.token.eq_iff (by simp))]
    unfold Tracks Parse.attached
    simp only [Lexemes.cons, hiff]
    split
    · rename_i hmark
      rw [← hiff, Bool.and_eq_true, decide_eq_true_eq] at hmark
      exact ⟨rfl, ht, .cons (by simp [hmark.2])⟩
    · exact ⟨rfl, .cons hl ht, id⟩
  · have hnone : Parse.attached c s = .ok (false, s) := by rw [hs0]; rfl
    have hnone' : Parse.attached c s' = .ok (false, s') := by
      subst hs1
      obtain ⟨items', finish'⟩ := s'
      cases items' with
      | nil => rfl
      | cons l' items' => simp [Parse.attached, hmore l' rfl]
    unfold Tracks
    rw [hnone, hnone']
    exact ⟨rfl, hs, id⟩

theorem labelName (hs : lk.Ahead more s s') :
    lk.Tracks more lk.NamedLike Parse.labelName Parse.labelName s s' :=
  bind (plainName hmore hs) fun _ _ _ _ hab ht => bind (attached hmore _ ht) fun _ _ _ _ _ hu => pure hab hu

theorem comparison (hs : lk.Ahead more s s') : lk.Tracks more (· = ·) Parse.comparison Parse.comparison s s' := by
  refine peek_bind_cons hmore hs (fun _ => ⟨_, rfl⟩) (fun _ => ⟨_, rfl⟩) fun l l' t t' hl ht => ?_
  have hboth := Ahead.cons hl ht
  obtain ⟨token, pos, att⟩ := l
  obtain ⟨token', pos', att'⟩ := l'
  obtain ⟨htoken, hpos, -⟩ := hl
  cases htoken with
  | mark c =>
    split
    · rename_i hc
      cases hc
      exact bind (drop (by simp) ht) fun _ _ _ _ _ hu => pure rfl hu
    · rename_i hc
      cases hc
      refine bind (drop (by simp) ht) fun _ _ _ _ _ hu => bind (attached hmore _ hu) fun b b' _ _ hb hv => ?_
      subst hb
      cases b with
      | true => exact pure rfl hv
      | false =>
        refine bind (attached hmore _ hv) fun b b' _ _ hb hw => ?_
        subst hb
        cases b with
        | true => exact pure rfl hw
        | false => exact pure rfl hw
    · rename_i hc
      cases hc
      refine bind (drop (by simp) ht) fun _ _ _ _ _ hu => bind (attached hmore _ hu) fun b b' _ _ hb hv => ?_
      subst hb
      cases b with
      | true => exact pure rfl hv
      | false => exact pure rfl hv
    · -- No sign begins with this mark, on either side.
      rename_i heq hlt hgt
      split
      · rename_i hc
        cases hc
        exact (heq _ _ rfl).elim
      · rename_i hc
        cases hc
        exact (hlt _ _ rfl).elim
      · rename_i hc
        cases hc
        exact (hgt _ _ rfl).elim
      · exact expected hboth
  | _ => exact expected hboth

theorem operator (hs : lk.Ahead more s s') : lk.Tracks more (· = ·) Parse.operator Parse.operator s s' := by
  refine peek_bind hmore hs (fun l l' t t' hl ht => ?_) (fun _ _ _ => pure rfl hs) fun l' hl' _ _ => ?_
  · have hboth := Ahead.cons hl ht
    obtain ⟨token, pos, att⟩ := l
    obtain ⟨token', pos', att'⟩ := l'
    obtain ⟨htoken, hpos, -⟩ := hl
    cases htoken with
    | mark c =>
      dsimp only
      cases Operator.ofSign? c with
      | some op => exact bind (drop (by simp) ht) fun _ _ _ _ _ hu => pure rfl hu
      | none => exact pure rfl hboth
    | _ => exact pure rfl hboth
  · obtain ⟨token, pos, att⟩ := l'
    obtain rfl : token = .lineEnd := hl'
    exact pure rfl hs

theorem condition (hs : lk.Ahead more s s') : lk.Tracks more lk.ActionLike Parse.condition Parse.condition s s' := by
  refine bind (operand hmore hs) fun lhs lhs' _ _ hlhs ht => ?_
  refine bind (comparison hmore ht) fun op op' _ _ hop hu => ?_
  subst hop
  refine bind (operand hmore hu) fun rhs rhs' _ _ hrhs hv => ?_
  refine peek_bind_cons hmore hv (fun _ => ⟨_, rfl⟩) (fun _ => ⟨_, rfl⟩) fun l l' t t' hl ht => ?_
  have hboth := Ahead.cons hl ht
  obtain ⟨token, pos, att⟩ := l
  obtain ⟨token', pos', att'⟩ := l'
  obtain ⟨htoken, hpos, -⟩ := hl
  cases htoken with
  | word hab =>
    simp only [lk.upper_eq hab]
    split
    · exact bind (drop (by simp) ht) fun _ _ _ _ _ hw => pure (.cond op 0 hlhs hrhs) hw
    · exact bind (R := fun _ _ => False) (failAt hpos) fun _ _ _ _ h _ => h.elim
  | _ => exact bind (R := fun _ _ => False) (expected hboth) fun _ _ _ _ h _ => h.elim

theorem assignment (hs : lk.Ahead more s s') : lk.Tracks more lk.ActionLike Parse.assignment Parse.assignment s s' := by
  refine bind (plainName hmore hs) fun var var' _ _ hvar ht => ?_
  refine bind (mark hmore _ ht) fun _ _ _ _ _ hu => ?_
  refine bind (operand hmore hu) fun first first' _ _ hfirst hv => ?_
  refine bind (operator hmore hv) fun op op' _ _ hop hw => ?_
  subst hop
  cases op with
  | some op => exact bind (operand hmore hw) fun _ _ _ _ hsecond hx => pure (.assign hvar.1 (.two op hfirst hsecond)) hx
  | none => exact pure (.assign hvar.1 (.one hfirst)) hw

theorem call (c : Command) {p q : Position} (hpos : lk.place p q) (hs : lk.Ahead more s s') :
    lk.Tracks more lk.StatedLike (Parse.call c p) (Parse.call c q) s s' := by
  refine bind (mark hmore _ hs) fun _ _ _ _ _ ht => ?_
  refine bind (argumentList ht) fun x y _ _ hxy hu => ?_
  rcases (checkArguments_like c hxy.2 hxy.1).cases with
    ⟨args, args', hx, hy, hargs⟩ | ⟨e, e', hx, hy, he⟩ | ⟨_, _, _, _, hstrict⟩
  · simp only [hx, hy]
    exact pure ⟨.call c hargs, references_like hpos hargs⟩ hu
  · simp only [hx, hy]
    exact failAt (he trivial)
  · exact absurd trivial hstrict

theorem statement (k : Keyword) {a b : String} {p q : Position} (hpos : lk.place p q) (hs : lk.Ahead more s s') :
    lk.Tracks more lk.StatedLike (Parse.statement k a p) (Parse.statement k b q) s s' := by
  cases k with
  | goto => exact bind (labelName hmore hs) fun _ _ _ _ hab ht => pure ⟨.goto hab.1, .cons hab .nil⟩ ht
  | gosub => exact bind (labelName hmore hs) fun _ _ _ _ hab ht => pure ⟨.gosub hab.1, .cons hab .nil⟩ ht
  | back => exact pure ⟨.back, .nil⟩ hs
  | finish => exact pure ⟨.finish, .nil⟩ hs
  | cond => exact bind (condition hmore hs) fun _ _ _ _ hab ht => pure ⟨hab, .nil⟩ ht
  | assign => exact bind (assignment hmore hs) fun _ _ _ _ hab ht => pure ⟨hab, .nil⟩ ht
  | andThen => exact failAt hpos
  | command c =>
    unfold Parse.statement
    dsimp only
    split
    · exact pure ⟨.plain c, .nil⟩ hs
    · exact call hmore c hpos hs

end

end Tracks

/-! ## Drafts -/

namespace DraftLike

variable {d d' : Draft} {a b : String} {p q : Position} {pedantic : Bool}

theorem endLine (hd : lk.DraftLike d d') : lk.DraftLike d.endLine d'.endLine :=
  ⟨.cons (List.forall₂_reverse_iff.mpr hd.line) hd.lines, .nil, hd.labels, hd.references⟩

theorem push {x y : Action} (hd : lk.DraftLike d d') (hxy : lk.ActionLike x y) (hpos : lk.place p q) :
    lk.DraftLike (d.push x p) (d'.push y q) :=
  ⟨hd.lines, .cons ⟨hxy, hpos⟩ hd.line, hd.labels, hd.references⟩

theorem addLabel (hd : lk.DraftLike d d') (hab : lk.word a b) (hpos : lk.place p q)
    (hcol : pedantic = true → p.col = q.col) :
    Agree True lk.FaultLike lk.DraftLike (d.addLabel pedantic a p) (d'.addLabel pedantic b q) := by
  -- Only a pedantic program looks at the column.
  have hstart : (pedantic && p.col != 1) = (pedantic && q.col != 1) := by
    cases pedantic with
    | true => rw [hcol rfl]
    | false => rfl
  unfold Draft.addLabel
  simp only [lk.isReserved_eq hab, lk.upper_eq hab, hstart, hd.labels]
  split
  · exact fun _ => hpos
  split
  · exact fun _ => hpos
  split
  · exact fun _ => hpos
  · have hpush := hd.push (.label hab) hpos
    exact ⟨hpush.lines, hpush.line, rfl, hpush.references⟩

end DraftLike

section

variable {d d' : Draft} {pedantic : Bool} (hcol : ∀ p q, lk.place p q → pedantic = true → p.col = q.col)

include hcol

theorem Tracks.afterWord (hmore : ∀ l ∈ more.items.head?, l.token = .lineEnd) {a b : String} {p q : Position}
    (hd : lk.DraftLike d d') (hab : lk.word a b) (hpos : lk.place p q) (hs : lk.Ahead more s s') :
    lk.Tracks more lk.DraftLike (Parse.afterWord pedantic d a p) (Parse.afterWord pedantic d' b q) s s' := by
  refine bind (attached hmore _ hs) fun c c' t t' hc ht => ?_
  subst hc
  cases c with
  | true => exact lift (hd.addLabel hab hpos (hcol p q hpos)) ht
  | false =>
    have hk : Keyword.ofName? a = Keyword.ofName? b := by
      unfold Keyword.ofName?
      rw [lk.upper_eq hab]
    simp only [hk, Bool.false_eq_true, if_false]
    cases Keyword.ofName? b with
    | none => exact failAt hpos
    | some k =>
      refine bind (statement hmore k hpos ht) fun x y _ _ hxy hu => ?_
      have hpush := hd.push hxy.1 hpos
      exact pure ⟨hpush.lines, hpush.line, hpush.labels,
        List.rel_append (List.forall₂_reverse_iff.mpr hxy.2) hd.references⟩ hu

theorem Tracks.command (hmore : ∀ l ∈ more.items.head?, l.token = .lineEnd) (hd : lk.DraftLike d d')
    (hl : lk.LexemeLike l l') (hs : lk.Ahead more s s') :
    lk.Tracks more lk.DraftLike (Parse.command pedantic d l) (Parse.command pedantic d' l') s s' := by
  obtain ⟨token, pos, att⟩ := l
  obtain ⟨token', pos', att'⟩ := l'
  obtain ⟨htoken, hpos, -⟩ := hl
  cases htoken with
  | lineEnd => exact pure hd.endLine hs
  | word hab => exact afterWord hcol hmore hd hab hpos hs
  | _ => exact failAt hpos

/-- What is read up to the end of the first row is read from the second one too. -/
theorem commands_like (hmore : ∀ l ∈ more.items.head?, l.token = .lineEnd) (hd : lk.DraftLike d d')
    (hs : lk.Ahead more s s') :
    match commands pedantic d s with
    | .ok r => s.Closed ∧
        ∃ e e', r = e.endLine ∧ lk.DraftLike e e' ∧ commands pedantic d' s' = commands pedantic e' more
    | .error f => more.items = [] → ∃ f', commands pedantic d' s' = .error f' ∧ lk.FaultLike f f' := by
  -- On the length of the first row, since one command may take many lexemes.
  induction hn : s.items.length using Nat.strong_induction_on generalizing d d' s s' with
  | _ n ih =>
    rcases hs.cases with ⟨l, l', t, t', rfl, rfl, hl, ht⟩ | ⟨hs0, rfl⟩
    · rw [commands_cons, commands_cons]
      rcases (Tracks.command hcol hmore hd hl ht).cases with
        ⟨⟨e, u⟩, ⟨e', u'⟩, hx, hy, he, hu, hclosed⟩ | ⟨f, f', hx, hy, hf⟩ | ⟨f, _, hx, -, hstrict⟩
      · rw [hx, hy]
        have hle := Shrinks.command pedantic d l t e u hx
        have hopen : l.token ≠ .openComment := by
          intro hopen
          simp only [command, hopen] at hx
          cases hx
        have hrun := ih u.items.length (by simp only [Lexemes.cons, List.length_cons] at hn; omega) he hu rfl
        show match commands pedantic e u with | .ok r => _ | .error f => _
        cases hr : commands pedantic e u with
        | ok r =>
          rw [hr] at hrun
          exact ⟨.cons hopen (hclosed hrun.1), hrun.2⟩
        | error f =>
          rw [hr] at hrun
          exact hrun
      · rw [hx, hy]
        exact fun hnil => ⟨f', rfl, hf hnil⟩
      · rw [hx]
        exact fun hnil => absurd hnil hstrict
    · rw [hs0, commands]
      exact ⟨by simp [Lexemes.Closed], d, d', rfl, hd, rfl⟩

end

end Likeness

end GraphicsBatch
