import Mathlib.Data.List.Induction
import Mathlib.Data.Nat.Digits.Defs
import GraphicsBatch.Proofs.ArgumentLists
import GraphicsBatch.Proofs.Placed

/-!
# Numbers as they are read

A reader takes the numerals of its lexemes one after the other, and what it makes of them has their values in the same
order. A row of lexemes that breaks off where a number is wanted is also read with a numeral behind it: everything goes
as before up to this numeral, and then the numeral decides.
-/

namespace GraphicsBatch

open Source

/-! ## Numbers -/

/-- The number that a string of decimal digits writes. -/
def Source.valueOf (digits : List Char) : Nat := Nat.ofDigits 10 (digits.reverse.map fun c => c.toNat - '0'.toNat)

theorem Text.ofDigits_eq (ds : List Nat) : Text.ofDigits ds = Nat.ofDigits 10 ds.reverse := by
  induction ds using List.reverseRecOn with
  | nil => rfl
  | append_singleton ds d ih =>
    rw [Text.ofDigits_concat, ih, List.reverse_append, List.reverse_singleton, List.singleton_append, Nat.ofDigits_cons]
    exact Nat.add_comm _ _

theorem Parse.literal_eq (digits : List Char) (pos : Position) : literal digits pos =
    if Text.digitLimit < digits.length then .error (.longNumeral digits.length)
    else if maxLiteral < valueOf digits then .error (.malformed (.integerTooLarge (String.ofList digits)) pos)
    else .ok (valueOf digits) := by
  unfold literal valueOf
  rw [Text.ofDigits_eq, List.map_reverse]

theorem Parse.literal_eq_ok {digits : List Char} {pos : Position} {n : Nat} (h : literal digits pos = .ok n) :
    n = valueOf digits := by
  rw [literal_eq] at h
  split at h
  · cases h
  · split at h
    · cases h
    · exact (Except.ok.inj h).symm

/-- The number that a lexeme is, if it is a numeral. -/
def Source.Token.number? : Token → Option Int
  | .numeral digits => some (valueOf digits)
  | _ => none

/-- The numbers among some lexemes. -/
def Source.numbersOf (items : List Lexeme) : List Int := items.filterMap (·.token.number?)

def Raw.number? : Raw → Option Int
  | .integer n => some n.value
  | _ => none

def Value.number? : Value → Option Int
  | .int n => some n
  | _ => none

def Operand.numbers : Operand → List Int
  | .literal n => [(n : Int)]
  | .var _ => []

/-- The numbers that are written in a statement, from left to right. -/
def Action.numbers : Action → List Int
  | .cond lhs _ rhs _ => lhs.numbers ++ rhs.numbers
  | .assign _ ⟨first, none⟩ => first.numbers
  | .assign _ ⟨first, some (_, second)⟩ => first.numbers ++ second.numbers
  | .call _ args => args.filterMap (·.value.number?)
  | _ => []

/-- The numbers that are written in a program, from the first to the last. -/
def Program.numbers (p : Program) : List Int := p.statements.toList.flatMap (·.action.numbers)

def Parse.Draft.numbers (d : Draft) : List Int := d.statements.flatMap (·.action.numbers)

theorem Source.numbersOf_append (xs ys : List Lexeme) : numbersOf (xs ++ ys) = numbersOf xs ++ numbersOf ys :=
  List.filterMap_append

/-! ## Argument lists -/

theorem Slot.Reads.number?_eq {slot : Slot} {raw : Raw} {v : Value} (h : slot.Reads raw v) : v.number? = raw.number? := by
  cases h <;> rfl

/-- A translation that keeps the numbers and their order. -/
def Translation.KeepsNumbers (R : Translation) : Prop :=
  ∀ args out, R args out → out.filterMap (·.value.number?) = args.filterMap (·.raw.number?)

namespace Translation.KeepsNumbers

variable {R S : Translation}

theorem row (slots : List Slot) : KeepsNumbers (Row slots) := by
  intro args out h
  induction h with
  | nil => rfl
  | cons hreads _ ih => rw [List.filterMap_cons, List.filterMap_cons, hreads.number?_eq, ih]

theorem repeats (hR : KeepsNumbers R) : KeepsNumbers (Repeats R) := by
  intro args out h
  induction h with
  | nil => rfl
  | cons hfirst _ ih => rw [List.filterMap_append, List.filterMap_append, hR _ _ hfirst, ih]

theorem before (hR : KeepsNumbers R) (hS : KeepsNumbers S) : KeepsNumbers (Before R S) := by
  rintro _ _ ⟨hfirst, hsecond⟩
  rw [List.filterMap_append, List.filterMap_append, hR _ _ hfirst, hS _ _ hsecond]

theorem menuPopup : KeepsNumbers menuPopup :=
  before (row _) (before (repeats fun args out h => h.elim (row _ args out) (row _ args out)) (row _))

theorem language (sig : Signature) : KeepsNumbers sig.Language := by
  cases sig with
  | fixed slots => exact row slots
  | optional slots =>
    rintro args out ⟨n, hn⟩
    exact row _ args out hn
  | repeating group => exact repeats (row group)
  | menu => exact repeats menuPopup
  | plain => exact fun _ _ h => h.elim

end Translation.KeepsNumbers

theorem Slot.convert_ne_expected {slot : Slot} {arg : RawArg} {what : String} {pos : Position} :
    slot.convert arg ≠ .error (.expected what, pos) := by
  obtain ⟨kind, choices⟩ := slot
  obtain ⟨raw, place⟩ := arg
  cases kind <;> cases raw <;> simp only [convert] <;> (repeat' split) <;> simp

theorem takeThen_ne_expected {slot : Slot} {arg : RawArg} {others : Fit (List Argument)} {what : String} {pos : Position}
    (h : others ≠ .error (.expected what, pos)) : takeThen slot arg others ≠ .error (.expected what, pos) := by
  unfold takeThen
  cases hv : slot.convert arg with
  | error e =>
    rintro ⟨⟩
    exact Slot.convert_ne_expected hv
  | ok v =>
    cases others with
    | error e => exact h
    | ok rest => simp [Bind.bind, Except.bind, Pure.pure, Except.pure]

theorem convertAll_ne_expected {slots : List Slot} {args : List RawArg} {what : String} {pos : Position} :
    convertAll slots args ≠ .error (.expected what, pos) := by
  induction slots generalizing args with
  | nil => simp [convertAll]
  | cons slot slots ih =>
    cases args with
    | nil => simp [convertAll]
    | cons arg args => exact takeThen_ne_expected ih

theorem checkMenu_ne_expected {endPos : Position} {stage : MenuStage} {args : List RawArg} {what : String}
    {pos : Position} : checkMenu endPos stage args ≠ .error (.expected what, pos) := by
  induction args generalizing stage with
  | nil => cases stage <;> simp [checkMenu]
  | cons arg args ih =>
    rw [MenuStage.checkMenu_cons]
    exact takeThen_ne_expected ih

theorem Command.checkArguments_ne_expected {c : Command} {args : List RawArg} {endPos : Position} {what : String}
    {pos : Position} : c.checkArguments args endPos ≠ .error (.expected what, pos) := by
  unfold checkArguments
  dsimp only
  split
  · simp
  · split
    · simp
    · split
      · simp
      · exact convertAll_ne_expected
  · split
    · simp
    · exact convertAll_ne_expected
  · split
    · simp
    · exact convertAll_ne_expected
  · exact checkMenu_ne_expected

/-! ## A row and a numeral behind it -/

/-- Some lexemes with another one and more behind them. -/
def Source.Lexemes.before (s : Lexemes) (l : Lexeme) (more : Lexemes) : Lexemes := ⟨s.items ++ l :: more.items, more.finish⟩

theorem Source.Lexemes.cons_before (x : Lexeme) (s : Lexemes) (l : Lexeme) (more : Lexemes) :
    (Lexemes.cons x s).before l more = .cons x (s.before l more) := rfl

theorem Source.Lexemes.eq_nil {s : Lexemes} (h : s.items = []) : s = ⟨[], s.finish⟩ := by
  obtain ⟨items, finish⟩ := s
  obtain rfl : items = [] := h
  rfl

/-- A token that is complete in itself: no quote or comment is left open. -/
def Source.Token.Complete (t : Token) : Prop := t ≠ .openText ∧ t ≠ .openComment

/-- A fault for want of an operand or an argument at a place. -/
def ParseFault.Wants (pos : Position) (f : ParseFault) : Prop :=
  f = .malformed (.expected "integer or variable") pos ∨ f = .malformed (.expected "argument") pos

theorem ParseFault.Wants.place_eq {pos place : Position} {cause : Malformed} (h : Wants pos (.malformed cause place)) :
    place = pos := by
  rcases h with h | h
  all_goals exact (ParseFault.malformed.inj h).2

theorem Parse.not_wants_of_literal {digits : List Char} {pos place : Position} {f : ParseFault}
    (h : literal digits place = .error f) : ¬ f.Wants pos := by
  rw [literal_eq] at h
  split at h
  · cases h
    simp [ParseFault.Wants]
  · split at h
    · cases h
      simp [ParseFault.Wants]
    · cases h

namespace Parse

variable {α β : Type} {digits : List Char} {q : Position} {att : Bool} {more s t : Lexemes} {l x : Lexeme}

/-- What becomes of a reading where a numeral stands that is wanted: it is blamed, or the reading goes on behind it. -/
def Settles (digits : List Char) (q : Position) (more : Lexemes) (C : α → Prop) (r : Except ParseFault α) : Prop :=
  match literal digits q with
  | .error f => r = .error f
  | .ok _ => more.items = [] → (∃ a, r = .ok a ∧ C a) ∨ ∃ what, r = .error (.malformed (.expected what) more.finish)

/-- A reader at the end of a text is content, with a value of some kind, or expects something there. -/
def AtEnd (r : Lexemes → Except ParseFault α) (C : Position → α → Prop) : Prop :=
  ∀ finish, (∃ a, r ⟨[], finish⟩ = .ok a ∧ C finish a) ∨ ∃ what, r ⟨[], finish⟩ = .error (.malformed (.expected what) finish)

/-- A value of some kind with nothing left behind it. -/
def Last (P : α → Prop) (finish : Position) (r : α × Lexemes) : Prop := P r.1 ∧ r.2 = ⟨[], finish⟩

theorem run_bind_of_error {r : Reads α} {f : α → Reads β} {s : Lexemes} {e : ParseFault} (h : r s = .error e) :
    (r >>= f) s = .error e := by
  change (r s >>= fun x => f x.1 x.2) = _
  rw [h]
  rfl

theorem run_bind_of_ok {r : Reads α} {f : α → Reads β} {s t : Lexemes} {a : α} (h : r s = .ok (a, t)) :
    (r >>= f) s = f a t := by
  change (r s >>= fun x => f x.1 x.2) = _
  rw [h]
  rfl

theorem Settles.bind {P : α → Prop} {C : Position → β → Prop} {r : Except ParseFault (α × Lexemes)}
    {f : α → Lexemes → Except ParseFault β} (hr : Settles digits q more (Last P more.finish) r)
    (hf : ∀ a, P a → AtEnd (f a) C) : Settles digits q more (C more.finish) (r >>= fun x => f x.1 x.2) := by
  unfold Settles at hr ⊢
  cases hlit : literal digits q with
  | error e =>
    rw [hlit] at hr
    rw [hr]
    rfl
  | ok n =>
    rw [hlit] at hr
    intro hmore
    rcases hr hmore with ⟨⟨a, t⟩, rfl, ha, ht⟩ | ⟨what, rfl⟩
    · obtain rfl : t = ⟨[], more.finish⟩ := ht
      exact hf a ha more.finish
    · exact .inr ⟨what, rfl⟩

/-- A reader on a row of lexemes and on the same row with a numeral behind it. If it wants a number where the row ends,
the numeral decides. -/
def Gathers (digits : List Char) (q : Position) (att : Bool) (more : Lexemes) (r : Reads α) (s : Lexemes)
    (R : α → List Int → Prop) (P : α → Prop) : Prop :=
  match r s with
  | .ok (a, t) => t.finish = s.finish ∧ (∃ front, s.items = front ++ t.items ∧ (∀ x ∈ front, x.token.Complete) ∧
      R a (numbersOf front)) ∧ r (s.before ⟨.numeral digits, q, att⟩ more) = .ok (a, t.before ⟨.numeral digits, q, att⟩ more)
  | .error f => f.Wants q → (∀ x ∈ s.items, x.token ≠ .openComment → x.pos ≠ q) → s.finish = q ∧
      (∀ x ∈ s.items, x.token.Complete) ∧
      Settles digits q more (Last P more.finish) (r (s.before ⟨.numeral digits, q, att⟩ more))

namespace Gathers

variable {R : α → List Int → Prop} {Q : β → List Int → Prop} {P : α → Prop} {P' : β → Prop} {r k : Reads α}

theorem pure {a : α} (h : R a []) : Gathers digits q att more (Pure.pure a) s R P :=
  ⟨rfl, ⟨[], rfl, by simp, h⟩, rfl⟩

theorem bind {f : α → Reads β} (hr : Gathers digits q att more r s R P)
    (hf : ∀ a ns t, R a ns → Gathers digits q att more (f a) t (fun b ms => Q b (ns ++ ms)) P')
    (hend : ∀ a, P a → AtEnd (f a) (Last P')) : Gathers digits q att more (r >>= f) s Q P' := by
  unfold Gathers at hr ⊢
  cases hrs : r s with
  | error e =>
    rw [hrs] at hr
    rw [run_bind_of_error hrs]
    intro hwants havoid
    obtain ⟨hfinish, hcomplete, hsettles⟩ := hr hwants havoid
    exact ⟨hfinish, hcomplete, hsettles.bind hend⟩
  -- The second part starts where the first has read `front`, and what it reads is appended.
  | ok out =>
    obtain ⟨a, t⟩ := out
    rw [hrs] at hr
    obtain ⟨hfinish, ⟨front, hitems, hfront, hR⟩, hbefore⟩ := hr
    have hnext := hf a (numbersOf front) t hR
    unfold Gathers at hnext
    rw [run_bind_of_ok hrs, run_bind_of_ok hbefore]
    cases hft : f a t with
    | error e =>
      rw [hft] at hnext
      intro hwants havoid
      obtain ⟨hfinish', hcomplete, hsettles⟩ := hnext hwants fun x hx => havoid x (by simp [hitems, hx])
      refine ⟨hfinish ▸ hfinish', fun x hx => ?_, hsettles⟩
      rw [hitems, List.mem_append] at hx
      exact hx.elim (hfront x) (hcomplete x)
    | ok out =>
      obtain ⟨b, u⟩ := out
      rw [hft] at hnext
      obtain ⟨hfinish', ⟨front', hitems', hfront', hQ⟩, hbefore'⟩ := hnext
      refine ⟨hfinish'.trans hfinish, ⟨front ++ front', ?_, ?_, ?_⟩, hbefore'⟩
      · rw [hitems, hitems', List.append_assoc]
      · exact List.forall_mem_append.mpr ⟨hfront, hfront'⟩
      · rw [numbersOf_append]
        exact hQ

theorem imp {R' : α → List Int → Prop} (hr : Gathers digits q att more r s R P)
    (h : ∀ a ns, R a ns → R' a ns) : Gathers digits q att more r s R' P := by
  unfold Gathers at hr ⊢
  cases hrs : r s with
  | error e =>
    rw [hrs] at hr
    exact hr
  | ok out =>
    rw [hrs] at hr
    obtain ⟨hfinish, ⟨front, hitems, hfront, hR⟩, hbefore⟩ := hr
    exact ⟨hfinish, ⟨front, hitems, hfront, h _ _ hR⟩, hbefore⟩

theorem fault {f : ParseFault} (hr : r s = .error f) (hf : ¬ f.Wants q) :
    Gathers digits q att more r s R P := by
  unfold Gathers
  rw [hr]
  exact fun hwants => absurd hwants hf

theorem blamed {cause : Malformed} (hx : x ∈ s.items) (hopen : x.token ≠ .openComment)
    (hr : r s = .error (.malformed cause x.pos)) : Gathers digits q att more r s R P := by
  unfold Gathers
  rw [hr]
  intro hwants havoid
  exact absurd hwants.place_eq (havoid x hx hopen)

theorem next (hx : x.token.Complete) (hstep : ∀ u, r (.cons x u) = k u)
    (hr : Gathers digits q att more k t (fun a ns => R a (numbersOf [x] ++ ns)) P) :
    Gathers digits q att more r (.cons x t) R P := by
  unfold Gathers at hr ⊢
  rw [hstep, Lexemes.cons_before, hstep]
  cases hrs : k t with
  | error e =>
    rw [hrs] at hr
    intro hwants havoid
    obtain ⟨hfinish, hcomplete, hsettles⟩ := hr hwants fun y hy => havoid y (List.mem_cons_of_mem x hy)
    exact ⟨hfinish, List.forall_mem_cons.mpr ⟨hx, hcomplete⟩, hsettles⟩
  | ok out =>
    rw [hrs] at hr
    obtain ⟨hfinish, ⟨front, hitems, hfront, hR⟩, hbefore⟩ := hr
    exact ⟨hfinish, ⟨x :: front, congrArg (x :: ·) hitems, List.forall_mem_cons.mpr ⟨hx, hfront⟩,
      numbersOf_append [x] front ▸ hR⟩, hbefore⟩

theorem lift {e : Except ParseFault α} (hok : ∀ a, e = .ok a → R a []) (herror : ∀ f, e = .error f → ¬ f.Wants q) :
    Gathers digits q att more (monadLift e : Reads α) s R P := by
  cases e with
  | error f => exact fault rfl (herror f rfl)
  | ok a => exact pure (hok a rfl)

/-- A reader that looks ahead: at the end of the first row it finds the numeral in the second. -/
theorem peek_bind {f : Option Lexeme → Reads α}
    (hcons : ∀ x t, s = .cons x t → x.token ≠ .openComment → Gathers digits q att more (f (some x)) (.cons x t) R P)
    (hend : ∀ finish, s = ⟨[], finish⟩ →
      match f none ⟨[], finish⟩ with
      | .ok (a, t) => t = ⟨[], finish⟩ ∧ R a [] ∧ f (some ⟨.numeral digits, q, att⟩) (.cons ⟨.numeral digits, q, att⟩ more) =
          .ok (a, .cons ⟨.numeral digits, q, att⟩ more)
      | .error e => e.Wants q → finish = q ∧
          Settles digits q more (Last P more.finish)
            (f (some ⟨.numeral digits, q, att⟩) (.cons ⟨.numeral digits, q, att⟩ more))) :
    Gathers digits q att more (Parse.peek >>= f) s R P := by
  obtain ⟨items, finish⟩ := s
  cases items with
  | nil =>
    have hrow : (Parse.peek >>= f) ⟨[], finish⟩ = f none ⟨[], finish⟩ := rfl
    have hrow' : (Parse.peek >>= f) (Lexemes.before ⟨[], finish⟩ ⟨.numeral digits, q, att⟩ more) =
        f (some ⟨.numeral digits, q, att⟩) (.cons ⟨.numeral digits, q, att⟩ more) := rfl
    have h := hend finish rfl
    unfold Gathers
    rw [hrow, hrow']
    cases hf : f none ⟨[], finish⟩ with
    | error e =>
      rw [hf] at h
      intro hwants _
      exact ⟨(h hwants).1, by simp, (h hwants).2⟩
    | ok out =>
      rw [hf] at h
      obtain ⟨ht, hR, hnumeral⟩ := h
      dsimp only
      rw [ht]
      exact ⟨rfl, ⟨[], rfl, by simp, hR⟩, hnumeral⟩
  | cons x items =>
    -- An open comment is a fault before `f` gets to look at it.
    by_cases hx : x.token = .openComment
    · have hpeek : Parse.peek ⟨x :: items, finish⟩ = .error (.malformed .unterminatedComment x.pos) := if_pos hx
      exact fault (run_bind_of_error hpeek) (by simp [ParseFault.Wants])
    · have hpeek : ∀ u : Lexemes, (Parse.peek >>= f) (.cons x u) = f (some x) (.cons x u) :=
        fun u => run_bind_of_ok (if_neg hx)
      have h := hcons x ⟨items, finish⟩ rfl hx
      unfold Gathers at h ⊢
      rw [show (⟨x :: items, finish⟩ : Lexemes) = .cons x ⟨items, finish⟩ from rfl, hpeek, Lexemes.cons_before, hpeek]
      exact h

theorem peek_bind_cons {f : Option Lexeme → Reads α}
    (hnone : ∀ finish, ∃ e, f none ⟨[], finish⟩ = .error e ∧ ¬ e.Wants q)
    (hcons : ∀ x t, s = .cons x t → x.token ≠ .openComment → Gathers digits q att more (f (some x)) (.cons x t) R P) :
    Gathers digits q att more (Parse.peek >>= f) s R P := by
  refine peek_bind hcons fun finish _ => ?_
  obtain ⟨e, he, hwants⟩ := hnone finish
  rw [he]
  exact fun h => absurd h hwants

/-! ### Operands -/

theorem attached (c : Char) : Gathers digits q att more (Parse.attached c) s (fun _ ns => ns = []) (fun _ => False) := by
  obtain ⟨items, finish⟩ := s
  cases items with
  | nil => exact ⟨rfl, ⟨[], rfl, by simp, rfl⟩, by simp [Parse.attached, Lexemes.before]⟩
  | cons x items =>
    by_cases hmark : (x.attached && decide (x.token = .mark c)) = true
    · have hx : x.token = .mark c := by simpa using ((Bool.and_eq_true _ _).mp hmark).2
      refine next (x := x) (t := ⟨items, finish⟩) (k := Pure.pure true) (by simp [Token.Complete, hx])
        (fun u => if_pos hmark) ?_
      exact pure (by simp [numbersOf, Token.number?, hx])
    · have hstay : ∀ u : Lexemes, Parse.attached c (.cons x u) = .ok (false, .cons x u) := fun u => if_neg hmark
      unfold Gathers
      rw [show (⟨x :: items, finish⟩ : Lexemes) = .cons x ⟨items, finish⟩ from rfl, hstay, Lexemes.cons_before, hstay]
      exact ⟨rfl, ⟨[], rfl, by simp, rfl⟩, rfl⟩

theorem mark (c : Char) : Gathers digits q att more (Parse.mark c) s (fun _ ns => ns = []) (fun _ => False) := by
  have hquoted : ∀ pos, ¬ ParseFault.Wants q (.malformed (.expected ("'" ++ c.toString ++ "'")) pos) := by
    intro pos hwants
    simp only [ParseFault.Wants, ParseFault.malformed.injEq, Malformed.expected.injEq] at hwants
    rcases hwants with ⟨h, -⟩ | ⟨h, -⟩
    all_goals
      have := congrArg (·.toList.head?) h
      simp at this
  refine peek_bind_cons (fun finish => ⟨_, rfl, hquoted finish⟩) fun x t _ _ => ?_
  dsimp only
  split
  · rename_i hx
    exact next (k := Pure.pure ()) (by simp [Token.Complete, hx]) (fun _ => rfl)
      (pure (by simp [numbersOf, Token.number?, hx]))
  · exact fault rfl (hquoted _)

theorem plainName_cons {what : String} (hs : s.items ≠ []) :
    Gathers digits q att more (Parse.plainName what) s (fun _ ns => ns = []) (fun _ => False) := by
  refine peek_bind (fun x t hx hopen => ?_) fun finish hnil => absurd (by rw [hnil]) hs
  obtain ⟨token, pos, b⟩ := x
  cases token with
  | word name =>
    dsimp only
    split
    · exact blamed (List.mem_cons_self ..) hopen rfl
    · exact next (k := Pure.pure _) (by simp [Token.Complete]) (fun _ => rfl) (pure rfl)
  | _ => exact blamed (List.mem_cons_self ..) hopen rfl

theorem plainName {what : String} (hwhat : what ≠ "integer or variable" ∧ what ≠ "argument") :
    Gathers digits q att more (Parse.plainName what) s (fun _ ns => ns = []) (fun _ => False) := by
  obtain ⟨items, finish⟩ := s
  cases items with
  | nil => exact fault rfl (by simp [ParseFault.Wants, hwhat])
  | cons x items => exact plainName_cons (by simp)

theorem operand : Gathers digits q att more Parse.operand s (fun o ns => ns = o.numbers) (fun _ => True) := by
  refine peek_bind (fun x t hx hopen => ?_) fun finish hnil hwants => ⟨hwants.place_eq, ?_⟩
  · obtain ⟨token, pos, b⟩ := x
    cases token with
    | numeral ds =>
      refine next (k := (monadLift (literal ds pos) : Reads Nat) >>= fun n => Pure.pure (Operand.literal n))
        (by simp [Token.Complete]) (fun _ => rfl) ?_
      refine bind (R := fun n ns => n = valueOf ds ∧ ns = []) (P := fun _ => False)
        (lift (e := literal ds pos) (fun n hn => ⟨literal_eq_ok hn, rfl⟩) fun _ => not_wants_of_literal) ?_
        fun _ h => h.elim
      rintro n _ u ⟨hn, rfl⟩
      exact pure (by simp [numbersOf, Token.number?, Operand.numbers, hn])
    | _ =>
      refine bind (plainName_cons (by simp [Lexemes.cons])) ?_ fun _ h => h.elim
      rintro name _ u rfl
      exact pure rfl
  · show Settles digits q more _
      (((monadLift (literal digits q) : Reads Nat) >>= fun n => (Pure.pure (Operand.literal n) : Reads Operand)) more)
    unfold Settles
    cases hlit : literal digits q with
    | error f => rfl
    | ok n => exact fun hmore => .inl ⟨(.literal n, more), rfl, trivial, Lexemes.eq_nil hmore⟩

theorem labelName : Gathers digits q att more Parse.labelName s (fun _ ns => ns = []) (fun _ => False) := by
  refine bind (plainName (by decide)) ?_ fun _ h => h.elim
  rintro name _ t rfl
  refine bind (attached ':') ?_ fun _ h => h.elim
  rintro b _ u rfl
  exact pure rfl

theorem comparison : Gathers digits q att more Parse.comparison s (fun _ ns => ns = []) (fun _ => False) := by
  refine peek_bind_cons (fun finish => ⟨_, rfl, by simp [ParseFault.Wants]⟩) fun x t _ _ => ?_
  have hmark : ∀ {c : Char}, x.token = .mark c → x.token.Complete ∧ numbersOf [x] = [] := fun h => by
    simp [Token.Complete, numbersOf, Token.number?, h]
  obtain ⟨token, pos, b⟩ := x
  split
  · rename_i heq
    cases heq
    exact next (k := Pure.pure _) (hmark rfl).1 (fun _ => rfl) (pure (hmark rfl).2)
  · rename_i heq
    cases heq
    refine next (k := Parse.attached '=' >>= fun b => if b then Pure.pure .le else Parse.attached '>' >>= fun b =>
      if b then Pure.pure .ne else Pure.pure .lt) (hmark rfl).1 (fun _ => rfl) ?_
    refine bind (attached '=') ?_ fun _ h => h.elim
    rintro _ _ _ rfl
    split
    · exact pure (hmark rfl).2
    · refine bind (attached '>') ?_ fun _ h => h.elim
      rintro _ _ _ rfl
      split <;> exact pure (hmark rfl).2
  · rename_i heq
    cases heq
    refine next (k := Parse.attached '=' >>= fun b => if b then Pure.pure .ge else Pure.pure .gt)
      (hmark rfl).1 (fun _ => rfl) ?_
    refine bind (attached '=') ?_ fun _ h => h.elim
    rintro _ _ _ rfl
    split <;> exact pure (hmark rfl).2
  · exact fault rfl (by simp [ParseFault.Wants])

theorem operator : Gathers digits q att more Parse.operator s (fun _ ns => ns = []) (fun _ => False) := by
  refine peek_bind (fun x t _ _ => ?_) fun finish _ => ⟨rfl, rfl, rfl⟩
  obtain ⟨token, pos, b⟩ := x
  cases token with
  | mark c =>
    dsimp only
    split
    · exact next (k := Pure.pure _) (by simp [Token.Complete]) (fun _ => rfl) (pure rfl)
    · exact pure rfl
  | _ => exact pure rfl

end Gathers

/-! ### Argument lists -/

theorem argumentsFrom_lineEnd {want : Want} (hx : x.token = .lineEnd) :
    argumentsFrom want (.cons x t) = argumentsFrom want t := by
  simp [argumentsFrom, arguments, Lexemes.cons, hx]

theorem argumentsFrom_argument {want : Want} (hwant : want ≠ .separator) (hx : x.token ≠ .lineEnd)
    (hclose : want = .first → x.token ≠ .mark ')') :
    argumentsFrom want (.cons x t) = ((monadLift (argument x) : Reads RawArg) >>= fun arg =>
      argumentsFrom .separator >>= fun r => (pure (arg :: r.1, r.2) : Reads (List RawArg × Position))) t := by
  have hnext : arguments t.finish want (x :: t.items) = (argument x >>= fun arg =>
      arguments t.finish .separator t.items >>= fun r => pure (arg :: r.1, r.2.1, r.2.2)) := by
    cases want with
    | separator => exact absurd rfl hwant
    | first => simp [arguments, hx, hclose rfl]
    | argument => simp [arguments, hx]
  unfold argumentsFrom Lexemes.cons
  rw [hnext]
  cases argument x with
  | error f => rfl
  | ok arg =>
    show _ = Bind.bind (argumentsFrom .separator t) _
    unfold argumentsFrom
    dsimp only [Bind.bind, Except.bind]
    cases arguments t.finish .separator t.items <;> rfl

theorem argumentsFrom_separator (hx : x.token ≠ .lineEnd) : argumentsFrom .separator (.cons x t) =
    match x.token with
    | .mark ',' => argumentsFrom .argument t
    | .mark ')' => .ok (([], x.pos), t)
    | .openComment => .error (.malformed .unterminatedComment x.pos)
    | _ => .error (.malformed (.expected "',' or ')'") x.pos) := by
  obtain ⟨token, pos, b⟩ := x
  unfold argumentsFrom Lexemes.cons
  dsimp only
  rw [arguments, if_neg hx]
  cases token with
  | mark c =>
    by_cases hcomma : c = ','
    · subst hcomma
      rfl
    · by_cases hclose : c = ')'
      · subst hclose
        rfl
      · simp [hcomma, hclose]
  | _ => rfl

theorem argument_numbers {arg : RawArg} (h : argument x = .ok arg) :
    x.token.Complete ∧ numbersOf [x] = [arg].filterMap (·.raw.number?) := by
  obtain ⟨token, pos, b⟩ := x
  cases token with
  | numeral ds =>
    cases hn : literal ds pos with
    | error f =>
      rw [argument_of_literal_error hn] at h
      cases h
    | ok n =>
      rw [argument_of_literal hn] at h
      cases h
      simp [Token.Complete, numbersOf, Token.number?, Raw.number?, Text.Numeral.ofNat, literal_eq_ok hn]
  | text cs =>
    cases h
    simp [Token.Complete, numbersOf, Token.number?, Raw.number?]
  | word name =>
    cases h
    simp [Token.Complete, numbersOf, Token.number?, Raw.number?]
  | _ => cases h

theorem argument_eq_error {f : ParseFault} (h : argument x = .error f) :
    ¬ f.Wants q ∨ x.token ≠ .openComment ∧ ∃ cause, f = .malformed cause x.pos := by
  obtain ⟨token, pos, b⟩ := x
  cases token with
  | numeral ds =>
    left
    cases hlit : literal ds pos with
    | error e =>
      rw [argument_of_literal_error hlit] at h
      cases h
      exact not_wants_of_literal hlit
    | ok n =>
      rw [argument_of_literal hlit] at h
      cases h
  | openText =>
    cases h
    exact .inl (by simp [ParseFault.Wants])
  | openComment =>
    cases h
    exact .inl (by simp [ParseFault.Wants])
  | lineEnd =>
    cases h
    exact .inr ⟨by simp, _, rfl⟩
  | mark c =>
    cases h
    exact .inr ⟨by simp, _, rfl⟩
  | _ => cases h

theorem Settles.argumentsFrom {want : Want} (hwant : want ≠ .separator) {C : List RawArg × Position → Prop} :
    Settles digits q more (Last C more.finish) (Parse.argumentsFrom want (.cons ⟨.numeral digits, q, att⟩ more)) := by
  rw [argumentsFrom_argument hwant (by simp) (by simp)]
  unfold Settles
  cases hlit : literal digits q with
  | error f =>
    rw [argument_of_literal_error hlit]
    rfl
  | ok n =>
    intro hmore
    rw [argument_of_literal hlit]
    rw [Lexemes.eq_nil hmore]
    exact .inr ⟨_, rfl⟩

theorem Gathers.argumentsFrom (want : Want) : Gathers digits q att more (Parse.argumentsFrom want) s
    (fun r ns => ns = r.1.filterMap (·.raw.number?)) (fun _ => False) := by
  obtain ⟨items, finish⟩ := s
  -- Line ends are skipped; all else goes by what the list wants next.
  induction items generalizing want with
  | nil =>
    by_cases hwant : want = .separator
    · subst hwant
      exact fault rfl (by simp [ParseFault.Wants, Want.describe])
    · exact fun hwants _ => ⟨hwants.place_eq, by simp, Settles.argumentsFrom hwant⟩
  | cons x items ih =>
    by_cases hline : x.token = .lineEnd
    · refine next (x := x) (t := ⟨items, finish⟩) (by simp [Token.Complete, hline])
        (fun u => argumentsFrom_lineEnd hline) ?_
      exact (ih want).imp fun r ns hns => by simp [numbersOf, Token.number?, hline, hns]
    · by_cases hwant : want = .separator
      · subst hwant
        have hstep := fun u => argumentsFrom_separator (t := u) hline
        obtain ⟨token, pos, b⟩ := x
        dsimp only at hstep
        split at hstep
        · refine next (t := ⟨items, finish⟩) (by simp [Token.Complete]) hstep ?_
          exact (ih .argument).imp fun r ns hns => by simp [numbersOf, Token.number?, hns]
        · exact next (t := ⟨items, finish⟩) (k := Pure.pure ([], pos)) (by simp [Token.Complete]) hstep (pure rfl)
        · exact fault (hstep ⟨items, finish⟩) (by simp [ParseFault.Wants])
        · exact fault (hstep ⟨items, finish⟩) (by simp [ParseFault.Wants])
      · by_cases hclose : want = .first ∧ x.token = .mark ')'
        · obtain ⟨rfl, hx⟩ := hclose
          refine next (x := x) (t := ⟨items, finish⟩) (k := Pure.pure ([], x.pos.after ')')) (by simp [Token.Complete, hx])
            (fun u => ?_) (pure (by simp [numbersOf, Token.number?, hx]))
          simp only [Parse.argumentsFrom, Lexemes.cons, arguments, hx]
          rfl
        · have hstep := fun u => argumentsFrom_argument (t := u) hwant hline (not_and.mp hclose)
          cases harg : argument x with
          | error f =>
            rw [harg] at hstep
            rcases argument_eq_error (q := q) harg with hwants | ⟨hopen, cause, rfl⟩
            · exact fault (hstep ⟨items, finish⟩) hwants
            · exact blamed (List.mem_cons_self ..) hopen (hstep ⟨items, finish⟩)
          | ok arg =>
            rw [harg] at hstep
            obtain ⟨hcomplete, hnumbers⟩ := argument_numbers harg
            refine next (t := ⟨items, finish⟩) (k := Parse.argumentsFrom .separator >>= fun r => Pure.pure (arg :: r.1, r.2))
              hcomplete hstep ?_
            refine bind (ih .separator) ?_ fun _ h => h.elim
            rintro r _ u rfl
            refine pure ?_
            rw [hnumbers, List.append_nil]
            exact List.filterMap_append.symm

/-! ### Statements -/

namespace Gathers

theorem condition : Gathers digits q att more Parse.condition s (fun a ns => ns = a.numbers) (fun _ => True) := by
  refine bind operand ?_ fun _ _ _ => .inr ⟨_, rfl⟩
  rintro lhs _ t rfl
  refine bind comparison ?_ fun _ h => h.elim
  rintro op _ t rfl
  refine bind operand ?_ fun _ _ _ => .inr ⟨_, rfl⟩
  rintro rhs _ t rfl
  refine peek_bind_cons (fun finish => ⟨_, rfl, by simp [ParseFault.Wants, Keyword.spelling]⟩) fun x u _ _ => ?_
  split
  · rename_i heq
    cases heq
    split
    · exact next (k := Pure.pure _) (by simp [Token.Complete]) (fun _ => rfl)
        (pure (by simp [Action.numbers, numbersOf, Token.number?]))
    · exact fault rfl (by simp [ParseFault.Wants, Keyword.spelling])
  · exact fault rfl (by simp [ParseFault.Wants, Keyword.spelling])

theorem assignment : Gathers digits q att more Parse.assignment s (fun a ns => ns = a.numbers) (fun _ => True) := by
  refine bind (plainName (by decide)) ?_ fun _ h => h.elim
  rintro ⟨var, pos⟩ _ t rfl
  refine bind (mark '=') ?_ fun _ h => h.elim
  rintro _ _ t rfl
  refine bind operand ?_ fun _ _ _ => .inl ⟨_, rfl, trivial, rfl⟩
  rintro first _ t rfl
  refine bind operator ?_ fun _ h => h.elim
  rintro op _ t rfl
  cases op with
  | none => exact pure (by simp [Action.numbers])
  | some op =>
    refine bind operand ?_ fun _ _ _ => .inl ⟨_, rfl, trivial, rfl⟩
    rintro second _ t rfl
    exact pure (by simp [Action.numbers])

theorem call (c : Command) (pos : Position) :
    Gathers digits q att more (Parse.call c pos) s (fun r ns => ns = r.1.numbers) (fun _ => True) := by
  refine bind (mark '(') ?_ fun _ h => h.elim
  rintro _ _ t rfl
  refine bind (argumentsFrom .first) ?_ fun _ h => h.elim
  rintro ⟨args, endPos⟩ _ t rfl
  dsimp only
  cases hargs : c.checkArguments args endPos with
  | ok out =>
    refine pure ?_
    have hkeeps := Translation.KeepsNumbers.language c.signature args out ((c.decides args endPos).ok out |>.mp hargs)
    simp [Action.numbers, hkeeps]
  | error e =>
    obtain ⟨cause, place⟩ := e
    refine fault rfl ?_
    rintro (h | h)
    all_goals
      obtain ⟨rfl, -⟩ := ParseFault.malformed.inj h
      exact Command.checkArguments_ne_expected hargs

theorem statement (k : Keyword) (name : String) (pos : Position) :
    Gathers digits q att more (Parse.statement k name pos) s (fun r ns => ns = r.1.numbers) (fun _ => True) := by
  cases k with
  | goto =>
    refine bind labelName ?_ fun _ h => h.elim
    rintro target _ t rfl
    exact pure rfl
  | gosub =>
    refine bind labelName ?_ fun _ h => h.elim
    rintro target _ t rfl
    exact pure rfl
  | back => exact pure rfl
  | finish => exact pure rfl
  | cond =>
    refine bind condition ?_ fun _ _ _ => .inl ⟨_, rfl, trivial, rfl⟩
    rintro a _ t rfl
    exact pure (by simp)
  | assign =>
    refine bind assignment ?_ fun _ _ _ => .inl ⟨_, rfl, trivial, rfl⟩
    rintro a _ t rfl
    exact pure (by simp)
  | andThen => exact fault rfl (by simp [ParseFault.Wants])
  | command c =>
    unfold Parse.statement
    dsimp only
    split
    · exact pure rfl
    · exact call c pos

end Gathers

/-! ### Programs -/

theorem Draft.numbers_push {d e : Draft} {a : Action} {pos : Position} (hlines : e.lines = d.lines)
    (hline : e.line = ⟨a, pos⟩ :: d.line) : e.numbers = d.numbers ++ a.numbers := by
  simp [Draft.numbers, Draft.statements, hlines, hline]

theorem Draft.numbers_endLine {d : Draft} : d.endLine.numbers = d.numbers := by
  simp [Draft.numbers]

theorem Draft.not_wants_of_addLabel {pedantic : Bool} {d : Draft} {name : String} {pos : Position} {f : ParseFault}
    (h : d.addLabel pedantic name pos = .error f) : ¬ f.Wants q := by
  unfold Draft.addLabel at h
  dsimp only at h
  split at h
  · cases h
    simp [ParseFault.Wants]
  · split at h
    · cases h
      simp [ParseFault.Wants]
    · split at h
      · cases h
        simp [ParseFault.Wants]
      · cases h

namespace Gathers

theorem afterWord {pedantic : Bool} {d : Draft} {name : String} {pos : Position} : Gathers digits q att more
    (Parse.afterWord pedantic d name pos) s (fun e ns => e.numbers = d.numbers ++ ns) (fun _ => True) := by
  refine bind (attached ':') ?_ fun _ h => h.elim
  rintro colon _ t rfl
  split
  · refine lift (fun e he => ?_) fun f => Draft.not_wants_of_addLabel
    obtain ⟨-, -, -, rfl⟩ := Draft.addLabel_eq_ok.mp he
    exact Draft.numbers_push (a := .label name) rfl rfl
  · cases Keyword.ofName? name with
    | none => exact fault rfl (by simp [ParseFault.Wants])
    | some k =>
      refine bind (statement k name pos) ?_ fun _ _ _ => .inl ⟨_, rfl, trivial, rfl⟩
      rintro ⟨a, refs⟩ _ u rfl
      refine pure ?_
      rw [List.append_nil, List.nil_append]
      exact Draft.numbers_push rfl rfl

theorem command {pedantic : Bool} {d : Draft} : Gathers digits q att more (Parse.command pedantic d x) s
    (fun e ns => x.token.Complete ∧ e.numbers = d.numbers ++ (numbersOf [x] ++ ns)) (fun _ => True) := by
  obtain ⟨token, pos, b⟩ := x
  cases token with
  | lineEnd => exact pure ⟨by simp [Token.Complete], by simp [numbersOf, Token.number?, Draft.numbers_endLine]⟩
  | word name => exact afterWord.imp fun e ns he => ⟨by simp [Token.Complete], he⟩
  | _ => exact fault rfl (by simp [ParseFault.Wants])

end Gathers

theorem complete_of_wants {pedantic : Bool} {d : Draft} {f : ParseFault} (h : command pedantic d x s = .error f)
    (hf : f.Wants q) : x.token.Complete := by
  obtain ⟨token, pos, b⟩ := x
  cases token with
  | word name => simp [Token.Complete]
  | lineEnd => simp [Token.Complete]
  | _ =>
    cases h
    simp [ParseFault.Wants] at hf

/-- A text that breaks off for want of an operand or an argument leaves it to the numeral behind it. -/
theorem commands_gathers (digits : List Char) (q : Position) (att : Bool) (more : Lexemes) (pedantic : Bool) (d : Draft)
    (s : Lexemes) :
    match commands pedantic d s with
    | .ok e => (∀ x ∈ s.items, x.token.Complete) ∧ e.numbers = d.numbers ++ numbersOf s.items
    | .error f => f.Wants q → (∀ x ∈ s.items, x.token ≠ .openComment → x.pos ≠ q) →
        s.finish = q ∧ (∀ x ∈ s.items, x.token.Complete) ∧
        Settles digits q more (fun _ => True) (commands pedantic d (s.before ⟨.numeral digits, q, att⟩ more)) := by
  -- On the length of the row, since one command may take many lexemes.
  induction hn : s.items.length using Nat.strong_induction_on generalizing d s with
  | _ n ih =>
    obtain ⟨items, finish⟩ := s
    cases items with
    | nil =>
      rw [commands]
      exact ⟨by simp, by simp [Draft.numbers_endLine, numbersOf]⟩
    | cons x items =>
      rw [show (⟨x :: items, finish⟩ : Lexemes) = .cons x ⟨items, finish⟩ from rfl, commands_cons, Lexemes.cons_before,
        commands_cons]
      have hgathers : Gathers digits q att more (command pedantic d x) ⟨items, finish⟩
        (fun e ns => x.token.Complete ∧ e.numbers = d.numbers ++ (numbersOf [x] ++ ns)) (fun _ => True) := Gathers.command
      unfold Gathers at hgathers
      cases hstep : command pedantic d x ⟨items, finish⟩ with
      | error f =>
        rw [hstep] at hgathers
        intro hwants havoid
        obtain ⟨hfinish, hcomplete, hsettles⟩ := hgathers hwants fun y hy => havoid y (List.mem_cons_of_mem x hy)
        refine ⟨hfinish, List.forall_mem_cons.mpr ⟨complete_of_wants hstep hwants, hcomplete⟩, ?_⟩
        refine hsettles.bind (f := commands pedantic) (C := fun _ _ => True) fun e _ finish => .inl ⟨e.endLine, ?_, trivial⟩
        rw [commands]
      | ok out =>
        obtain ⟨e, t⟩ := out
        rw [hstep] at hgathers
        obtain ⟨hfinish, ⟨front, hitems, hfront, hx, hnumbers⟩, hbefore⟩ := hgathers
        rw [hbefore]
        have hlt : t.items.length < n := by
          simp only [List.length_cons] at hn
          have := congrArg List.length hitems
          simp only [List.length_append] at this
          omega
        have hrest := ih t.items.length hlt (d := e) (s := t) rfl
        have hrow : (Lexemes.cons x ⟨items, finish⟩).items = [x] ++ front ++ t.items := congrArg (x :: ·) hitems
        have hall : (∀ y ∈ t.items, y.token.Complete) → ∀ y ∈ (Lexemes.cons x ⟨items, finish⟩).items, y.token.Complete := by
          intro ht
          rw [hrow]
          exact List.forall_mem_append.mpr ⟨List.forall_mem_cons.mpr ⟨hx, hfront⟩, ht⟩
        show match commands pedantic e t with | .ok e => _ | .error f => _
        cases hr : commands pedantic e t with
        | ok r =>
          rw [hr] at hrest
          refine ⟨hall hrest.1, ?_⟩
          rw [hrest.2, hnumbers, hrow, numbersOf_append, numbersOf_append, List.append_assoc]
        | error f =>
          rw [hr] at hrest
          intro hwants havoid
          obtain ⟨hfinish', hcomplete, hsettles⟩ := hrest hwants fun y hy => havoid y (by simp [hrow, hy])
          exact ⟨hfinish.symm.trans hfinish', hall hcomplete, hsettles⟩

end Parse

end GraphicsBatch
