import GraphicsBatch.Proofs.Parsed

/-!
# Argument lists that are alike

Two sources are alike if they differ only in the places of their lexemes and in the spelling of their words, as long as
words that correspond are the same in upper case. Checking an argument list takes no notice of either.
-/

namespace GraphicsBatch

/-! ## Results that agree -/

section

variable {ε ε' α α' β β' : Type} {strict : Prop} {E : ε → ε' → Prop} {R : α → α' → Prop} {Q : β → β' → Prop}

/-- Where one result is a value the other one is, and the values are related. If the comparison is strict, the same
holds of errors. -/
def Agree (strict : Prop) (E : ε → ε' → Prop) (R : α → α' → Prop) : Except ε α → Except ε' α' → Prop
  | .ok a, .ok a' => R a a'
  | .error e, .error e' => strict → E e e'
  | .error _, .ok _ => ¬ strict
  | .ok _, .error _ => False

namespace Agree

theorem bind {x : Except ε α} {x' : Except ε' α'} {f : α → Except ε β} {f' : α' → Except ε' β'}
    (hx : Agree strict E R x x') (hf : ∀ a a', R a a' → Agree strict E Q (f a) (f' a')) :
    Agree strict E Q (x >>= f) (x' >>= f') := by
  cases x with
  | ok a =>
    cases x' with
    | ok a' => exact hf a a' hx
    | error e' => exact hx.elim
  | error e =>
    cases x' with
    | error e' => exact hx
    | ok a' =>
      show Agree strict E Q (.error e) (f' a')
      cases f' a' with
      | ok b' => exact hx
      | error e' => exact fun hstrict => absurd hstrict hx

theorem mono {x : Except ε α} {x' : Except ε' α'} {R' : α → α' → Prop} (h : Agree strict E R x x')
    (hR : ∀ a a', R a a' → R' a a') : Agree strict E R' x x' := by
  cases x with
  | ok a =>
    cases x' with
    | ok a' => exact hR a a' h
    | error e' => exact h
  | error e => cases x' <;> exact h

theorem weaken {x : Except ε α} {x' : Except ε' α'} (h : Agree True E R x x') : Agree strict E R x x' := by
  cases x with
  | ok a =>
    cases x' with
    | ok a' => exact h
    | error e' => exact h
  | error e =>
    cases x' with
    | ok a' => exact absurd trivial h
    | error e' => exact fun _ => h trivial

theorem of_not_strict {e : ε} {x' : Except ε' α'} (h : ¬ strict) : Agree strict E R (.error e) x' := by
  cases x' with
  | ok a' => exact h
  | error e' => exact fun hstrict => absurd hstrict h

theorem of_ok {a : α} {x' : Except ε' α'} (h : Agree strict E R (.ok a) x') : ∃ a', x' = .ok a' ∧ R a a' := by
  cases x' with
  | ok a' => exact ⟨a', rfl, h⟩
  | error e' => exact h.elim

theorem of_error {e : ε} {x' : Except ε' α'} (h : Agree True E R (.error e) x') : ∃ e', x' = .error e' ∧ E e e' := by
  cases x' with
  | ok a' => exact absurd trivial h
  | error e' => exact ⟨e', rfl, h trivial⟩

theorem cases {x : Except ε α} {x' : Except ε' α'} (h : Agree strict E R x x') :
    (∃ a a', x = .ok a ∧ x' = .ok a' ∧ R a a') ∨ (∃ e e', x = .error e ∧ x' = .error e' ∧ (strict → E e e')) ∨
      ∃ e a', x = .error e ∧ x' = .ok a' ∧ ¬ strict := by
  cases x with
  | ok a =>
    cases x' with
    | ok a' => exact .inl ⟨a, a', rfl, rfl, h⟩
    | error e' => exact h.elim
  | error e =>
    cases x' with
    | ok a' => exact .inr (.inr ⟨e, a', rfl, rfl, h⟩)
    | error e' => exact .inr (.inl ⟨e, e', rfl, rfl, h⟩)

end Agree

end

/-! ## What is alike -/

open Source

/-- Which words count alike, and which places. -/
structure Likeness where
  word : String → String → Prop
  place : Position → Position → Prop
  upper_eq {a b : String} : word a b → Text.upper a = Text.upper b
  place_after {p q : Position} (c : Char) : place p q → place (p.after c) (q.after c)

namespace Likeness

variable (lk : Likeness)

theorem isReserved_eq {a b : String} (h : lk.word a b) : isReserved a = isReserved b := by
  unfold isReserved
  rw [lk.upper_eq h]

inductive RawLike : Raw → Raw → Prop where
  | integer (n : Text.Numeral) : RawLike (.integer n) (.integer n)
  | text (s : String) : RawLike (.text s) (.text s)
  | name {a b : String} : lk.word a b → RawLike (.name a) (.name b)

structure RawArgLike (x y : RawArg) : Prop where
  raw : lk.RawLike x.raw y.raw
  pos : lk.place x.pos y.pos

inductive ValueLike : Value → Value → Prop where
  | int (n : Int) : ValueLike (.int n) (.int n)
  | text (s : String) : ValueLike (.text s) (.text s)
  | token (t : String) : ValueLike (.token t) (.token t)
  | key (k : PhysicalKey) : ValueLike (.key k) (.key k)
  | var {a b : String} : lk.word a b → ValueLike (.var a) (.var b)
  | label {a b : String} : lk.word a b → ValueLike (.label a) (.label b)

structure ArgumentLike (x y : Argument) : Prop where
  kind : x.kind = y.kind
  value : lk.ValueLike x.value y.value

/-- Fits that agree: the same values up to spelling, or faults at places that correspond. -/
def FitLike {α : Type} (R : α → α → Prop) : Fit α → Fit α → Prop :=
  Agree True (fun e e' => lk.place e.2 e'.2) R

/-! ## Argument lists -/

variable {lk}

theorem convert_like (slot : Slot) {x y : RawArg} (h : lk.RawArgLike x y) :
    lk.FitLike lk.ValueLike (slot.convert x) (slot.convert y) := by
  obtain ⟨xraw, xpos⟩ := x
  obtain ⟨yraw, ypos⟩ := y
  obtain ⟨hraw, hpos⟩ := h
  have hfault : ∀ cause cause' : Malformed,
      lk.FitLike lk.ValueLike (.error (cause, xpos)) (.error (cause', ypos)) := fun _ _ _ => hpos
  obtain ⟨kind, choices⟩ := slot
  -- Both readings go by the upper case of a name and by whether it is reserved, where like names agree.
  cases hraw with
  | integer n =>
    cases kind with
    | integer | key => exact .int n.value
    | _ => exact hfault _ _
  | text s =>
    cases kind with
    | string => exact .text s
    | key =>
      simp only [Slot.convert]
      cases readPhysicalKey s with
      | some k => exact .key k
      | none => exact hfault _ _
    | _ => exact hfault _ _
  | name hab =>
    rename_i a b
    cases kind with
    | token =>
      simp only [Slot.convert, lk.upper_eq hab]
      split
      · exact .token _
      · exact hfault _ _
    | string => exact hfault _ _
    | label =>
      simp only [Slot.convert, lk.upper_eq hab, lk.isReserved_eq hab]
      split
      · exact .token _
      split
      · exact hfault _ _
      · exact .label hab
    | _ =>
      simp only [Slot.convert, lk.upper_eq hab, lk.isReserved_eq hab]
      split
      · exact .token _
      split
      · exact hfault _ _
      · exact .var hab

theorem convertAll_like (slots : List Slot) {xs ys : List RawArg} (h : List.Forall₂ lk.RawArgLike xs ys) :
    lk.FitLike (List.Forall₂ lk.ArgumentLike) (convertAll slots xs) (convertAll slots ys) := by
  induction slots generalizing xs ys with
  | nil => cases h <;> exact .nil
  | cons slot slots ih =>
    cases h with
    | nil => exact .nil
    | cons hxy hrest =>
      refine Agree.bind (convert_like slot hxy) fun v v' hv => ?_
      refine Agree.bind (ih hrest) fun vs vs' hvs => ?_
      exact .cons ⟨rfl, hv⟩ hvs

theorem menuToken?_eq {x y : Raw} (h : lk.RawLike x y) : menuToken? x = menuToken? y := by
  cases h with
  | integer n => rfl
  | text s => rfl
  | name hab => simp only [menuToken?, lk.upper_eq hab]

theorem checkMenu_like {endPos endPos' : Position} (hend : lk.place endPos endPos') {stage : MenuStage}
    {xs ys : List RawArg} (h : List.Forall₂ lk.RawArgLike xs ys) :
    lk.FitLike (List.Forall₂ lk.ArgumentLike) (checkMenu endPos stage xs) (checkMenu endPos' stage ys) := by
  induction h generalizing stage with
  | nil =>
    cases stage with
    | header => exact .nil
    | _ => exact fun _ => hend
  | cons hxy _ ih =>
    rename_i x y xs ys _
    have hslot : stage.slot x = stage.slot y := by
      unfold MenuStage.slot
      rw [menuToken?_eq hxy.raw]
    have hnext : stage.next x = stage.next y := by
      unfold MenuStage.next
      rw [menuToken?_eq hxy.raw]
    simp only [checkMenu, hslot, hnext]
    refine Agree.bind (convert_like _ hxy) fun v v' hv => ?_
    refine Agree.bind ih fun vs vs' hvs => ?_
    exact .cons ⟨rfl, hv⟩ hvs

theorem tooMany_like (c : Command) {xs ys : List RawArg} (h : List.Forall₂ lk.RawArgLike xs ys) (n : Nat)
    {r r' : Fit (List Argument)} (hr : lk.FitLike (List.Forall₂ lk.ArgumentLike) r r') :
    lk.FitLike (List.Forall₂ lk.ArgumentLike)
      (match xs[n]?.map (·.pos) with
        | some pos => .error (.tooManyArguments c.name, pos)
        | none => r)
      (match ys[n]?.map (·.pos) with
        | some pos => .error (.tooManyArguments c.name, pos)
        | none => r') := by
  have hlen := h.length_eq
  by_cases hn : n < xs.length
  · rw [List.getElem?_eq_getElem hn, List.getElem?_eq_getElem (hlen ▸ hn)]
    exact fun _ => (h.get hn (hlen ▸ hn)).pos
  · rw [List.getElem?_eq_none (by omega), List.getElem?_eq_none (by omega)]
    exact hr

theorem checkArguments_like (c : Command) {endPos endPos' : Position} (hend : lk.place endPos endPos')
    {xs ys : List RawArg} (h : List.Forall₂ lk.RawArgLike xs ys) :
    lk.FitLike (List.Forall₂ lk.ArgumentLike) (c.checkArguments xs endPos) (c.checkArguments ys endPos') := by
  have hlen := h.length_eq
  unfold Command.checkArguments
  cases c.signature with
  | plain => exact fun _ => hend
  | fixed slots =>
    refine tooMany_like c h _ ?_
    rw [hlen]
    split
    · exact fun _ => hend
    · exact convertAll_like slots h
  | optional slots => exact tooMany_like c h _ (convertAll_like slots h)
  | repeating group =>
    dsimp only
    rw [hlen]
    split
    · exact fun _ => hend
    · exact convertAll_like _ h
  | menu => exact checkMenu_like hend h

end Likeness

end GraphicsBatch
