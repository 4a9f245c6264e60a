import GraphicsBatch.Proofs.Tracking

/-!
# Programs of sources that are alike

Sources whose lexemes are alike are both read or both refused. Their programs have the same labels and groups, and
statements that correspond one by one.
-/

namespace GraphicsBatch

open Source

theorem forall₂_find? {α β : Type} {R : α → β → Prop} {f : α → Bool} {g : β → Bool} {xs : List α} {ys : List β}
    (h : List.Forall₂ R xs ys) (hfg : ∀ x y, R x y → f x = g y) : Option.Rel R (xs.find? f) (ys.find? g) := by
  induction h with
  | nil => exact .none
  | @cons x y xs ys hxy _ ih =>
    rw [List.find?_cons, List.find?_cons, hfg x y hxy]
    split
    · exact .some hxy
    · exact ih

namespace Likeness

variable (lk : Likeness)

structure ProgramLike (p q : Program) : Prop where
  statements : List.Forall₂ lk.StatementLike p.statements.toList q.statements.toList
  labels : p.labels = q.labels
  groups : p.groups = q.groups

variable {lk} {lines lines' : List (List Statement)}

/-! ## Laying out -/

theorem StatementLike.skippingTo {x y : Statement} (h : lk.StatementLike x y) (t : Nat) :
    lk.StatementLike (x.skippingTo t) (y.skippingTo t) := by
  obtain ⟨action, pos⟩ := x
  obtain ⟨action', pos'⟩ := y
  obtain ⟨haction, hpos⟩ := h
  cases haction with
  | cond op _ hx hy => exact ⟨.cond op t hx hy, hpos⟩
  | label hab => exact ⟨.label hab, hpos⟩
  | call c hargs => exact ⟨.call c hargs, hpos⟩
  | plain c => exact ⟨.plain c, hpos⟩
  | goto hab => exact ⟨.goto hab, hpos⟩
  | gosub hab => exact ⟨.gosub hab, hpos⟩
  | back => exact ⟨.back, hpos⟩
  | finish => exact ⟨.finish, hpos⟩
  | assign hab he => exact ⟨.assign hab he, hpos⟩

theorem ActionLike.labelKey?_eq {x y : Action} (h : lk.ActionLike x y) : x.labelKey? = y.labelKey? := by
  cases h with
  | label hab => simp only [Action.labelKey?, lk.upper_eq hab]
  | _ => rfl

theorem statementsFrom_like (h : List.Forall₂ (List.Forall₂ lk.StatementLike) lines lines') (start : Nat) :
    List.Forall₂ lk.StatementLike (Program.statementsFrom start lines) (Program.statementsFrom start lines') := by
  induction h generalizing start with
  | nil => exact .nil
  | cons hline _ ih =>
    simp only [Program.statementsFrom, hline.length_eq]
    refine List.rel_append ?_ (ih _)
    rw [List.forall₂_map_left_iff, List.forall₂_map_right_iff]
    exact hline.imp fun _ _ hxy => hxy.skippingTo _

theorem groupsFrom_like (h : List.Forall₂ (List.Forall₂ lk.StatementLike) lines lines') (start : Nat) :
    Program.groupsFrom start lines = Program.groupsFrom start lines' := by
  induction h generalizing start with
  | nil => rfl
  | @cons line line' lines lines' hline _ ih =>
    have hempty : line.isEmpty = line'.isEmpty := by
      cases hline with
      | nil => rfl
      | cons _ _ => rfl
    simp only [Program.groupsFrom, hline.length_eq, hempty, ih]

theorem labelsFrom_like {sts sts' : List Statement} (h : List.Forall₂ lk.StatementLike sts sts') (start : Nat) :
    Program.labelsFrom start sts = Program.labelsFrom start sts' := by
  induction h generalizing start with
  | nil => rfl
  | cons hst _ ih =>
    rw [Program.labelsFrom_cons, Program.labelsFrom_cons, hst.action.labelKey?_eq, ih]

theorem flatten_like (h : List.Forall₂ (List.Forall₂ lk.StatementLike) lines lines') :
    List.Forall₂ lk.StatementLike lines.flatten lines'.flatten := by
  induction h with
  | nil => exact .nil
  | cons hline _ ih => exact List.rel_append hline ih

theorem ofLines_like (h : List.Forall₂ (List.Forall₂ lk.StatementLike) lines lines') :
    lk.ProgramLike (.ofLines lines) (.ofLines lines') where
  statements := statementsFrom_like h 0
  labels := labelsFrom_like (flatten_like h) 0
  groups := groupsFrom_like h 0

/-! ## Reading -/

theorem DraftLike.close {d d' : Parse.Draft} (h : lk.DraftLike d d') :
    Agree True lk.FaultLike lk.ProgramLike d.close d'.close := by
  have hblame := forall₂_find? (f := fun r => !d.labels.contains (Text.upper r.1))
    (g := fun r => !d'.labels.contains (Text.upper r.1)) (List.forall₂_reverse_iff.mpr h.references)
    (by rintro x y ⟨hword, -⟩; rw [h.labels, lk.upper_eq hword])
  unfold Parse.Draft.close
  revert hblame
  generalize (d.references.reverse.find? fun r => !d.labels.contains (Text.upper r.1)) = blamed
  generalize (d'.references.reverse.find? fun r => !d'.labels.contains (Text.upper r.1)) = blamed'
  intro hblame
  cases hblame with
  | some hr => exact fun _ => hr.2
  | none => exact ofLines_like (List.forall₂_reverse_iff.mpr h.lines)

/-- Lexemes that are alike throughout, the ends of both rows included. -/
structure LexemesLike (lk : Likeness) (s s' : Lexemes) : Prop where
  items : List.Forall₂ lk.LexemeLike s.items s'.items
  finish : lk.place s.finish s'.finish

theorem commands_agree {pedantic : Bool} {s s' : Lexemes} (hs : lk.LexemesLike s s')
    (hcol : ∀ p q, lk.place p q → pedantic = true → p.col = q.col) :
    Agree True lk.FaultLike lk.DraftLike (Parse.commands pedantic {} s) (Parse.commands pedantic {} s') := by
  have hahead : lk.Ahead ⟨[], s'.finish⟩ s s' := ⟨⟨s'.items, hs.items, by simp⟩, rfl, fun _ => hs.finish⟩
  have hempty : lk.DraftLike {} {} := ⟨.nil, .nil, rfl, .nil⟩
  have hlike := commands_like hcol (by simp) hempty hahead
  cases hr : Parse.commands pedantic {} s with
  | ok r =>
    rw [hr] at hlike
    obtain ⟨-, e, e', rfl, he, hrun⟩ := hlike
    rw [hrun, Parse.commands]
    exact he.endLine
  | error f =>
    rw [hr] at hlike
    obtain ⟨f', hf', hlike⟩ := hlike rfl
    rw [hf']
    exact fun _ => hlike

theorem parse_agree {a b : String} {pedantic : Bool} (h : lk.LexemesLike (.ofText a.toList) (.ofText b.toList))
    (hcol : ∀ p q, lk.place p q → pedantic = true → p.col = q.col) :
    Agree True lk.FaultLike lk.ProgramLike (Program.parse a pedantic) (Program.parse b pedantic) :=
  Agree.bind (commands_agree h hcol) fun _ _ hd => hd.close

end Likeness

end GraphicsBatch
