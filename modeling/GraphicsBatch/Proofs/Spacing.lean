import GraphicsBatch.Proofs.Revised

/-!
# Spacing

Blanks and comments only separate what stands around them: where there is a gap, any other gap will do, and the program
is the same but for the places of its statements.
-/

namespace GraphicsBatch

open Source

/-- A text and the same text with other gaps. -/
abbrev Source.Respaced : List Char → List Char → Prop := Revised (fun _ _ => True) Eq

/-- The same words at any places. -/
def Likeness.anywhere : Likeness where
  word := Eq
  place _ _ := True
  upper_eq h := congrArg Text.upper h
  place_after _ _ := trivial

theorem Likeness.anywhere_allows : Likeness.anywhere.Allows (fun _ _ => True) Eq where
  place_gap _ _ := trivial
  char_cases h := .inl h
  word h := by
    rw [List.forall₂_eq_eq_eq] at h
    rw [h]
    rfl

theorem Likeness.ProgramLike.actions_eq {lk : Likeness} (hword : ∀ a b, lk.word a b → a = b) {p q : Program}
    (h : lk.ProgramLike p q) : p.statements.map (·.action) = q.statements.map (·.action) := by
  have hactions : ∀ {xs ys : List Statement}, List.Forall₂ lk.StatementLike xs ys →
      xs.map (·.action) = ys.map (·.action) := by
    intro xs ys hxy
    induction hxy with
    | nil => rfl
    | cons hst _ ih => rw [List.map_cons, List.map_cons, hst.action.eq hword, ih]
  apply Array.toList_inj.mp
  rw [Array.toList_map, Array.toList_map, hactions h.statements]

/-- Both texts are read or neither is, and what is read differs in the places of statements only. -/
theorem Program.parse_respaced {s s' : String} (hs : ¬ ['\r', '\n'] <:+: s.toList) (hs' : ¬ ['\r', '\n'] <:+: s'.toList)
    (h : Respaced s.toList s'.toList) :
    ((∃ p, Program.parse s false = .ok p) ↔ ∃ q, Program.parse s' false = .ok q) ∧
      ∀ p q, Program.parse s false = .ok p → Program.parse s' false = .ok q →
        p.statements.map (·.action) = q.statements.map (·.action) ∧ p.labels = q.labels ∧ p.groups = q.groups := by
  have hlexemes : Likeness.anywhere.LexemesLike (.ofText s.toList) (.ofText s'.toList) := by
    unfold Lexemes.ofText
    rw [normalize_eq_self hs, normalize_eq_self hs']
    exact Likeness.anywhere_allows.lexemes_revised ⟨trivial, h⟩
  -- Columns do not count where nothing has to start a line.
  have hagree : Agree True _ _ (Program.parse s false) (Program.parse s' false) :=
    Likeness.parse_agree hlexemes fun _ _ _ hpedantic => by cases hpedantic
  rcases hagree.cases with ⟨p, q, hp, hq, hlike⟩ | ⟨e, e', he, he', -⟩ | ⟨_, _, _, _, hstrict⟩
  · refine ⟨⟨fun _ => ⟨q, hq⟩, fun _ => ⟨p, hp⟩⟩, fun p' q' hp' hq' => ?_⟩
    obtain rfl : p = p' := Except.ok.inj (hp.symm.trans hp')
    obtain rfl : q = q' := Except.ok.inj (hq.symm.trans hq')
    exact ⟨hlike.actions_eq fun _ _ hab => hab, hlike.labels, hlike.groups⟩
  · simp [he, he']
  · exact absurd trivial hstrict

/-- A comment takes the place of a blank, and a bar that of two. -/
theorem Program.parse_respaced_comment :
    Respaced "A: Goto  a DrawText(1,n,\"a  b\")".toList "A:\t\x7b\n \"\x7b \x7dGoto|a DrawText(1,n,\"a  b\")".toList ∧
      ∃ p q, Program.parse "A: Goto  a DrawText(1,n,\"a  b\")" false = .ok p ∧
        Program.parse "A:\t\x7b\n \"\x7b \x7dGoto|a DrawText(1,n,\"a  b\")" false = .ok q ∧
        p.statements.map (·.action) = q.statements.map (·.action) ∧ p.labels = q.labels ∧ p.groups = q.groups := by
  have h : Respaced "A: Goto  a DrawText(1,n,\"a  b\")".toList
      "A:\t\x7b\n \"\x7b \x7dGoto|a DrawText(1,n,\"a  b\")".toList := by
    have hrest : Respaced "a DrawText(1,n,\"a  b\")".toList _ := Revised.refl (fun _ => trivial) Eq.refl _
    have hbar := Revised.gap (.blank (c := ' ') rfl (.blank (c := ' ') rfl .nil)) (.blank (c := '|') rfl .nil) (by simp)
      (by simp) trivial hrest
    have hcomment : IsGap ('\t' :: '{' :: (['\n', ' ', '"', '{', ' '] ++ ['}'])) :=
      .blank rfl (.comment (by decide) .nil)
    have hgap := Revised.gap (.blank (c := ' ') rfl .nil) hcomment (by simp) (by simp) trivial
      (hbar.chars (List.forall₂_refl "Goto".toList) (by simp))
    simpa only [String.reduceToList, List.cons_append, List.nil_append] using
      hgap.chars (List.forall₂_refl "A:".toList) (by simp)
  have hp : (Program.parse "A: Goto  a DrawText(1,n,\"a  b\")" false).toOption.map (·.labels) =
      some [("A", 1)] := by decide +kernel
  obtain ⟨p, hp, -⟩ := Except.exists_of_map_toOption hp
  have hread := parse_respaced (by decide +kernel) (by decide +kernel) h
  obtain ⟨q, hq⟩ := hread.1.mp ⟨p, hp⟩
  exact ⟨h, p, q, hp, hq, hread.2 p q hp hq⟩

end GraphicsBatch
