import GraphicsBatch.Proofs.Revised

/-!
# Places in a text

Places are ordered as the text is read, so a place tells how much of the text lies before it. Every lexeme stands at a
place of its text, and the text reads there what the lexeme was made of.
-/

namespace GraphicsBatch

open Source

/-! ## The order of places -/

namespace Position

/-- A place comes before another one: on an earlier line, or further left on the same line. -/
def Before (p q : Position) : Prop := p.line < q.line ∨ p.line = q.line ∧ p.col < q.col

instance (p q : Position) : Decidable (p.Before q) := inferInstanceAs (Decidable (_ ∨ _))

theorem Before.trans {p q r : Position} (h : p.Before q) (h' : q.Before r) : p.Before r := by
  unfold Before at *
  omega

theorem Before.ne {p q : Position} (h : p.Before q) : p ≠ q := by
  rintro rfl
  unfold Before at h
  omega

theorem before_after (p : Position) (c : Char) : p.Before (p.after c) := by
  unfold Before after
  split
  · exact .inl (Int.lt_succ p.line)
  · exact .inr ⟨rfl, Int.lt_succ p.col⟩

theorem before_afterAll (p : Position) {cs : List Char} (h : cs ≠ []) : p.Before (p.afterAll cs) := by
  induction cs generalizing p with
  | nil => exact absurd rfl h
  | cons c cs ih =>
    rw [afterAll_cons]
    by_cases hcs : cs = []
    · subst hcs
      exact before_after p c
    · exact (before_after p c).trans (ih _ hcs)

/-- A place tells how much of a text lies before it. -/
theorem afterAll_inj {p : Position} {pre pre' text : List Char} (h : pre <+: text) (h' : pre' <+: text)
    (heq : p.afterAll pre = p.afterAll pre') : pre = pre' := by
  rcases List.prefix_or_prefix_of_prefix h h' with ⟨more, rfl⟩ | ⟨more, rfl⟩
  · rw [afterAll_append, eq_comm, afterAll_eq_self] at heq
    rw [heq, List.append_nil]
  · rw [afterAll_append, afterAll_eq_self] at heq
    rw [heq, List.append_nil]

theorem one_le_col_afterAll {p : Position} (h : 1 ≤ p.col) (cs : List Char) : 1 ≤ (p.afterAll cs).col := by
  induction cs generalizing p with
  | nil => exact h
  | cons c cs ih =>
    refine ih ?_
    unfold after
    split
    · exact Int.le_refl 1
    · exact Int.le_add_one h

theorem col_afterAll_ne_one {p : Position} {cs : List Char} (hp : 1 ≤ p.col) (hne : cs ≠ [])
    (hlast : cs.getLast? ≠ some '\n') : (p.afterAll cs).col ≠ 1 := by
  obtain ⟨front, c, rfl⟩ := List.eq_nil_or_concat cs |>.resolve_left hne
  have hc : c ≠ '\n' := by
    rintro rfl
    simp at hlast
  have hfront := one_le_col_afterAll hp front
  rw [List.concat_eq_append, afterAll_append, afterAll_cons, afterAll_nil, after, if_neg hc]
  dsimp only
  omega

/-- A place in a text: one of the columns of one of its lines, or the one behind them. -/
def Inside (text : List Char) (p : Position) : Prop :=
  1 ≤ p.line ∧ 1 ≤ p.col ∧ ∃ line, (text.splitOn '\n')[(p.line - 1).toNat]? = some line ∧ p.col ≤ line.length + 1

theorem splitOn_lineFeed (cs : List Char) : ('\n' :: cs).splitOn '\n' = [] :: cs.splitOn '\n' := by
  simp [List.splitOn, List.splitOnP_cons_eq_if_modifyHead]

theorem splitOn_cons {c : Char} (h : c ≠ '\n') (cs : List Char) :
    (c :: cs).splitOn '\n' = (cs.splitOn '\n').modifyHead (c :: ·) := by
  simp [List.splitOn, List.splitOnP_cons_eq_if_modifyHead, h]

theorem exists_line_afterAll (p : Position) (pre rest : List Char) : ∃ (n : Nat) (line : List Char),
    ((pre ++ rest).splitOn '\n')[n]? = some line ∧ (p.afterAll pre).line = p.line + n ∧
      (p.afterAll pre).col ≤ (if n = 0 then p.col else 1) + line.length := by
  -- A line feed leaves the first line behind, and any other character is part of it.
  induction pre generalizing p with
  | nil =>
    obtain ⟨line, lines, hlines⟩ := List.exists_cons_of_ne_nil (List.splitOn_ne_nil '\n' rest)
    refine ⟨0, line, ?_, by simp, ?_⟩
    · rw [List.nil_append, hlines]
      rfl
    · rw [if_pos rfl, afterAll_nil]
      omega
  | cons c pre ih =>
    obtain ⟨n, line, hline, hn, hcol⟩ := ih (p.after c)
    rw [List.cons_append, afterAll_cons]
    by_cases hc : c = '\n'
    · rw [after, if_pos hc] at hn hcol ⊢
      refine ⟨n + 1, line, ?_, ?_, ?_⟩
      · rw [hc, splitOn_lineFeed]
        exact hline
      · rw [hn]
        dsimp only
        omega
      · rw [if_neg (Nat.succ_ne_zero n)]
        simpa using hcol
    · rw [after, if_neg hc] at hn hcol ⊢
      rw [splitOn_cons hc]
      cases n with
      | zero =>
        refine ⟨0, c :: line, ?_, hn, ?_⟩
        · rw [List.getElem?_modifyHead, hline]
          rfl
        · rw [if_pos rfl, List.length_cons] at *
          dsimp only at hcol
          omega
      | succ n => exact ⟨n + 1, line, by rw [List.getElem?_modifyHead, hline]; rfl, hn, hcol⟩

theorem inside_afterAll (pre rest : List Char) : (start.afterAll pre).Inside (pre ++ rest) := by
  obtain ⟨n, line, hline, hn, hcol⟩ := exists_line_afterAll start pre rest
  have hstart : start.line = 1 ∧ start.col = 1 := ⟨rfl, rfl⟩
  have hn' : ((start.afterAll pre).line - 1).toNat = n := by omega
  refine ⟨by omega, one_le_col_afterAll (Int.le_refl 1) pre, line, by rw [hn', hline], ?_⟩
  split at hcol <;> omega

end Position

/-! ## Cursors in a text -/

namespace Source.Cursor

variable {c c' e : Cursor} {run run' text : List Char}

/-- A cursor moves forward over a run of characters. -/
structure Takes (c : Cursor) (run : List Char) (c' : Cursor) : Prop where
  rest : c.rest = run ++ c'.rest
  pos : c'.pos = c.pos.afterAll run

theorem Takes.refl (c : Cursor) : c.Takes [] c := ⟨rfl, rfl⟩

theorem Takes.trans (h : c.Takes run c') (h' : c'.Takes run' e) : c.Takes (run ++ run') e :=
  ⟨by rw [h.rest, h'.rest, List.append_assoc], by rw [h'.pos, h.pos, Position.afterAll_append]⟩

theorem takes_advance {d : Char} {ds : List Char} (h : c.rest = d :: ds) : c.Takes [d] (c.advance 1) := by
  constructor <;> simp [advance, h]

theorem takes_span (f : Char → Bool) : c.Takes (c.span f).1 (c.span f).2 :=
  ⟨List.takeWhile_append_dropWhile.symm, rfl⟩

/-- A cursor stands in a text. -/
def In (text : List Char) (c : Cursor) : Prop := ∃ pre, (ofText text).Takes pre c

theorem In.of_takes (hc : c.In text) (h : c.Takes run c') : c'.In text := by
  obtain ⟨pre, hpre⟩ := hc
  exact ⟨pre ++ run, hpre.trans h⟩

theorem In.inside (hc : c.In text) : c.pos.Inside text := by
  obtain ⟨pre, hrest, hpos⟩ := hc
  have htext : text = pre ++ c.rest := hrest
  rw [hpos, htext]
  exact Position.inside_afterAll pre c.rest

theorem getLast?_append_ne (h : run.getLast? ≠ some '\n') (h' : run'.getLast? ≠ some '\n') :
    (run ++ run').getLast? ≠ some '\n' := by
  rw [List.getLast?_append]
  cases hlast : run'.getLast? with
  | none => simpa using h
  | some x => simpa [hlast] using h'

/-- A cursor goes on to another one, but not just over a line end. -/
def Reaches (c c' : Cursor) : Prop := ∃ run, c.Takes run c' ∧ run.getLast? ≠ some '\n'

theorem Reaches.refl (c : Cursor) : c.Reaches c := ⟨[], .refl c, by simp⟩

theorem Reaches.trans (h : c.Reaches c') (h' : c'.Reaches e) : c.Reaches e := by
  obtain ⟨run, hrun, hlast⟩ := h
  obtain ⟨run', hrun', hlast'⟩ := h'
  exact ⟨run ++ run', hrun.trans hrun', getLast?_append_ne hlast hlast'⟩

end Source.Cursor

/-! ## Lexemes in a text -/

namespace Source

/-- What a token was made of, and what may follow it. -/
def Token.Written : Token → List Char → List Char → Prop
  | .word name, run, rest => run = name.toList ∧ isIdentifier name = true ∧ EndsName rest
  | .numeral digits, run, _ => run = digits ∧ digits ≠ [] ∧ ∀ c ∈ digits, isDigit c = true
  | .text contents, run, _ => run = '"' :: (contents.toList ++ ['"']) ∧ IsQuotable contents
  | .lineEnd, run, _ => run = ['\n']
  | .mark c, run, _ => run = [c] ∧ c ≠ '\n'
  | .openText, run, _ => run = ['"']
  | .openComment, _, _ => False

theorem Token.Written.ne_nil {t : Token} {run rest : List Char} (h : t.Written run rest) : run ≠ [] := by
  cases t with
  | word name =>
    obtain ⟨rfl, hname, -⟩ := h
    obtain ⟨c, cs, hcs, -⟩ := toList_of_isIdentifier hname
    simp [hcs]
  | numeral digits => exact h.1 ▸ h.2.1
  | text contents => simp [h.1]
  | lineEnd => simp [show run = _ from h]
  | mark c => simp [h.1]
  | openText => simp [show run = _ from h]
  | openComment => exact h.elim

theorem Token.Written.getLast?_ne {t : Token} {run rest : List Char} (h : t.Written run rest) (ht : t ≠ .lineEnd) :
    run.getLast? ≠ some '\n' := by
  suffices hmem : '\n' ∉ run from fun hlast => hmem (List.mem_of_getLast? hlast)
  cases t with
  | word name =>
    obtain ⟨rfl, hname, -⟩ := h
    obtain ⟨c, cs, hcs, -, hall⟩ := toList_of_isIdentifier hname
    rw [hcs]
    intro hmem
    exact absurd (hall _ hmem) (by decide)
  | numeral digits =>
    obtain ⟨rfl, -, hdigits⟩ := h
    intro hmem
    exact (isDigit_ne (hdigits _ hmem)).1 rfl
  | text contents =>
    obtain ⟨rfl, hquotable⟩ := h
    simpa using hquotable.2
  | lineEnd => exact absurd rfl ht
  | mark c =>
    obtain ⟨rfl, hc⟩ := h
    simpa using hc.symm
  | openText => simp [show run = _ from h]
  | openComment => exact h.elim

theorem IsGap.getLast?_ne {g : List Char} (h : IsGap g) : g.getLast? ≠ some '\n' := by
  induction h with
  | nil => simp
  | @blank c g hc _ ih =>
    rw [List.getLast?_cons]
    cases hg : g.getLast? with
    | none => simpa using (isBlank_ne hc).2
    | some x => simpa [hg] using ih
  | @comment body g _ _ ih =>
    rw [List.getLast?_cons, List.getLast?_append, List.getLast?_cons]
    cases hg : g.getLast? with
    | none => simp
    | some x => simpa [hg] using ih

namespace Cursor

variable {c e : Cursor} {d : Char} {ds : List Char}

theorem takes_quoted {body : List Char} (h : c.quoted = some (body, e)) (hd : c.rest = '"' :: ds) :
    c.Takes ('"' :: (body ++ ['"'])) e := by
  have hspan := takes_span (c := c.advance 1) fun x => x != '"' && x != '\n'
  unfold quoted at h
  dsimp only at h
  split at h
  · rename_i hquote
    cases h
    exact (takes_advance hd).trans (hspan.trans (takes_advance hquote))
  · cases h

theorem token_written (hd : c.rest = d :: ds) :
    ∃ run, c.Takes run (c.token d).2 ∧ (c.token d).1.Written run (c.token d).2.rest := by
  -- A run ends where the next character is not of its kind.
  have hends : ∀ (f : Char → Bool), ∀ x ∈ (c.span f).2.rest.head?, f x = false := by
    intro f x hx
    have hhead : (c.rest.dropWhile f).head? = some x := hx
    have hnot := List.head?_dropWhile_not f c.rest
    rw [hhead] at hnot
    exact hnot
  have hsound := token_sound hd
  unfold token at hsound ⊢
  split
  · rename_i hfeed
    exact ⟨[d], takes_advance hd, by rw [hfeed]; rfl⟩
  · rename_i hfeed
    rw [if_neg hfeed] at hsound
    split
    · rename_i hname
      rw [if_pos hname] at hsound
      exact ⟨_, takes_span isNameChar, by rw [String.toList_ofList], hsound, hends isNameChar⟩
    · rename_i hname
      rw [if_neg hname] at hsound
      split
      · rename_i hdigit
        refine ⟨_, takes_span isDigit, rfl, ?_, fun x hx => List.mem_takeWhile_imp hx⟩
        simp [span, number, hd, hdigit]
      · rename_i hdigit
        rw [if_neg hdigit] at hsound
        split
        · rename_i hquote
          subst hquote
          cases hq : c.quoted with
          | none => exact ⟨['"'], takes_advance hd, rfl⟩
          | some r => exact ⟨_, takes_quoted hq hd, by rw [String.toList_ofList], quoted_sound hq⟩
        · exact ⟨[d], takes_advance hd, rfl, hfeed⟩

theorem skipFrom_takes {opened : Option Cursor} {p : Position} {cs : List Char}
    (h : skipFrom false opened p cs = .ok e) : ∃ body g, IsGap g ∧ '}' ∉ body ∧
      (⟨p, cs⟩ : Cursor).Takes (if opened.isSome then body ++ '}' :: g else g) e := by
  fun_induction skipFrom false opened p cs with
  | case1 p =>
    cases h
    exact ⟨[], [], .nil, by simp, .refl _⟩
  | case2 => cases h
  | case3 opened p c cs ih =>
    obtain ⟨body, g, hg, hbody, hrest, hpos⟩ := ih h
    by_cases hc : c = '}'
    · subst hc
      exact ⟨[], g, hg, by simp, by simpa using hrest, by simpa using hpos⟩
    · rw [if_neg hc] at hrest hpos
      exact ⟨c :: body, g, hg, by simpa [Ne.symm hc] using hbody, by simpa using hrest, by simpa using hpos⟩
  | case4 p cs ih =>
    obtain ⟨body, g, hg, hbody, hrest, hpos⟩ := ih h
    exact ⟨[], _, .comment hbody hg, by simp, by simpa using hrest, by simpa using hpos⟩
  | case5 p c cs hbrace hblank ih =>
    obtain ⟨body, g, hg, -, hrest, hpos⟩ := ih h
    have hc : isBlank c = true := by simpa using hblank
    exact ⟨[], c :: g, .blank hc hg, by simp, by simpa using hrest, by simpa using hpos⟩
  | case6 p c cs =>
    cases h
    exact ⟨[], [], .nil, by simp, .refl _⟩

theorem skipBlank_takes (h : c.skipBlank false = .ok e) : ∃ g, IsGap g ∧ c.Takes g e := by
  obtain ⟨body, g, hg, -, htakes⟩ := skipFrom_takes h
  exact ⟨g, hg, htakes⟩

theorem skipFrom_brace {opened : Option Cursor} {p : Position} {cs : List Char} {brace : Cursor}
    (h : skipFrom false opened p cs = .error brace) :
    opened = some brace ∨ ∃ run, (⟨p, cs⟩ : Cursor).Takes run brace := by
  fun_induction skipFrom false opened p cs with
  | case1 => cases h
  | case2 =>
    cases h
    exact .inl rfl
  | case3 opened p c cs ih =>
    rcases ih h with hopened | ⟨run, hrest, hpos⟩
    · split at hopened
      · cases hopened
      · exact .inl hopened
    · exact .inr ⟨c :: run, by simpa using hrest, by simpa using hpos⟩
  | case4 p cs ih =>
    rcases ih h with hopened | ⟨run, hrest, hpos⟩
    · cases hopened
      exact .inr ⟨[], .refl _⟩
    · exact .inr ⟨'{' :: run, by simpa using hrest, by simpa using hpos⟩
  | case5 p c cs _ _ ih =>
    rcases ih h with hopened | ⟨run, hrest, hpos⟩
    · cases hopened
    · exact .inr ⟨c :: run, by simpa using hrest, by simpa using hpos⟩
  | case6 => cases h

/-- A cursor cuts a lexeme off its text: a gap first, then the characters of the lexeme. -/
inductive Cuts (c : Cursor) (l : Lexeme) (c' : Cursor) : Prop where
  | intro {gap run : List Char} {e : Cursor} : c.lexemes = .cons l c'.lexemes → IsGap gap → c.Takes gap e →
      e.Takes run c' → l.pos = e.pos → l.token.Written run c'.rest → (l.attached = true → gap = []) → Cuts c l c'

inductive Next (c : Cursor) : Prop where
  | finish : c.lexemes = ⟨[], c.finish⟩ → Next c
  | brace {run : List Char} {brace : Cursor} : c.Takes run brace →
      c.lexemes = ⟨[⟨.openComment, brace.pos, false⟩], brace.pos⟩ → Next c
  | lexeme {l : Lexeme} {c' : Cursor} : c.Cuts l c' → Next c

theorem next (c : Cursor) : c.Next := by
  cases hskip : c.skipBlank false with
  | error brace =>
    rcases skipFrom_brace hskip with h | ⟨run, h⟩
    · cases h
    · exact .brace h (lexemes_eq_open hskip)
  | ok e =>
    obtain ⟨gap, hgap, htakes⟩ := skipBlank_takes hskip
    cases hrest : e.rest with
    | nil =>
      refine .finish ?_
      rw [lexemes_eq_nil hskip hrest, ← finish_skipBlank hskip, finish, hrest]
      rfl
    | cons d ds =>
      obtain ⟨run, hrun, hwritten⟩ := token_written hrest
      refine .lexeme (.intro (lexemes_eq_cons hskip hrest) hgap htakes hrun rfl hwritten fun hatt => ?_)
      have hpos : e.pos = c.pos := by simpa using hatt
      rwa [htakes.pos, Position.afterAll_eq_self] at hpos

end Cursor

end Source

end GraphicsBatch
