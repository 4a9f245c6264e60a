import GraphicsBatch.Proofs.Parsed

/-!
# Cutting a known text

What the lexer makes of a text that starts with blanks and then a name, a numeral, a quoted text or a
mark, whatever stands behind it.
-/

namespace GraphicsBatch

/-! ## Places move forward -/

namespace Position

theorem line_le_afterAll (p : Position) (cs : List Char) : p.line ≤ (p.afterAll cs).line := by
  induction cs generalizing p with
  | nil => simp
  | cons c cs ih =>
    have := ih (p.after c)
    rw [afterAll_cons]
    have hc : p.line ≤ (p.after c).line := by
      unfold after
      split
      · exact Int.le_add_one (Int.le_refl _)
      · exact Int.le_refl _
    omega

theorem afterAll_of_no_lineFeed {p : Position} {cs : List Char} (h : '\n' ∉ cs) :
    p.afterAll cs = ⟨p.line, p.col + cs.length⟩ := by
  induction cs generalizing p with
  | nil => simp
  | cons c cs ih =>
    simp only [List.mem_cons, not_or] at h
    rw [afterAll_cons, ih h.2, after, if_neg (Ne.symm h.1)]
    simp only [List.length_cons]
    congr 1
    omega

/-- A place is left for good. -/
theorem afterAll_eq_self {p : Position} {cs : List Char} : p.afterAll cs = p ↔ cs = [] := by
  constructor
  · intro h
    -- A line feed leads to a later line for good; without one the column grows.
    by_cases hn : '\n' ∈ cs
    · obtain ⟨pre, post, rfl⟩ := List.append_of_mem hn
      have h1 := line_le_afterAll p pre
      have h2 := line_le_afterAll ((p.afterAll pre).after '\n') post
      rw [afterAll_append, afterAll_cons] at h
      rw [h] at h2
      simp only [after, if_true] at h2
      omega
    · rw [afterAll_of_no_lineFeed hn] at h
      have := congrArg Position.col h
      simp only at this
      exact List.eq_nil_of_length_eq_zero (by omega)
  · rintro rfl
    rfl

end Position

namespace Source

/-! ## Blanks -/

theorem isBlank_ne {c : Char} (h : isBlank c = true) : c ≠ '{' ∧ c ≠ '\n' := by
  constructor <;> rintro rfl <;> simp [isBlank] at h

namespace Cursor

theorem skipFrom_eq_ok {newlines : Bool} {opened : Option Cursor} {p : Position} {cs : List Char} {c : Cursor}
    (h : skipFrom newlines opened p cs = .ok c) : ∃ pre, cs = pre ++ c.rest ∧ c.pos = p.afterAll pre := by
  fun_induction skipFrom newlines opened p cs with
  | case1 p => cases h; exact ⟨[], rfl, rfl⟩
  | case2 => cases h
  | case3 opened p d cs ih | case4 p cs ih | case5 p d cs _ _ ih =>
    obtain ⟨pre, rfl, hpos⟩ := ih h
    exact ⟨_ :: pre, rfl, hpos⟩
  | case6 => cases h; exact ⟨[], rfl, rfl⟩

theorem skipBlank_gap {p : Position} {gap ds : List Char} {d : Char} (hgap : ∀ c ∈ gap, isBlank c = true)
    (hd : isBlank d = false) (hb : d ≠ '{') :
    skipBlank ⟨p, gap ++ d :: ds⟩ false = .ok ⟨p.afterAll gap, d :: ds⟩ := by
  unfold skipBlank
  dsimp only
  induction gap generalizing p with
  | nil => simp [skipFrom, hd, hb]
  | cons c gap ih =>
    have hc := hgap c List.mem_cons_self
    rw [List.cons_append, skipFrom, if_neg (isBlank_ne hc).1, if_pos (by simp [hc])]
    exact ih fun x hx => hgap x (List.mem_cons_of_mem _ hx)

/-! ## One lexeme at a time -/

end Cursor

/-- Puts a lexeme in front. -/
def Lexemes.cons (l : Lexeme) (s : Lexemes) : Lexemes := ⟨l :: s.items, s.finish⟩

namespace Cursor

variable {p : Position} {gap rest : List Char}

theorem lexemes_nil : lexemes ⟨p, []⟩ = ⟨[], p⟩ := by
  rw [lexemes]
  rfl

/-- Blanks in front of a token only detach it. -/
theorem lexemes_gap {d : Char} {ds : List Char} (hgap : ∀ c ∈ gap, isBlank c = true)
    (hd : isBlank d = false) (hb : d ≠ '{') :
    lexemes ⟨p, gap ++ d :: ds⟩ =
      .cons ⟨(token ⟨p.afterAll gap, d :: ds⟩ d).1, p.afterAll gap, gap.isEmpty⟩
        (lexemes (token ⟨p.afterAll gap, d :: ds⟩ d).2) := by
  have hskip := @skipBlank_gap p gap ds d hgap hd hb
  rw [lexemes]
  split
  · rename_i brace h
    rw [hskip] at h
    cases h
  · rename_i c' h
    rw [hskip] at h
    cases h
    -- The token counts as attached just if nothing was skipped.
    have hatt : decide (p.afterAll gap = p) = gap.isEmpty := by
      simp only [Position.afterAll_eq_self]
      cases gap <;> rfl
    simp only [hatt]
    rfl

theorem span_eq {f : Char → Bool} {run : List Char} (hrun : ∀ c ∈ run, f c = true)
    (hrest : ∀ c ∈ rest.head?, f c = false) :
    span ⟨p, run ++ rest⟩ f = (run, ⟨p.afterAll run, rest⟩) := by
  have htake : (run ++ rest).takeWhile f = run := by
    rw [List.takeWhile_append_of_pos hrun]
    cases rest with
    | nil => simp
    | cons c rest => rw [List.takeWhile_cons_of_neg (by simp [hrest c rfl]), List.append_nil]
  have hdrop : (run ++ rest).dropWhile f = rest := by
    rw [List.dropWhile_append_of_pos hrun]
    cases rest with
    | nil => simp
    | cons c rest => rw [List.dropWhile_cons_of_neg (by simp [hrest c rfl])]
  simp only [span, htake, hdrop]

end Cursor

/-! ## Classes of characters -/

theorem isNameStart_ne {c : Char} (h : isNameStart c = true) : c ≠ '\n' ∧ c ≠ '{' ∧ isBlank c = false := by
  refine ⟨?_, ?_, ?_⟩
  · rintro rfl
    exact absurd h (by decide)
  · rintro rfl
    exact absurd h (by decide)
  · by_contra hb
    simp only [isBlank, Bool.not_eq_false, Bool.or_eq_true, decide_eq_true_eq] at hb
    rcases hb with ((rfl | rfl) | rfl) | rfl <;> exact absurd h (by decide)

theorem isDigit_ne {c : Char} (h : isDigit c = true) :
    c ≠ '\n' ∧ c ≠ '{' ∧ isBlank c = false ∧ isNameStart c = false := by
  refine ⟨?_, ?_, ?_, ?_⟩
  · rintro rfl
    exact absurd h (by decide)
  · rintro rfl
    exact absurd h (by decide)
  · by_contra hb
    simp only [isBlank, Bool.not_eq_false, Bool.or_eq_true, decide_eq_true_eq] at hb
    rcases hb with ((rfl | rfl) | rfl) | rfl <;> exact absurd h (by decide)
  · by_contra hs
    simp only [isNameStart, isDigit, Bool.not_eq_false, Bool.or_eq_true, Bool.and_eq_true,
      decide_eq_true_eq] at hs h
    rcases hs with (hs | hs) | rfl
    · exact absurd (Char.le_trans hs.1 h.2) (by decide)
    · exact absurd (Char.le_trans hs.1 h.2) (by decide)
    · exact absurd h (by decide)

/-- A character that is a lexeme of its own. -/
def isMark (c : Char) : Bool :=
  !isBlank c && !isNameStart c && !isDigit c && c != '{' && c != '\n' && c != '"'

/-- A text that does not continue a name or a numeral that stands before it. -/
def EndsName (rest : List Char) : Prop := ∀ c ∈ rest.head?, isNameChar c = false

theorem EndsName.not_digit {rest : List Char} (h : EndsName rest) : ∀ c ∈ rest.head?, isDigit c = false := by
  intro c hc
  have := h c hc
  simp only [isNameChar, Bool.or_eq_false_iff] at this
  exact this.2

/-! ## Names, numerals, texts and marks -/

theorem isBlank_of_mem_space : ∀ c ∈ [' '], isBlank c = true := List.forall_mem_singleton.mpr rfl

theorem toList_of_isIdentifier {w : String} (h : isIdentifier w = true) :
    ∃ c cs, w.toList = c :: cs ∧ isNameStart c = true ∧ ∀ d ∈ c :: cs, isNameChar d = true := by
  unfold isIdentifier at h
  split at h
  · rename_i c cs hcs
    simp only [Bool.and_eq_true] at h
    refine ⟨c, cs, hcs, h.1, fun d hd => ?_⟩
    rcases List.mem_cons.mp hd with rfl | hd
    · simp [isNameChar, h.1]
    · exact List.all_eq_true.mp h.2 d hd
  · cases h

namespace Cursor

variable {p : Position} {gap rest : List Char}

theorem lexemes_word {w : String} (hgap : ∀ c ∈ gap, isBlank c = true) (hw : isIdentifier w = true)
    (hrest : EndsName rest) :
    lexemes ⟨p, gap ++ (w.toList ++ rest)⟩ =
      .cons ⟨.word w, p.afterAll gap, gap.isEmpty⟩ (lexemes ⟨(p.afterAll gap).afterAll w.toList, rest⟩) := by
  obtain ⟨d, ds, hd, hstart, hrun⟩ := toList_of_isIdentifier hw
  obtain ⟨hlf, hbrace, hblank⟩ := isNameStart_ne hstart
  have htok : token ⟨p.afterAll gap, d :: (ds ++ rest)⟩ d =
      (.word w, ⟨(p.afterAll gap).afterAll w.toList, rest⟩) := by
    unfold token
    rw [if_neg hlf, if_pos hstart, ← List.cons_append, span_eq hrun hrest, ← hd]
    simp
  rw [hd, List.cons_append, lexemes_gap hgap hblank hbrace, htok, hd]

theorem lexemes_numeral {d : Char} {ds : List Char} (hgap : ∀ c ∈ gap, isBlank c = true)
    (hdigits : ∀ c ∈ d :: ds, isDigit c = true) (hrest : ∀ c ∈ rest.head?, isDigit c = false) :
    lexemes ⟨p, gap ++ (d :: ds ++ rest)⟩ =
      .cons ⟨.numeral (d :: ds), p.afterAll gap, gap.isEmpty⟩
        (lexemes ⟨(p.afterAll gap).afterAll (d :: ds), rest⟩) := by
  have hd := hdigits d List.mem_cons_self
  obtain ⟨hlf, hbrace, hblank, hstart⟩ := isDigit_ne hd
  have htok : token ⟨p.afterAll gap, d :: (ds ++ rest)⟩ d =
      (.numeral (d :: ds), ⟨(p.afterAll gap).afterAll (d :: ds), rest⟩) := by
    unfold token number
    rw [if_neg hlf, if_neg (by simp [hstart]), if_pos hd, ← List.cons_append, span_eq hdigits hrest]
  rw [List.cons_append, lexemes_gap hgap hblank hbrace, htok]

theorem quoted_eq_some {body : List Char} (hbody : ∀ c ∈ body, c ≠ '"' ∧ c ≠ '\n') :
    quoted ⟨p, '"' :: (body ++ '"' :: rest)⟩ = some (body, ⟨p.afterAll ('"' :: (body ++ ['"'])), rest⟩) := by
  have hrun : ∀ c ∈ body, (c != '"' && c != '\n') = true := by
    intro c hc
    simp [hbody c hc]
  simp only [quoted, advance, List.take_succ_cons, List.take_zero, List.drop_succ_cons, List.drop_zero]
  rw [span_eq hrun (by simp)]
  simp [Position.afterAll_append]

theorem lexemes_text {s : String} (hgap : ∀ c ∈ gap, isBlank c = true) (hs : IsQuotable s) :
    lexemes ⟨p, gap ++ ('"' :: (s.toList ++ '"' :: rest))⟩ =
      .cons ⟨.text s, p.afterAll gap, gap.isEmpty⟩
        (lexemes ⟨(p.afterAll gap).afterAll ('"' :: (s.toList ++ ['"'])), rest⟩) := by
  have hbody : ∀ c ∈ s.toList, c ≠ '"' ∧ c ≠ '\n' := by
    intro c hc
    exact ⟨fun h => hs.1 (h ▸ hc), fun h => hs.2 (h ▸ hc)⟩
  have htok : token ⟨p.afterAll gap, '"' :: (s.toList ++ '"' :: rest)⟩ '"' =
      (.text s, ⟨(p.afterAll gap).afterAll ('"' :: (s.toList ++ ['"'])), rest⟩) := by
    unfold token
    rw [if_neg (by decide), if_neg (by decide), if_neg (by decide), if_pos rfl, quoted_eq_some hbody]
    simp
  rw [lexemes_gap hgap (by decide) (by decide), htok]

theorem lexemes_mark {c : Char} (hc : isMark c = true) :
    lexemes ⟨p, c :: rest⟩ = .cons ⟨.mark c, p, true⟩ (lexemes ⟨p.after c, rest⟩) := by
  simp only [isMark, Bool.and_eq_true, Bool.not_eq_true', bne_iff_ne] at hc
  obtain ⟨⟨⟨⟨⟨hblank, hstart⟩, hdigit⟩, hbrace⟩, hlf⟩, hquote⟩ := hc
  have htok : token ⟨p, c :: rest⟩ c = (.mark c, ⟨p.after c, rest⟩) := by
    unfold token
    rw [if_neg hlf, if_neg (by simp [hstart]), if_neg (by simp [hdigit]), if_neg hquote]
    rfl
  have := @lexemes_gap p [] c rest (by simp) hblank hbrace
  rw [Position.afterAll_nil, htok] at this
  exact this

theorem lexemes_lineFeed : lexemes ⟨p, '\n' :: rest⟩ = .cons ⟨.lineEnd, p, true⟩ (lexemes ⟨p.after '\n', rest⟩) :=
  @lexemes_gap p [] '\n' rest (by simp) (by decide) (by decide)

theorem lexemes_attached {l : Lexeme} {ls : List Lexeme} (h : (lexemes ⟨p, rest⟩).items = l :: ls)
    (hatt : l.attached = true) : ∃ d ds, rest = d :: ds ∧ l.token = (token ⟨p, d :: ds⟩ d).1 := by
  rw [lexemes] at h
  split at h
  · cases h
    cases hatt
  · rename_i c' hskip
    obtain ⟨pre, hpre, hpos⟩ := skipFrom_eq_ok hskip
    split at h
    · cases h
    · rename_i d ds hr
      cases h
      -- Nothing was skipped, since the place is still the same.
      simp only [decide_eq_true_eq] at hatt
      rw [hatt, eq_comm, Position.afterAll_eq_self] at hpos
      obtain ⟨pos, r⟩ := c'
      dsimp only at hpre hatt hr
      subst hr hatt hpos
      exact ⟨d, ds, hpre, rfl⟩

end Cursor

end Source

end GraphicsBatch
