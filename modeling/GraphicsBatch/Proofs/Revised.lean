import GraphicsBatch.Proofs.Counterparts
import GraphicsBatch.Proofs.Followed

/-!
# Texts that were revised

A text may be revised outside its quoted texts: gaps are replaced by gaps, and characters by characters of the same
use. Cutting both texts into lexemes gives rows that are alike.
-/

namespace GraphicsBatch

open Source

namespace Source

/-! ## Gaps and quotes -/

/-- A run of blanks and of comments that are closed. -/
inductive IsGap : List Char → Prop where
  | nil : IsGap []
  | blank {c : Char} {g : List Char} : isBlank c = true → IsGap g → IsGap (c :: g)
  | comment {body g : List Char} : '}' ∉ body → IsGap g → IsGap ('{' :: (body ++ '}' :: g))

/-- A text in which no quote comes before the end of the line: a quote in front of it has no partner. -/
def Unpaired (rest : List Char) : Prop := (rest.dropWhile fun x => x != '"' && x != '\n').head? ≠ some '"'

theorem exists_of_not_unpaired {rest : List Char} (h : ¬ Unpaired rest) :
    ∃ body more, rest = body ++ '"' :: more ∧ ∀ x ∈ body, x ≠ '"' ∧ x ≠ '\n' := by
  have hsplit := List.takeWhile_append_dropWhile (p := fun x => x != '"' && x != '\n') (l := rest)
  obtain ⟨more, hmore⟩ := List.head?_eq_some_iff.mp (not_not.mp h)
  rw [hmore] at hsplit
  refine ⟨_, more, hsplit.symm, fun x hx => ?_⟩
  simpa using List.mem_takeWhile_imp hx

/-- Texts that correspond, gap by gap and character by character. Quoted texts are the same in both. -/
inductive Revised (gap : List Char → List Char → Prop) (char : Char → Char → Prop) : List Char → List Char → Prop where
  | nil : Revised gap char [] []
  | gap {g g' rest rest' : List Char} : IsGap g → IsGap g' → g ≠ [] → g' ≠ [] → gap g g' →
      Revised gap char rest rest' → Revised gap char (g ++ rest) (g' ++ rest')
  | char {c c' : Char} {rest rest' : List Char} : c ≠ '"' → c ≠ '{' → char c c' →
      Revised gap char rest rest' → Revised gap char (c :: rest) (c' :: rest')
  | text {body rest rest' : List Char} : (∀ x ∈ body, x ≠ '"' ∧ x ≠ '\n') →
      Revised gap char rest rest' → Revised gap char ('"' :: (body ++ '"' :: rest)) ('"' :: (body ++ '"' :: rest'))
  | openText {rest rest' : List Char} : Unpaired rest → Unpaired rest' →
      Revised gap char rest rest' → Revised gap char ('"' :: rest) ('"' :: rest')
  | openComment {rest rest' : List Char} : '}' ∉ rest → '}' ∉ rest' → List.Forall₂ char rest rest' →
      Revised gap char ('{' :: rest) ('{' :: rest')

theorem Revised.eq_nil {gap : List Char → List Char → Prop} {char : Char → Char → Prop} {cs : List Char}
    (h : Revised gap char [] cs) : cs = [] := by
  generalize hnil : [] = cs₀ at h
  cases h with
  | nil => rfl
  | gap _ _ hne => exact absurd (List.append_eq_nil_iff.mp hnil.symm).1 hne
  | _ => cases hnil

theorem Revised.chars {gap : List Char → List Char → Prop} {char : Char → Char → Prop} {run run' rest rest' : List Char}
    (hrun : List.Forall₂ char run run') (hplain : ∀ c ∈ run, c ≠ '"' ∧ c ≠ '{') (h : Revised gap char rest rest') :
    Revised gap char (run ++ rest) (run' ++ rest') := by
  induction hrun with
  | nil => exact h
  | cons hc _ ih =>
    have hfirst := hplain _ List.mem_cons_self
    exact .char hfirst.1 hfirst.2 hc (ih fun d hd => hplain d (List.mem_cons_of_mem _ hd))

theorem Revised.refl {gap : List Char → List Char → Prop} {char : Char → Char → Prop} (hgap : ∀ g, gap g g)
    (hchar : ∀ c, char c c) (cs : List Char) : Revised gap char cs cs := by
  induction hlen : cs.length using Nat.strong_induction_on generalizing cs with
  | _ n ih =>
    subst hlen
    cases cs with
    | nil => exact .nil
    | cons c rest =>
      by_cases hquote : c = '"'
      · subst hquote
        by_cases hopen : Unpaired rest
        · exact .openText hopen hopen (ih _ (by simp) rest rfl)
        · obtain ⟨body, more, rfl, hbody⟩ := exists_of_not_unpaired hopen
          exact .text hbody (ih _ (by simp; omega) more rfl)
      by_cases hbrace : c = '{'
      · subst hbrace
        by_cases hclosed : '}' ∈ rest
        · obtain ⟨body, more, rfl, hbody⟩ := List.eq_append_cons_of_mem hclosed
          have hg : IsGap ('{' :: (body ++ '}' :: [])) := .comment hbody .nil
          have hmore := ih _ (by simp; omega) more rfl
          simpa using Revised.gap hg hg (by simp) (by simp) (hgap _) hmore
        · exact .openComment hclosed hclosed (List.forall₂_same.mpr fun x _ => hchar x)
      · exact .char hquote hbrace (hchar c) (ih _ (by simp) rest rfl)

/-- A text that starts with a blank or a comment. -/
def startsGap (cs : List Char) : Bool := cs.head?.any fun c => isBlank c || c = '{'

theorem isNameChar_ne {c : Char} (h : isNameChar c = true) : c ≠ '"' ∧ c ≠ '{' ∧ isBlank c = false := by
  refine ⟨?_, ?_⟩
  · rintro rfl
    exact absurd h (by decide)
  · rcases (Bool.or_eq_true _ _).mp h with hstart | hdigit
    · exact (isNameStart_ne hstart).2
    · exact ⟨(isDigit_ne hdigit).2.1, (isDigit_ne hdigit).2.2.1⟩

theorem IsGap.startsGap {g : List Char} (h : IsGap g) (hne : g ≠ []) (rest : List Char) :
    startsGap (g ++ rest) = true := by
  cases h with
  | nil => exact absurd rfl hne
  | blank hblank _ => simp [Source.startsGap, hblank]
  | comment _ _ => simp [Source.startsGap]

namespace Cursor

variable {newlines : Bool} {p : Position} {body rest : List Char}

theorem skipFrom_comment {opened : Cursor} (h : '}' ∉ body) :
    skipFrom newlines (some opened) p (body ++ '}' :: rest) =
      skipFrom newlines none ((p.afterAll body).after '}') rest := by
  induction body generalizing p with
  | nil => rw [List.nil_append, skipFrom, if_pos rfl, Position.afterAll_nil]
  | cons c body ih =>
    simp only [List.mem_cons, not_or] at h
    rw [List.cons_append, skipFrom, if_neg (Ne.symm h.1), ih h.2, Position.afterAll_cons]

theorem skipFrom_gap {g : List Char} (hg : IsGap g) :
    skipFrom newlines none p (g ++ rest) = skipFrom newlines none (p.afterAll g) rest := by
  induction hg generalizing p with
  | nil => rfl
  | blank hblank _ ih =>
    rw [List.cons_append, skipFrom, if_neg (isBlank_ne hblank).1, if_pos (by simp [hblank]), ih, Position.afterAll_cons]
  | @comment body g hbody _ ih =>
    rw [List.cons_append, List.append_assoc, List.cons_append, skipFrom, if_pos rfl, skipFrom_comment hbody, ih,
      Position.afterAll_cons, Position.afterAll_append, Position.afterAll_cons]

theorem skipFrom_of_not_startsGap {cs : List Char} (h : startsGap cs = false) : skipFrom false none p cs = .ok ⟨p, cs⟩ := by
  cases cs with
  | nil => rfl
  | cons c cs =>
    simp only [startsGap, List.head?_cons, Option.any_some, Bool.or_eq_false_iff, decide_eq_false_iff_not] at h
    rw [skipFrom, if_neg h.2, if_neg (by simp [h.1])]

theorem skipFrom_stops {opened : Option Cursor} {cs : List Char} {e : Cursor}
    (h : skipFrom newlines opened p cs = .ok e) : startsGap e.rest = false := by
  fun_induction skipFrom newlines opened p cs with
  | case1 => cases h; rfl
  | case2 => cases h
  | case3 _ _ _ _ ih => exact ih h
  | case4 _ _ ih => exact ih h
  | case5 _ _ _ _ _ ih => exact ih h
  | case6 p c cs hbrace hblank =>
    cases h
    simp only [Bool.or_eq_true, not_or, Bool.not_eq_true] at hblank
    simp [startsGap, hblank.1, hbrace]

theorem skipFrom_rest_eq {cs : List Char} {e : Cursor} (h : skipFrom false none p cs = .ok e) :
    e.rest = cs ↔ startsGap cs = false := by
  constructor
  · intro heq
    rw [← heq]
    exact skipFrom_stops h
  · intro hstart
    rw [skipFrom_of_not_startsGap hstart] at h
    cases h
    rfl

theorem token_quote (c : Cursor) : c.token '"' =
    match c.quoted with
    | some (body, rest) => (.text (String.ofList body), rest)
    | none => (.openText, c.advance 1) := rfl

theorem quoted_eq_none (h : Unpaired rest) : quoted ⟨p, '"' :: rest⟩ = none := by
  simp only [quoted, advance, span, List.drop_succ_cons, List.drop_zero]
  split
  · rename_i heq
    exact absurd (by rw [heq]; rfl) h
  · rfl

end Cursor

end Source

/-! ## Revisions that a likeness allows -/

namespace Likeness

variable {lk : Likeness} {gap : List Char → List Char → Prop} {char : Char → Char → Prop}

/-- Characters that differ are such that names start with, and words and places stay alike. -/
structure Allows (lk : Likeness) (gap : List Char → List Char → Prop) (char : Char → Char → Prop) : Prop where
  place_gap {g g' : List Char} {p q : Position} : gap g g' → lk.place p q → lk.place (p.afterAll g) (q.afterAll g')
  char_cases {c c' : Char} : char c c' → c = c' ∨ isNameStart c = true ∧ isNameStart c' = true
  word {w w' : List Char} : List.Forall₂ char w w' → lk.word (String.ofList w) (String.ofList w')

/-- Cursors at places that correspond, with texts left that correspond. -/
structure CursorRevised (lk : Likeness) (gap : List Char → List Char → Prop) (char : Char → Char → Prop)
    (c c' : Cursor) : Prop where
  pos : lk.place c.pos c'.pos
  rest : Revised gap char c.rest c'.rest

namespace Allows

variable (ok : lk.Allows gap char) {c c' : Char} {p q : Position} {cs cs' : List Char}

include ok

theorem isNameChar_eq (h : char c c') : isNameChar c = isNameChar c' := by
  rcases ok.char_cases h with rfl | ⟨hc, hc'⟩
  · rfl
  · simp [isNameChar, hc, hc']

theorem isNameStart_eq (h : char c c') : isNameStart c = isNameStart c' := by
  rcases ok.char_cases h with rfl | ⟨hc, hc'⟩
  · rfl
  · rw [hc, hc']

theorem isDigit_eq (h : char c c') : isDigit c = isDigit c' := by
  have hnot : ∀ {x : Char}, isNameStart x = true → isDigit x = false := by
    intro x hx
    by_contra hdigit
    simp [(isDigit_ne (by simpa using hdigit)).2.2.2] at hx
  rcases ok.char_cases h with rfl | ⟨hc, hc'⟩
  · rfl
  · rw [hnot hc, hnot hc']

theorem place_char (h : char c c') (hpos : lk.place p q) : lk.place (p.after c) (q.after c') := by
  rcases ok.char_cases h with rfl | ⟨hc, hc'⟩
  · exact lk.place_after c hpos
  · -- No name starts with a line feed, so both characters take the place on by one column.
    have heq : q.after c' = q.after c := by
      unfold Position.after
      rw [if_neg (isNameStart_ne hc).1, if_neg (isNameStart_ne hc').1]
    rw [heq]
    exact lk.place_after c hpos

theorem place_chars (h : List.Forall₂ char cs cs') (hpos : lk.place p q) :
    lk.place (p.afterAll cs) (q.afterAll cs') := by
  induction h generalizing p q with
  | nil => exact hpos
  | cons hc _ ih => exact ih (ok.place_char hc hpos)

/-! ### The parts of the lexer -/

omit ok in
theorem span_revised {f : Char → Bool} (hf : ∀ c c', char c c' → f c = f c')
    (hclass : ∀ c, f c = true → c ≠ '"' ∧ c ≠ '{' ∧ isBlank c = false) (h : Revised gap char cs cs') :
    List.Forall₂ char (cs.takeWhile f) (cs'.takeWhile f) ∧ Revised gap char (cs.dropWhile f) (cs'.dropWhile f) := by
  have hquote : f '"' = false := by
    by_contra hc
    exact (hclass _ (by simpa using hc)).1 rfl
  have hbrace : f '{' = false := by
    by_contra hc
    exact (hclass _ (by simpa using hc)).2.1 rfl
  -- A gap starts with a character outside the class, so a run ends before it.
  have hgap : ∀ {g rest : List Char}, IsGap g → g ≠ [] →
      (g ++ rest).takeWhile f = [] ∧ (g ++ rest).dropWhile f = g ++ rest := by
    intro g rest hg hne
    have hstart := hg.startsGap hne rest
    obtain ⟨c, g, rfl⟩ := List.exists_cons_of_ne_nil hne
    simp only [startsGap, List.cons_append, List.head?_cons, Option.any_some, Bool.or_eq_true,
      decide_eq_true_eq] at hstart
    have hc : f c = false := by
      by_contra hc
      obtain ⟨-, hbrace, hblank⟩ := hclass c (by simpa using hc)
      simp [hbrace, hblank] at hstart
    simp [hc]
  induction h with
  | nil => exact ⟨.nil, .nil⟩
  | gap hg hg' hne hne' hrel hrest _ =>
    rw [(hgap hg hne).1, (hgap hg hne).2, (hgap hg' hne').1, (hgap hg' hne').2]
    exact ⟨.nil, .gap hg hg' hne hne' hrel hrest⟩
  | char h1 h2 hc hrest ih =>
    rw [List.takeWhile_cons, List.takeWhile_cons, List.dropWhile_cons, List.dropWhile_cons, hf _ _ hc]
    split
    · exact ⟨.cons hc ih.1, ih.2⟩
    · exact ⟨.nil, .char h1 h2 hc hrest⟩
  | text hbody hrest _ =>
    simp only [List.takeWhile_cons, List.dropWhile_cons, hquote, Bool.false_eq_true, if_false]
    exact ⟨.nil, .text hbody hrest⟩
  | openText hr hr' hrest _ =>
    simp only [List.takeWhile_cons, List.dropWhile_cons, hquote, Bool.false_eq_true, if_false]
    exact ⟨.nil, .openText hr hr' hrest⟩
  | openComment hr hr' hrest =>
    simp only [List.takeWhile_cons, List.dropWhile_cons, hbrace, Bool.false_eq_true, if_false]
    exact ⟨.nil, .openComment hr hr' hrest⟩

theorem isBlank_eq (h : char c c') : isBlank c = isBlank c' := by
  rcases ok.char_cases h with rfl | ⟨hc, hc'⟩
  · rfl
  · rw [(isNameStart_ne hc).2.2, (isNameStart_ne hc').2.2]

theorem eq_iff (h : char c c') {d : Char} (hd : isNameStart d = false) : c = d ↔ c' = d := by
  rcases ok.char_cases h with rfl | ⟨hc, hc'⟩
  · rfl
  · constructor
    · rintro rfl
      simp [hd] at hc
    · rintro rfl
      simp [hd] at hc'

theorem startsGap_eq (h : Revised gap char cs cs') : startsGap cs = startsGap cs' := by
  cases h with
  | gap hg hg' hne hne' _ _ => rw [hg.startsGap hne, hg'.startsGap hne']
  | char _ _ hc _ =>
    simp only [startsGap, List.head?_cons, Option.any_some, ok.isBlank_eq hc,
      ok.eq_iff hc (by decide : isNameStart '{' = false)]
  | _ => rfl

theorem skipFrom_revised (h : Revised gap char cs cs') (hpos : lk.place p q) :
    Agree True (fun b b' => lk.place b.pos b'.pos) (lk.CursorRevised gap char)
      (Cursor.skipFrom false none p cs) (Cursor.skipFrom false none q cs') := by
  -- Anything but a gap ends the skipping in both texts.
  have hstops : ∀ {cs cs' : List Char} {p q : Position}, startsGap cs = false → Revised gap char cs cs' → lk.place p q →
      Agree True (fun b b' => lk.place b.pos b'.pos) (lk.CursorRevised gap char)
        (Cursor.skipFrom false none p cs) (Cursor.skipFrom false none q cs') := by
    intro cs cs' p q hstart h hpos
    rw [Cursor.skipFrom_of_not_startsGap hstart, Cursor.skipFrom_of_not_startsGap (ok.startsGap_eq h ▸ hstart)]
    exact ⟨hpos, h⟩
  induction h generalizing p q with
  | nil => exact hstops rfl .nil hpos
  | gap hg hg' _ _ hrel _ ih =>
    rw [Cursor.skipFrom_gap hg, Cursor.skipFrom_gap hg']
    exact ih (ok.place_gap hrel hpos)
  | @char c c' rest rest' hquote hbrace hc hrest ih =>
    by_cases hblank : isBlank c = true
    · have hbrace' := mt (ok.eq_iff hc (by decide : isNameStart '{' = false)).mpr hbrace
      have hblank' := ok.isBlank_eq hc ▸ hblank
      rw [Cursor.skipFrom, if_neg hbrace, if_pos (by simp [hblank]), Cursor.skipFrom, if_neg hbrace',
        if_pos (by simp [hblank'])]
      exact ih (ok.place_char hc hpos)
    · exact hstops (by simpa [startsGap, hbrace] using hblank) (.char hquote hbrace hc hrest) hpos
  | text hbody hrest _ => exact hstops rfl (.text hbody hrest) hpos
  | openText hr hr' hrest _ => exact hstops rfl (.openText hr hr' hrest) hpos
  | openComment hr hr' _ =>
    rw [Cursor.skipFrom, if_pos rfl, Cursor.skipFrom_open hr, Cursor.skipFrom, if_pos rfl, Cursor.skipFrom_open hr']
    exact fun _ => hpos

theorem skipBlank_revised {c c' : Cursor} (h : lk.CursorRevised gap char c c') :
    Agree True (fun b b' => lk.place b.pos b'.pos) (lk.CursorRevised gap char) (c.skipBlank false) (c'.skipBlank false) :=
  ok.skipFrom_revised h.rest h.pos

/-! ### Lexemes -/

theorem digits_eq (h : List.Forall₂ char cs cs') (hdigits : ∀ c ∈ cs, isDigit c = true) : cs = cs' := by
  induction h with
  | nil => rfl
  | cons hc _ ih =>
    have hdigit := hdigits _ (List.mem_cons_self ..)
    have heq := (ok.char_cases hc).resolve_right fun hboth => by simp [(isDigit_ne hdigit).2.2.2] at hboth
    rw [heq, ih fun c hmem => hdigits c (List.mem_cons_of_mem _ hmem)]

theorem token_char {rest rest' : List Char} (hquote : c ≠ '"') (hbrace : c ≠ '{') (hc : char c c')
    (hrest : Revised gap char rest rest') (hpos : lk.place p q) :
    lk.TokenLike (Cursor.token ⟨p, c :: rest⟩ c).1 (Cursor.token ⟨q, c' :: rest'⟩ c').1 ∧
      lk.CursorRevised gap char (Cursor.token ⟨p, c :: rest⟩ c).2 (Cursor.token ⟨q, c' :: rest'⟩ c').2 := by
  have h : Revised gap char (c :: rest) (c' :: rest') := .char hquote hbrace hc hrest
  have hadvance : lk.CursorRevised gap char (Cursor.advance ⟨p, c :: rest⟩ 1) (Cursor.advance ⟨q, c' :: rest'⟩ 1) :=
    ⟨ok.place_char hc hpos, hrest⟩
  have hlf := ok.eq_iff hc (by decide : isNameStart '\n' = false)
  have hquote' := mt (ok.eq_iff hc (by decide : isNameStart '"' = false)).mpr hquote
  unfold Cursor.token
  simp only [hlf, ok.isNameStart_eq hc, ok.isDigit_eq hc, if_neg hquote, if_neg hquote']
  split
  · exact ⟨.lineEnd, hadvance⟩
  split
  · obtain ⟨hrun, hleft⟩ := span_revised (fun _ _ hd => ok.isNameChar_eq hd) (fun _ => isNameChar_ne) h
    exact ⟨.word (ok.word hrun), ok.place_chars hrun hpos, hleft⟩
  split
  · have hclass : ∀ d, isDigit d = true → d ≠ '"' ∧ d ≠ '{' ∧ isBlank d = false := by
      intro d hd
      exact isNameChar_ne (by simp [isNameChar, hd])
    obtain ⟨hrun, hleft⟩ := span_revised (fun _ _ hd => ok.isDigit_eq hd) hclass h
    have hdigits := ok.digits_eq hrun fun d hd => List.mem_takeWhile_imp hd
    refine ⟨?_, ok.place_chars hrun hpos, hleft⟩
    change lk.TokenLike (.numeral ((c :: rest).takeWhile isDigit)) (.numeral ((c' :: rest').takeWhile isDigit))
    rw [hdigits]
    exact .numeral _
  · rename_i hname _
    -- Only characters of names may differ.
    obtain rfl : c = c' := (ok.char_cases hc).resolve_right fun hboth => hname hboth.2
    exact ⟨.mark c, hadvance⟩

theorem token_revised {d : Char} {ds : List Char} (hstart : startsGap (d :: ds) = false)
    (h : Revised gap char (d :: ds) cs') (hpos : lk.place p q) :
    ∃ d' ds', cs' = d' :: ds' ∧ lk.TokenLike (Cursor.token ⟨p, d :: ds⟩ d).1 (Cursor.token ⟨q, d' :: ds'⟩ d').1 ∧
      lk.CursorRevised gap char (Cursor.token ⟨p, d :: ds⟩ d).2 (Cursor.token ⟨q, d' :: ds'⟩ d').2 := by
  generalize hcs : d :: ds = cs at h hstart
  cases h with
  | nil => cases hcs
  | gap hg _ hne _ _ _ => simp [hg.startsGap hne] at hstart
  | char hquote hbrace hc hrest =>
    cases hcs
    exact ⟨_, _, rfl, ok.token_char hquote hbrace hc hrest hpos⟩
  | @text body rest rest' hbody hrest =>
    cases hcs
    refine ⟨_, _, rfl, ?_⟩
    rw [Cursor.token_quote, Cursor.token_quote, Cursor.quoted_eq_some hbody, Cursor.quoted_eq_some hbody]
    exact ⟨.text _, Likeness.place_afterAll hpos _, hrest⟩
  | openText hr hr' hrest =>
    cases hcs
    refine ⟨_, _, rfl, ?_⟩
    rw [Cursor.token_quote, Cursor.token_quote, Cursor.quoted_eq_none hr, Cursor.quoted_eq_none hr']
    exact ⟨.openText, lk.place_after '"' hpos, hrest⟩
  | openComment => simp [startsGap] at hstart

/-- The lexemes of a text and of its revision are alike. -/
theorem lexemes_revised {c c' : Cursor} (h : lk.CursorRevised gap char c c') : lk.LexemesLike c.lexemes c'.lexemes := by
  fun_induction Cursor.lexemes c generalizing c' with
  | case1 c brace hskip =>
    obtain ⟨brace', hskip', hbrace⟩ := (hskip ▸ ok.skipBlank_revised h).of_error
    rw [Cursor.lexemes_eq_open hskip']
    exact ⟨.cons ⟨.openComment, hbrace, rfl⟩ .nil, hbrace⟩
  | case2 c e hskip hnil =>
    obtain ⟨e', hskip', he⟩ := (hskip ▸ ok.skipBlank_revised h).of_ok
    rw [Cursor.lexemes_eq_nil hskip' ((hnil ▸ he.rest).eq_nil)]
    exact ⟨.nil, he.pos⟩
  | case3 c e hskip d ds hd next later =>
    rename_i ih
    obtain ⟨e', hskip', he⟩ := (hskip ▸ ok.skipBlank_revised h).of_ok
    -- A token is attached if no gap stands in front of it.
    have hatt : decide (e.pos = c.pos) = decide (e'.pos = c'.pos) := by
      rw [decide_eq_decide, Cursor.skipBlank_pos_eq hskip, Cursor.skipBlank_pos_eq hskip',
        Cursor.skipFrom_rest_eq hskip, Cursor.skipFrom_rest_eq hskip', ok.startsGap_eq h.rest]
    obtain ⟨d', ds', hd', htoken, hleft⟩ := ok.token_revised (hd ▸ Cursor.skipFrom_stops hskip) (hd ▸ he.rest) he.pos
    rw [← hd, ← hd'] at htoken hleft
    rw [Cursor.lexemes_eq_cons hskip' hd']
    have hlater := ih hleft
    exact ⟨.cons ⟨htoken, he.pos, hatt⟩ hlater.items, hlater.finish⟩

end Allows

end Likeness

end GraphicsBatch
