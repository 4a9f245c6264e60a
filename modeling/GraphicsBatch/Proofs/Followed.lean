import Mathlib.Data.List.TakeWhile
import GraphicsBatch.Proofs.RoundTrip
import GraphicsBatch.Proofs.Tracking

/-!
# Texts behind one another

Cutting a text into lexemes does not look past a line feed: the lexemes of two texts with a line feed between them are
those of the first text, a line end and those of the second one. Where the second text starts only matters for places.
-/

namespace GraphicsBatch

namespace Source

/-! ## Line feeds -/

theorem normalize_append_lineFeed (cs ds : List Char) : ∃ body gap, normalize cs = body ++ gap ∧
    (∀ c ∈ gap, isBlank c = true) ∧ normalize (cs ++ '\n' :: ds) = body ++ '\n' :: normalize ds ∧
    body.count '\n' = cs.count '\n' := by
  fun_induction normalize cs with
  | case1 cs ih =>
    obtain ⟨body, gap, heq, hgap, hjoin, hcount⟩ := ih
    refine ⟨'\n' :: body, gap, by rw [heq, List.cons_append], hgap, ?_, ?_⟩
    · rw [List.cons_append, List.cons_append, normalize, hjoin, List.cons_append]
    · simp [hcount]
  | case2 c cs hnot ih =>
    obtain ⟨body, gap, heq, hgap, hjoin, hcount⟩ := ih
    by_cases hlast : c = '\r' ∧ cs = []
    · -- The carriage return is dropped in front of the line feed, and is a blank without it.
      obtain ⟨rfl, rfl⟩ := hlast
      refine ⟨[], ['\r'], rfl, List.forall_mem_singleton.mpr rfl, ?_, rfl⟩
      rw [List.singleton_append, normalize, List.nil_append]
    · have hcons : ¬ (c = '\r' ∧ (cs ++ '\n' :: ds).head? = some '\n') := by
        rintro ⟨rfl, hhead⟩
        cases cs with
        | nil => exact hlast ⟨rfl, rfl⟩
        | cons x xs =>
          rw [List.cons_append, List.head?_cons, Option.some.injEq] at hhead
          exact hnot xs rfl (by rw [hhead])
      refine ⟨c :: body, gap, by rw [heq, List.cons_append], hgap, ?_, ?_⟩
      · rw [List.cons_append, normalize_cons hcons, hjoin, List.cons_append]
      · rw [List.count_cons, List.count_cons, hcount]
  | case3 => exact ⟨[], [], rfl, by simp, normalize_lineFeed ds, rfl⟩

/-! ## A text with a tail -/

/-- The same place with more text behind. -/
def Cursor.followedBy (c : Cursor) (tail : List Char) : Cursor := ⟨c.pos, c.rest ++ tail⟩

/-- A text that ends the lexeme in front of it: it goes on with no name or numeral and closes no quote. -/
structure Closes (tail : List Char) : Prop where
  name : EndsName tail
  text : (tail.dropWhile fun x => x != '"' && x != '\n').head? ≠ some '"'

theorem Closes.lineFeed (rest : List Char) : Closes ('\n' :: rest) where
  name := by simp [EndsName, isNameChar, isNameStart, isDigit]
  text := by simp

theorem Closes.blanks {gap : List Char} (h : ∀ c ∈ gap, isBlank c = true) : Closes gap where
  name := by
    intro c hc
    have hblank := h c (List.mem_of_mem_head? hc)
    by_contra hname
    simp only [isNameChar, Bool.not_eq_false, Bool.or_eq_true] at hname
    rcases hname with hstart | hdigit
    · simp [(isNameStart_ne hstart).2.2] at hblank
    · simp [(isDigit_ne hdigit).2.2.1] at hblank
  text := by
    have hnil : gap.dropWhile (fun x => x != '"' && x != '\n') = [] := by
      rw [List.dropWhile_eq_nil_iff]
      intro c hc
      have hquote : c ≠ '"' := by
        rintro rfl
        exact absurd (h _ hc) (by decide)
      simp [hquote, (isBlank_ne (h c hc)).2]
    simp [hnil]

namespace Cursor

variable {c : Cursor} {d : Char} {ds tail : List Char}

theorem advance_followedBy (h : c.rest = d :: ds) : (c.followedBy tail).advance 1 = (c.advance 1).followedBy tail := by
  simp [advance, followedBy, h]

theorem span_followedBy {f : Char → Bool} (h : c.rest.dropWhile f = [] → ∀ x ∈ tail.head?, f x = false) :
    (c.followedBy tail).span f = ((c.span f).1, (c.span f).2.followedBy tail) := by
  have hhead : ∀ x ∈ (c.rest.dropWhile f ++ tail).head?, f x = false := by
    intro x hx
    cases hdrop : c.rest.dropWhile f with
    | nil =>
      rw [hdrop, List.nil_append] at hx
      exact h hdrop x hx
    | cons y ys =>
      have hy := List.head?_dropWhile_not f c.rest
      rw [hdrop] at hx hy
      simp only [List.cons_append, List.head?_cons, Option.mem_some_iff] at hx
      subst hx
      simpa using hy
  have hrun : ∀ x ∈ c.rest.takeWhile f, f x = true := fun x hx => List.mem_takeWhile_imp hx
  have hspan : span ⟨c.pos, c.rest.takeWhile f ++ (c.rest.dropWhile f ++ tail)⟩ f = _ := span_eq hrun hhead
  rw [← List.append_assoc, List.takeWhile_append_dropWhile] at hspan
  exact hspan

theorem quoted_followedBy (hd : c.rest = d :: ds) (htail : Closes tail) :
    (c.followedBy tail).quoted = c.quoted.map fun r => (r.1, r.2.followedBy tail) := by
  unfold quoted
  rw [advance_followedBy hd]
  generalize c.advance 1 = e
  cases hdrop : e.rest.dropWhile (fun x => x != '"' && x != '\n') with
  | nil =>
    -- Nothing ends the quoted text before the tail, and what ends it there is no quote.
    have hrest : (e.rest ++ tail).dropWhile (fun x => x != '"' && x != '\n') =
        tail.dropWhile (fun x => x != '"' && x != '\n') :=
      List.dropWhile_append_of_pos (List.dropWhile_eq_nil_iff.mp hdrop)
    simp only [span, followedBy, hdrop, hrest, Option.map_none]
    split
    · rename_i heq
      exact absurd (by rw [heq]; rfl) htail.text
    · rfl
  | cons y ys =>
    rw [span_followedBy (by simp [hdrop])]
    simp only [span, followedBy, hdrop, List.cons_append]
    split
    · rename_i heq
      cases heq
      rfl
    · rename_i hy
      split
      · rename_i heq
        cases heq
        exact (hy _ rfl).elim
      · rfl

theorem token_followedBy (hd : c.rest = d :: ds) (htail : Closes tail) :
    (c.followedBy tail).token d = ((c.token d).1, (c.token d).2.followedBy tail) := by
  unfold token
  split
  · rw [advance_followedBy hd]
  split
  · rw [span_followedBy fun _ => htail.name]
  split
  · unfold number
    rw [span_followedBy fun _ => htail.name.not_digit]
  split
  · rw [quoted_followedBy hd htail]
    cases c.quoted with
    | none => rw [Option.map_none, advance_followedBy hd]
    | some r => rfl
  · rw [advance_followedBy hd]

theorem skipFrom_append (newlines : Bool) (opened : Option Cursor) (p : Position) (cs : List Char) :
    skipFrom newlines (opened.map (·.followedBy tail)) p (cs ++ tail) =
      match skipFrom newlines opened p cs with
      | .ok e => if e.rest = [] then skipFrom newlines none e.pos tail else .ok (e.followedBy tail)
      | .error brace => skipFrom newlines (some (brace.followedBy tail)) (p.afterAll cs) tail := by
  fun_induction skipFrom newlines opened p cs with
  | case1 p => rfl
  | case2 opened p => rfl
  | case3 opened p c cs ih =>
    have hopened : (if c = '}' then none else some opened).map (·.followedBy tail) =
        if c = '}' then none else some (opened.followedBy tail) := by
      split <;> rfl
    rw [hopened] at ih
    rw [List.cons_append, Option.map_some, skipFrom]
    exact ih
  | case4 p cs ih =>
    rw [List.cons_append, Option.map_none, skipFrom, if_pos rfl]
    exact ih
  | case5 p c cs hbrace hblank ih =>
    rw [List.cons_append, Option.map_none, skipFrom, if_neg hbrace, if_pos hblank]
    exact ih
  | case6 p c cs hbrace hblank =>
    rw [List.cons_append, Option.map_none, skipFrom, if_neg hbrace, if_neg hblank]
    rfl

theorem skipFrom_open {newlines : Bool} {brace : Cursor} {p : Position} {cs : List Char} (h : '}' ∉ cs) :
    skipFrom newlines (some brace) p cs = .error brace := by
  induction cs generalizing p with
  | nil => rfl
  | cons c cs ih =>
    simp only [List.mem_cons, not_or] at h
    rw [skipFrom, if_neg (Ne.symm h.1)]
    exact ih h.2

theorem skipFrom_blanks {newlines : Bool} {p : Position} {gap : List Char} (h : ∀ c ∈ gap, isBlank c = true) :
    skipFrom newlines none p gap = .ok ⟨p.afterAll gap, []⟩ := by
  induction gap generalizing p with
  | nil => rfl
  | cons c gap ih =>
    have hc := h c List.mem_cons_self
    rw [skipFrom, if_neg (isBlank_ne hc).1, if_pos (by simp [hc])]
    exact ih fun x hx => h x (List.mem_cons_of_mem _ hx)

theorem skipBlank_followedBy {e : Cursor} {newlines : Bool} (h : c.skipBlank newlines = .ok e) :
    (c.followedBy tail).skipBlank newlines =
      if e.rest = [] then skipFrom newlines none e.pos tail else .ok (e.followedBy tail) := by
  have happ : skipFrom newlines none c.pos (c.rest ++ tail) = _ := skipFrom_append newlines none c.pos c.rest
  unfold skipBlank at h
  rw [h] at happ
  exact happ

/-! ## Where a text ends -/

/-- The place behind all that is left. -/
def finish (c : Cursor) : Position := c.pos.afterAll c.rest

theorem finish_advance (n : Nat) : (c.advance n).finish = c.finish := by
  unfold finish advance
  rw [← Position.afterAll_append, List.take_append_drop]

theorem finish_span (f : Char → Bool) : (c.span f).2.finish = c.finish := by
  unfold finish span
  rw [← Position.afterAll_append, List.takeWhile_append_dropWhile]

theorem finish_token (d : Char) : (c.token d).2.finish = c.finish := by
  unfold token
  split
  · exact finish_advance 1
  split
  · exact finish_span isNameChar
  split
  · exact finish_span isDigit
  split
  · cases hq : c.quoted with
    | none => exact finish_advance 1
    | some r =>
      unfold quoted at hq
      dsimp only at hq
      split at hq
      · cases hq
        rw [finish_advance, finish_span, finish_advance]
      · cases hq
  · exact finish_advance 1

theorem finish_skipBlank {e : Cursor} {newlines : Bool} (h : c.skipBlank newlines = .ok e) : e.finish = c.finish := by
  obtain ⟨pre, hpre, hpos⟩ := skipFrom_eq_ok h
  unfold finish
  rw [hpre, hpos, Position.afterAll_append]

theorem skipBlank_pos_eq {e : Cursor} {newlines : Bool} (h : c.skipBlank newlines = .ok e) :
    e.pos = c.pos ↔ e.rest = c.rest := by
  obtain ⟨pre, hpre, hpos⟩ := skipFrom_eq_ok h
  rw [hpos, hpre, Position.afterAll_eq_self, List.self_eq_append_left]

/-! ## Two texts with a line feed between them -/

theorem lexemes_eq_cons {e : Cursor} (hskip : c.skipBlank false = .ok e) (hd : e.rest = d :: ds) :
    c.lexemes = .cons ⟨(e.token d).1, e.pos, e.pos = c.pos⟩ (lexemes (e.token d).2) := by
  rw [lexemes]
  split
  · rename_i heq
    rw [hskip] at heq
    cases heq
  · rename_i heq
    rw [hskip] at heq
    cases heq
    split
    · rename_i hr
      rw [hd] at hr
      cases hr
    · rename_i hr
      rw [hd] at hr
      cases hr
      rfl

theorem lexemes_eq_nil {e : Cursor} (hskip : c.skipBlank false = .ok e) (hnil : e.rest = []) :
    c.lexemes = ⟨[], e.pos⟩ := by
  rw [lexemes]
  split
  · rename_i heq
    rw [hskip] at heq
    cases heq
  · rename_i heq
    rw [hskip] at heq
    cases heq
    split
    · rfl
    · rename_i hr
      rw [hnil] at hr
      cases hr

theorem lexemes_eq_open {brace : Cursor} (hskip : c.skipBlank false = .error brace) :
    c.lexemes = ⟨[⟨.openComment, brace.pos, false⟩], brace.pos⟩ := by
  rw [lexemes]
  split
  · rename_i heq
    rw [hskip] at heq
    cases heq
    rfl
  · rename_i heq
    rw [hskip] at heq
    cases heq

theorem lexemes_followedBy_lineFeed {gap : List Char} (hgap : ∀ x ∈ gap, isBlank x = true) (rest : List Char)
    (c : Cursor) (hclosed : (c.followedBy gap).lexemes.Closed) :
    ∃ att, (c.followedBy ('\n' :: rest)).lexemes =
      ⟨(c.followedBy gap).lexemes.items ++ ⟨.lineEnd, c.finish, att⟩ :: (lexemes ⟨c.finish.after '\n', rest⟩).items,
        (lexemes ⟨c.finish.after '\n', rest⟩).finish⟩ := by
  fun_induction lexemes c with
  | case1 c brace hskip =>
    -- Blanks do not close the comment.
    have hgap' : '}' ∉ gap := fun hmem => absurd (hgap _ hmem) (by decide)
    have hopen : skipFrom false none c.pos (c.rest ++ gap) = _ := skipFrom_append false none c.pos c.rest
    unfold skipBlank at hskip
    rw [hskip] at hopen
    dsimp only at hopen
    rw [skipFrom_open hgap'] at hopen
    rw [lexemes_eq_open (c := c.followedBy gap) hopen] at hclosed
    exact absurd rfl (hclosed _ (List.mem_singleton_self _))
  | case2 c e hskip hnil =>
    -- All that is left is skipped, and then the line feed is a lexeme.
    have hend : (c.followedBy gap).skipBlank false = .ok ⟨e.pos.afterAll gap, []⟩ := by
      rw [skipBlank_followedBy hskip, if_pos hnil, skipFrom_blanks hgap]
    have hline : (c.followedBy ('\n' :: rest)).skipBlank false = .ok ⟨e.pos, '\n' :: rest⟩ := by
      rw [skipBlank_followedBy hskip, if_pos hnil]
      rfl
    have hpos : e.pos = c.finish := by
      rw [← finish_skipBlank hskip, finish, hnil, Position.afterAll_nil]
    rw [lexemes_eq_nil hend rfl, lexemes_eq_cons hline rfl, hpos]
    exact ⟨_, rfl⟩
  | case3 c e hskip d ds hd next later ih =>
    have hne : e.rest ≠ [] := by simp [hd]
    have hstep : ∀ {tail : List Char}, Closes tail → (c.followedBy tail).lexemes =
        .cons ⟨next.1, e.pos, e.pos = c.pos⟩ (lexemes (next.2.followedBy tail)) := by
      intro tail htail
      have hskip' : (c.followedBy tail).skipBlank false = .ok (e.followedBy tail) := by
        rw [skipBlank_followedBy hskip, if_neg hne]
      have hd' : (e.followedBy tail).rest = d :: (ds ++ tail) := by
        rw [followedBy, hd, List.cons_append]
      rw [lexemes_eq_cons hskip' hd', token_followedBy hd htail]
      rfl
    have hfinish : next.2.finish = c.finish := by rw [finish_token, finish_skipBlank hskip]
    rw [hstep (.blanks hgap)] at hclosed ⊢
    rw [hstep (.lineFeed rest)]
    obtain ⟨att, hlater⟩ := ih fun l hl => hclosed l (List.mem_cons_of_mem _ hl)
    rw [hfinish] at hlater
    refine ⟨att, ?_⟩
    rw [hlater]
    rfl

end Cursor

end Source

/-! ## The same text at another place -/

namespace Likeness

open Source

variable {lk : Likeness} {c c' : Cursor} {p q : Position}

/-- Cursors at places that correspond, with the same text left. -/
structure CursorLike (lk : Likeness) (c c' : Cursor) : Prop where
  pos : lk.place c.pos c'.pos
  rest : c.rest = c'.rest

theorem place_afterAll (h : lk.place p q) (cs : List Char) : lk.place (p.afterAll cs) (q.afterAll cs) := by
  induction cs generalizing p q with
  | nil => exact h
  | cons c cs ih => exact ih (lk.place_after c h)

theorem quoted_like (h : lk.place p q) (cs : List Char) :
    Option.Rel (fun r r' => r.1 = r'.1 ∧ lk.CursorLike r.2 r'.2) (Cursor.quoted ⟨p, cs⟩) (Cursor.quoted ⟨q, cs⟩) := by
  simp only [Cursor.quoted, Cursor.advance, Cursor.span]
  split
  · exact .some ⟨rfl, place_afterAll (place_afterAll (place_afterAll h _) _) _, rfl⟩
  · exact .none

theorem token_like (h : lk.place p q) (cs : List Char) (d : Char) :
    (Cursor.token ⟨p, cs⟩ d).1 = (Cursor.token ⟨q, cs⟩ d).1 ∧
      lk.CursorLike (Cursor.token ⟨p, cs⟩ d).2 (Cursor.token ⟨q, cs⟩ d).2 := by
  have hadvance : lk.CursorLike (Cursor.advance ⟨p, cs⟩ 1) (Cursor.advance ⟨q, cs⟩ 1) := ⟨place_afterAll h _, rfl⟩
  unfold Cursor.token
  split
  · exact ⟨rfl, hadvance⟩
  split
  · exact ⟨rfl, place_afterAll h _, rfl⟩
  split
  · exact ⟨rfl, place_afterAll h _, rfl⟩
  split
  · have hquoted := quoted_like h cs
    revert hquoted
    generalize Cursor.quoted ⟨p, cs⟩ = r, Cursor.quoted ⟨q, cs⟩ = r'
    intro hquoted
    cases hquoted with
    | some hr => exact ⟨congrArg (fun body => Token.text (String.ofList body)) hr.1, hr.2⟩
    | none => exact ⟨rfl, hadvance⟩
  · exact ⟨rfl, hadvance⟩

theorem skipFrom_like (newlines : Bool) {opened opened' : Option Cursor}
    (hopened : Option.Rel lk.CursorLike opened opened') (hpos : lk.place p q) (cs : List Char) :
    Agree True lk.CursorLike lk.CursorLike
      (Cursor.skipFrom newlines opened p cs) (Cursor.skipFrom newlines opened' q cs) := by
  fun_induction Cursor.skipFrom newlines opened p cs generalizing opened' q with
  | case1 p =>
    cases hopened
    exact ⟨hpos, rfl⟩
  | case2 opened p =>
    cases hopened with
    | some h => exact fun _ => h
  -- Inside a comment: its end closes it, anything else leaves it open.
  | case3 opened p c cs ih =>
    cases hopened with
    | some h =>
      refine ih ?_ (lk.place_after c hpos)
      split
      · exact .none
      · exact .some h
  | case4 p cs ih =>
    cases hopened
    rw [Cursor.skipFrom, if_pos rfl]
    exact ih (.some ⟨hpos, rfl⟩) (lk.place_after _ hpos)
  | case5 p c cs hbrace hblank ih =>
    cases hopened
    rw [Cursor.skipFrom, if_neg hbrace, if_pos hblank]
    exact ih .none (lk.place_after c hpos)
  | case6 p c cs hbrace hblank =>
    cases hopened
    rw [Cursor.skipFrom, if_neg hbrace, if_neg hblank]
    exact ⟨hpos, rfl⟩

theorem skipBlank_like (h : lk.CursorLike c c') :
    Agree True lk.CursorLike lk.CursorLike (c.skipBlank false) (c'.skipBlank false) := by
  unfold Cursor.skipBlank
  rw [← h.rest]
  exact skipFrom_like false .none h.pos c.rest

theorem lexemes_like (hword : ∀ a, lk.word a a) (h : lk.CursorLike c c') :
    List.Forall₂ lk.LexemeLike c.lexemes.items c'.lexemes.items ∧ lk.place c.lexemes.finish c'.lexemes.finish := by
  fun_induction Cursor.lexemes c generalizing c' with
  | case1 c brace hskip =>
    obtain ⟨brace', hskip', hbrace⟩ := (hskip ▸ skipBlank_like h).of_error
    rw [Cursor.lexemes_eq_open hskip']
    exact ⟨.cons ⟨.openComment, hbrace.pos, rfl⟩ .nil, hbrace.pos⟩
  | case2 c e hskip hnil =>
    obtain ⟨e', hskip', he⟩ := (hskip ▸ skipBlank_like h).of_ok
    rw [Cursor.lexemes_eq_nil hskip' (he.rest ▸ hnil)]
    exact ⟨.nil, he.pos⟩
  | case3 c e hskip d ds hd next later =>
    rename_i ih
    obtain ⟨e', hskip', he⟩ := (hskip ▸ skipBlank_like h).of_ok
    have hatt : decide (e.pos = c.pos) = decide (e'.pos = c'.pos) := by
      rw [decide_eq_decide, Cursor.skipBlank_pos_eq hskip, Cursor.skipBlank_pos_eq hskip', he.rest, h.rest]
    have hnext : next.1 = (e'.token d).1 ∧ lk.CursorLike next.2 (e'.token d).2 := by
      have htoken := token_like he.pos e.rest d
      rwa [show (⟨e'.pos, e.rest⟩ : Cursor) = e' by rw [he.rest]] at htoken
    rw [Cursor.lexemes_eq_cons hskip' (he.rest ▸ hd)]
    have hlater := ih hnext.2
    exact ⟨.cons ⟨hnext.1 ▸ TokenLike.refl hword _, he.pos, hatt⟩ hlater.1, hlater.2⟩

end Likeness

end GraphicsBatch
