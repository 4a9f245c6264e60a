import GraphicsBatch.Proofs.Places
import GraphicsBatch.Source.Reader
import Mathlib.Data.List.Induction

/-!
# What is skipped between words

Blanks, comments and, where they do not count, line feeds are skipped as far as they go. A comment that is never closed
cannot be skipped, and is an error at its brace. Offsets in a text and places in it are ordered alike.
-/

namespace GraphicsBatch

open Source

/-! ## Counting lines and columns -/

namespace Position

theorem line_afterAll (p : Position) (cs : List Char) : (p.afterAll cs).line = p.line + cs.count '\n' := by
  induction cs generalizing p with
  | nil => simp
  | cons c cs ih =>
    rw [afterAll_cons, ih, after]
    by_cases hc : c = '\n'
    · rw [if_pos hc, hc, List.count_cons_self]
      dsimp only
      omega
    · rw [if_neg hc, List.count_cons_of_ne hc]

/-- The characters behind the last line feed. -/
def lastLine (cs : List Char) : List Char := (cs.reverse.takeWhile (· ≠ '\n')).reverse

theorem lastLine_concat (cs : List Char) (c : Char) :
    lastLine (cs ++ [c]) = if c = '\n' then [] else lastLine cs ++ [c] := by
  unfold lastLine
  rw [List.reverse_append, List.reverse_singleton, List.singleton_append, List.takeWhile_cons]
  by_cases hc : c = '\n' <;> simp [hc]

theorem col_afterAll_start (cs : List Char) : (start.afterAll cs).col = 1 + (lastLine cs).length := by
  induction cs using List.reverseRecOn with
  | nil => rfl
  | append_singleton cs c ih =>
    rw [afterAll_append, afterAll_cons, afterAll_nil, lastLine_concat, after]
    by_cases hc : c = '\n'
    · simp [hc]
    · simp only [if_neg hc, List.length_append, List.length_singleton]
      omega

theorem ofOffset_natCast {text : List Char} {k : Nat} (hk : k ≤ text.length) :
    ofOffset text k = start.afterAll (text.take k) := by
  have hcount : countBefore text.length k = k := by
    unfold countBefore
    rw [if_neg (by omega), Int.toNat_natCast, Nat.min_eq_left hk]
  unfold ofOffset
  rw [hcount]
  simp

theorem ofOffset_before {text : List Char} {p q : Nat} (hpq : p < q) (hq : q ≤ text.length) :
    (ofOffset text p).Before (ofOffset text q) := by
  have hmore : (text.take q).drop p ≠ [] := by
    apply List.ne_nil_of_length_pos
    simp
    omega
  have hsplit : text.take p ++ (text.take q).drop p = text.take q := by
    have htake : (text.take q).take p = text.take p := by rw [List.take_take, Nat.min_eq_left (by omega)]
    rw [← htake, List.take_append_drop]
  rw [ofOffset_natCast (by omega), ofOffset_natCast hq, ← hsplit, afterAll_append]
  exact before_afterAll _ hmore

theorem ofOffset_before_iff {text : List Char} {p q : Nat} (hp : p ≤ text.length) (hq : q ≤ text.length) :
    (ofOffset text p).Before (ofOffset text q) ↔ p < q := by
  constructor
  · intro hbefore
    by_contra hle
    rcases Nat.lt_or_eq_of_le (Nat.le_of_not_lt hle) with hlt | rfl
    · exact (hbefore.trans (ofOffset_before hlt hp)).ne rfl
    · exact hbefore.ne rfl
  · intro hlt
    exact ofOffset_before hlt hq

theorem ofOffset_inj {text : List Char} {p q : Nat} (hp : p ≤ text.length) (hq : q ≤ text.length)
    (h : ofOffset text p = ofOffset text q) : p = q := by
  rcases Nat.lt_trichotomy p q with hlt | heq | hlt
  · exact absurd h (ofOffset_before hlt hq).ne
  · exact heq
  · exact absurd h.symm (ofOffset_before hlt hp).ne

end Position

namespace Source

/-! ## What can be skipped -/

/-- A run of blanks, of comments that are closed and, if `newlines` is set, of line feeds. A comment ends at the first
closing brace. -/
inductive Skippable (newlines : Bool) : List Char → Prop where
  | nil : Skippable newlines []
  | blank {c : Char} {g : List Char} : isBlank c = true → Skippable newlines g → Skippable newlines (c :: g)
  | lineFeed {g : List Char} : newlines = true → Skippable newlines g → Skippable newlines ('\n' :: g)
  | comment {body g : List Char} : '}' ∉ body → Skippable newlines g → Skippable newlines ('{' :: (body ++ '}' :: g))

/-- Nothing can be skipped at the front of a text. -/
inductive Stuck (newlines : Bool) : List Char → Prop where
  | atEnd : Stuck newlines []
  | char {c : Char} {cs : List Char} : c ≠ '{' → isBlank c = false → (newlines = true → c ≠ '\n') →
      Stuck newlines (c :: cs)
  | openComment {body : List Char} : '}' ∉ body → Stuck newlines ('{' :: body)

/-- The longest part at the front of a text that can be skipped. -/
structure LongestSkip (newlines : Bool) (gap cs : List Char) : Prop where
  skippable : Skippable newlines gap
  front : gap <+: cs
  longest : ∀ g, Skippable newlines g → g <+: cs → g <+: gap

variable {newlines : Bool} {gap gap' rest rest' : List Char}

theorem exists_skippable (newlines : Bool) (cs : List Char) :
    ∃ gap rest, cs = gap ++ rest ∧ Skippable newlines gap ∧ Stuck newlines rest := by
  -- A comment is skipped at once, so the induction is on the length.
  induction hn : cs.length using Nat.strong_induction_on generalizing cs with
  | _ n ih =>
    cases cs with
    | nil => exact ⟨[], [], rfl, .nil, .atEnd⟩
    | cons c cs =>
      rw [List.length_cons] at hn
      by_cases hbrace : c = '{'
      · subst hbrace
        by_cases hclosed : '}' ∈ cs
        · obtain ⟨body, more, rfl, hbody⟩ := List.eq_append_cons_of_mem hclosed
          simp only [List.length_append, List.length_cons] at hn
          obtain ⟨gap, rest, rfl, hgap, hrest⟩ := ih more.length (by omega) more rfl
          exact ⟨'{' :: (body ++ '}' :: gap), rest, by simp, .comment hbody hgap, hrest⟩
        · exact ⟨[], '{' :: cs, rfl, .nil, .openComment hclosed⟩
      · obtain ⟨gap, rest, hcs, hgap, hrest⟩ := ih cs.length (by omega) cs rfl
        by_cases hblank : isBlank c = true
        · exact ⟨c :: gap, rest, by rw [hcs, List.cons_append], .blank hblank hgap, hrest⟩
        · by_cases hfeed : newlines = true ∧ c = '\n'
          · obtain ⟨hnewlines, rfl⟩ := hfeed
            exact ⟨'\n' :: gap, rest, by rw [hcs, List.cons_append], .lineFeed hnewlines hgap, hrest⟩
          · refine ⟨[], c :: cs, rfl, .nil, .char hbrace (by simpa using hblank) ?_⟩
            intro hnewlines heq
            exact hfeed ⟨hnewlines, heq⟩

namespace Cursor

theorem skipFrom_skippable (hgap : Skippable newlines gap) (p : Position) (rest : List Char) :
    skipFrom newlines none p (gap ++ rest) = skipFrom newlines none (p.afterAll gap) rest := by
  induction hgap generalizing p with
  | nil => rfl
  | blank hblank _ ih =>
    rw [List.cons_append, skipFrom, if_neg (isBlank_ne hblank).1, if_pos (by simp [hblank]), ih, Position.afterAll_cons]
  | lineFeed hnewlines _ ih =>
    rw [List.cons_append, skipFrom, if_neg (by decide), if_pos (by simp [hnewlines]), ih, Position.afterAll_cons]
  | comment hbody _ ih =>
    rw [List.cons_append, List.append_assoc, List.cons_append, skipFrom, if_pos rfl, skipFrom_comment hbody, ih,
      Position.afterAll_cons, Position.afterAll_append, Position.afterAll_cons]

theorem skipFrom_stuck (hrest : Stuck newlines rest) (p : Position) :
    skipFrom newlines none p rest = if rest.head? = some '{' then .error ⟨p, rest⟩ else .ok ⟨p, rest⟩ := by
  cases hrest with
  | atEnd => rfl
  | @char c cs hbrace hblank hfeed =>
    have hstays : ¬ (isBlank c || (newlines && decide (c = '\n'))) = true := by
      simp only [hblank, Bool.false_or, Bool.and_eq_true, decide_eq_true_eq, not_and]
      exact hfeed
    rw [skipFrom, if_neg hbrace, if_neg hstays, List.head?_cons, if_neg (by simpa using hbrace)]
  | openComment hbody =>
    rw [skipFrom, if_pos rfl, skipFrom_open hbody]
    rfl

theorem skipFrom_eq (hgap : Skippable newlines gap) (hrest : Stuck newlines rest) (p : Position) :
    skipFrom newlines none p (gap ++ rest) =
      if rest.head? = some '{' then .error ⟨p.afterAll gap, rest⟩ else .ok ⟨p.afterAll gap, rest⟩ := by
  rw [skipFrom_skippable hgap, skipFrom_stuck hrest]

end Cursor

theorem Stuck.unique (hrest : Stuck newlines rest) (hgap : Skippable newlines gap) (hgap' : Skippable newlines gap')
    (hrest' : Stuck newlines rest') (h : gap ++ rest = gap' ++ rest') : gap = gap' := by
  have hskip := Cursor.skipFrom_eq hgap hrest .start
  rw [h, Cursor.skipFrom_eq hgap' hrest'] at hskip
  have heq : rest' = rest := by
    split at hskip <;> split at hskip <;> simp_all
  subst heq
  exact List.append_cancel_right h

theorem LongestSkip.of_stuck (hgap : Skippable newlines gap) (hrest : Stuck newlines rest) :
    LongestSkip newlines gap (gap ++ rest) := by
  refine ⟨hgap, List.prefix_append gap rest, ?_⟩
  rintro g hg ⟨more, hmore⟩
  obtain ⟨gap', rest', rfl, hgap', hrest'⟩ := exists_skippable newlines more
  -- Going on behind `g` skips as much as skipping all at once.
  have hall : Skippable newlines (g ++ gap') := by
    clear hmore
    induction hg with
    | nil => exact hgap'
    | blank hblank _ ih => exact .blank hblank ih
    | lineFeed hnewlines _ ih => exact .lineFeed hnewlines ih
    | comment hbody _ ih =>
      rw [List.cons_append, List.append_assoc, List.cons_append]
      exact .comment hbody ih
  rw [← List.append_assoc] at hmore
  rw [← hrest'.unique hall hgap hrest hmore]
  exact List.prefix_append g gap'

/-! ## Readers -/

namespace Reader

/-- The reader at an offset of a text. -/
def «at» (text : List Char) (offset : Nat) : Reader := ⟨text, (Cursor.ofText text).advance offset⟩

theorem at_offset {text : List Char} {k : Nat} (hk : k ≤ text.length) : («at» text k).offset = k := by
  unfold offset «at» Cursor.advance Cursor.ofText
  simp
  omega

theorem at_position {text : List Char} {k : Nat} (hk : k ≤ text.length) :
    («at» text k).position none = («at» text k).position (some k) := (Position.ofOffset_natCast hk).symm

theorem at_advance (text : List Char) (k n : Nat) :
    (⟨text, («at» text k).cursor.advance n⟩ : Reader) = «at» text (k + n) := by
  unfold «at» Cursor.advance Cursor.ofText
  simp [← Position.afterAll_append, List.take_add]

theorem skipBlank_at {text gap rest : List Char} {k : Nat} (hk : k ≤ text.length) (hsplit : text.drop k = gap ++ rest)
    (hgap : Skippable newlines gap) (hrest : Stuck newlines rest) :
    («at» text k).skipBlank newlines =
      if rest.head? = some '{' then
        (.error (Malformed.unterminatedComment.toError (.ofOffset text ↑(k + gap.length))),
          «at» text (k + gap.length + 1))
      else (.ok (String.ofList (rest.take 1)), «at» text (k + gap.length)) := by
  have hlength : k + gap.length ≤ text.length := by
    have hdrop := congrArg List.length hsplit
    rw [List.length_drop, List.length_append] at hdrop
    omega
  have hthere : («at» text (k + gap.length)).cursor = ⟨(Position.start.afterAll (text.take k)).afterAll gap, rest⟩ := by
    rw [← at_advance]
    simp [«at», Cursor.advance, Cursor.ofText, hsplit]
  have hcursor : («at» text k).cursor.skipBlank newlines =
      if rest.head? = some '{' then .error («at» text (k + gap.length)).cursor
      else .ok («at» text (k + gap.length)).cursor := by
    rw [hthere, ← Cursor.skipFrom_eq hgap hrest, ← hsplit]
    rfl
  unfold skipBlank
  rw [hcursor]
  by_cases hbrace : rest.head? = some '{'
  · rw [if_pos hbrace, if_pos hbrace, Position.ofOffset_natCast hlength, ← at_advance text _ 1]
    rfl
  · rw [if_neg hbrace, if_neg hbrace]
    dsimp only
    rw [hthere]
    simp only [Cursor.peek, ← hthere]
    rfl

/-- Skipping moves over the longest run of blanks and comments and no further, or blames a comment that is never
closed. -/
theorem skipBlank_longest (text : List Char) (newlines : Bool) :
    (∀ k ≤ text.length, («at» text k).offset = k ∧
      («at» text k).position none = («at» text k).position (some k) ∧
      ∃ gap rest, text.drop k = gap ++ rest ∧ LongestSkip newlines gap (text.drop k) ∧ k + gap.length ≤ text.length ∧
        ((∃ body, rest = '{' :: body ∧ '}' ∉ body) ∧
            («at» text k).skipBlank newlines =
              (.error (Malformed.unterminatedComment.toError ((«at» text k).position (some ↑(k + gap.length)))),
                «at» text (k + gap.length + 1)) ∨
          rest.head? ≠ some '{' ∧
            («at» text k).skipBlank newlines = (.ok (String.ofList (rest.take 1)), «at» text (k + gap.length)) ∧
            («at» text (k + gap.length)).skipBlank newlines =
              (.ok (String.ofList (rest.take 1)), «at» text (k + gap.length)))) ∧
    (∀ k ≤ text.length, («at» text k).position (some k) =
      ⟨1 + (text.take k).count '\n', 1 + (Position.lastLine (text.take k)).length⟩) ∧
    ∀ (r : Reader), r.text = text → ∀ p ≤ text.length, ∀ q ≤ text.length,
      ((r.position (some p)).Before (r.position (some q)) ↔ p < q) ∧ (r.position (some p) = r.position (some q) ↔ p = q) := by
  refine ⟨fun k hk => ⟨at_offset hk, at_position hk, ?_⟩, fun k hk => ?_, ?_⟩
  · obtain ⟨gap, rest, hsplit, hgap, hrest⟩ := exists_skippable newlines (text.drop k)
    have hlength : k + gap.length ≤ text.length := by
      have hdrop := congrArg List.length hsplit
      rw [List.length_drop, List.length_append] at hdrop
      omega
    have hskip := skipBlank_at hk hsplit hgap hrest
    refine ⟨gap, rest, hsplit, ?_, hlength, ?_⟩
    · rw [hsplit]
      exact .of_stuck hgap hrest
    · by_cases hbrace : rest.head? = some '{'
      · left
        rw [if_pos hbrace] at hskip
        refine ⟨?_, hskip⟩
        cases hrest with
        | atEnd => simp at hbrace
        | char hne => simp [hne] at hbrace
        | openComment hbody => exact ⟨_, rfl, hbody⟩
      · right
        rw [if_neg hbrace] at hskip
        have hdrop : text.drop (k + gap.length) = [] ++ rest := by
          rw [← List.drop_drop, hsplit, List.drop_left, List.nil_append]
        have hagain := skipBlank_at hlength hdrop .nil hrest
        rw [if_neg hbrace, List.length_nil, Nat.add_zero] at hagain
        exact ⟨hbrace, hskip, hagain⟩
  · have hplace : («at» text k).position (some k) = Position.start.afterAll (text.take k) := Position.ofOffset_natCast hk
    rw [hplace, ← Position.col_afterAll_start, ← show Position.start.line = 1 from rfl, ← Position.line_afterAll]
  · rintro r rfl p hp q hq
    refine ⟨Position.ofOffset_before_iff hp hq, Position.ofOffset_inj hp hq, ?_⟩
    rintro rfl
    rfl

/-- A comment with a brace in it ends at the first closing brace, and the second one cannot be skipped. -/
def nested : List Char := " \x7ba\x7bb\x7d\n\t\x7d \x7bc".toList

theorem skipBlank_longest_nested :
    («at» nested 0).skipBlank true = (.ok "\x7d", «at» nested 8) ∧ LongestSkip true (nested.take 8) nested ∧
      (Position.ofOffset nested 5).Before (Position.ofOffset nested 8) := by
  obtain ⟨hskips, -, horder⟩ := skipBlank_longest nested true
  obtain ⟨-, -, gap, rest, hsplit, hlongest, hlength, hcases⟩ := hskips 0 (Nat.zero_le _)
  have hrun : («at» nested 0).skipBlank true = (.ok "\x7d", «at» nested 8) := by cbv
  have hgap : gap.length = 8 := by
    rcases hcases with ⟨-, herror⟩ | ⟨-, hmoves, -⟩
    · rw [hrun] at herror
      cases herror
    · rw [hrun] at hmoves
      have hoffset := congrArg (·.2.offset) hmoves
      dsimp only at hoffset
      rw [at_offset (by decide), at_offset hlength] at hoffset
      omega
  have htake : gap = nested.take 8 := by
    rw [List.drop_zero] at hsplit
    rw [hsplit, ← hgap, List.take_left]
  refine ⟨hrun, htake ▸ hlongest, ?_⟩
  exact (horder ⟨nested, default⟩ rfl 5 (by decide) 8 (by decide)).1.mpr (by decide)

end Reader

end Source

end GraphicsBatch
