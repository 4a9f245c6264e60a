import GraphicsBatch.Proofs.Joined
import GraphicsBatch.Proofs.Placed

/-!
# What becomes of a text

Every text is read to an end, command by command. Either it is a program, or a place in it is blamed, or it holds a
numeral that is too long. A label is only missed in a text that has no other fault: with the missing labels defined
behind it, it is a program.
-/

namespace GraphicsBatch

open Source

/-! ## Digits -/

theorem Source.prefix_of_prefix_normalize {run cs : List Char} (hrun : ∀ c ∈ run, isDigit c = true)
    (h : run <+: normalize cs) : run <+: cs := by
  fun_induction normalize cs generalizing run with
  | case1 cs ih =>
    cases run with
    | nil => exact List.nil_prefix
    | cons d run =>
      obtain ⟨rfl, -⟩ := List.cons_prefix_cons.mp h
      exact absurd (hrun _ List.mem_cons_self) (by decide)
  | case2 c cs _ ih =>
    cases run with
    | nil => exact List.nil_prefix
    | cons d run =>
      obtain ⟨rfl, htail⟩ := List.cons_prefix_cons.mp h
      exact List.cons_prefix_cons.mpr ⟨rfl, ih (fun x hx => hrun x (List.mem_cons_of_mem _ hx)) htail⟩
  | case3 => exact h

theorem Source.infix_of_infix_normalize {run cs : List Char} (hrun : ∀ c ∈ run, isDigit c = true)
    (h : run <:+: normalize cs) : run <:+: cs := by
  fun_induction normalize cs with
  | case1 cs ih =>
    rcases List.infix_cons_iff.mp h with h | h
    · cases run with
      | nil => exact List.nil_infix
      | cons d run =>
        obtain ⟨rfl, -⟩ := List.cons_prefix_cons.mp h
        exact absurd (hrun _ List.mem_cons_self) (by decide)
    · exact List.infix_cons (List.infix_cons (ih h))
  | case2 c cs hfeed ih =>
    rcases List.infix_cons_iff.mp h with h | h
    · have hcs : normalize (c :: cs) = c :: normalize cs := by
        rw [normalize]
        exact hfeed
      rw [← hcs] at h
      exact (prefix_of_prefix_normalize hrun h).isInfix
    · exact List.infix_cons (ih h)
  | case3 => exact h

/-! ## Labels defined behind a text -/

/-- Lines that each define a label, to be put behind a text. -/
def labelLines (names : List String) : List Char := names.flatMap fun l => '\n' :: (l.toList ++ [':'])

theorem Action.Proper.isName {a : Action} (h : a.Proper) {l : String} (hl : l ∈ a.mentions) : IsName l := by
  cases a with
  | goto target | gosub target =>
    rw [List.mem_singleton.mp hl]
    exact h
  | call c args =>
    obtain ⟨x, hx, hvalue⟩ := List.mem_filterMap.mp hl
    obtain ⟨slot, -, -, htakes⟩ := Signature.Admits.exists_slot h hx
    split at hvalue
    · rename_i name heq
      cases hvalue
      rw [heq] at htakes
      exact htakes.2
    · cases hvalue
  | _ => cases hl

theorem exists_representatives {α β : Type} (f : α → β) (xs : List α) :
    ∃ ys : List α, (∀ y ∈ ys, y ∈ xs) ∧ (ys.map f).Nodup ∧ ∀ x ∈ xs, f x ∈ ys.map f := by
  induction xs with
  | nil => exact ⟨[], by simp, by simp, by simp⟩
  | cons x xs ih =>
    obtain ⟨ys, hmem, hnodup, hall⟩ := ih
    by_cases hx : f x ∈ ys.map f
    · exact ⟨ys, fun y hy => List.mem_cons_of_mem _ (hmem y hy), hnodup, List.forall_mem_cons.mpr ⟨hx, hall⟩⟩
    · refine ⟨x :: ys, ?_, List.nodup_cons.mpr ⟨hx, hnodup⟩, ?_⟩
      · exact List.forall_mem_cons.mpr ⟨List.mem_cons_self, fun y hy => List.mem_cons_of_mem _ (hmem y hy)⟩
      · exact List.forall_mem_cons.mpr ⟨by simp, fun x' hx' => List.mem_cons_of_mem _ (hall x' hx')⟩

namespace Parse

theorem commands_label {name : String} (hname : IsName name) (pedantic : Bool) :
    commands pedantic {} (Lexemes.ofText (name.toList ++ [':'])) =
      .ok ⟨[[⟨.label name, .start⟩]], [], [Text.upper name], []⟩ := by
  obtain ⟨d, ds, hds, -, hchars⟩ := toList_of_isIdentifier hname.1
  have hfeed : '\n' ∉ name.toList ++ [':'] := by
    rw [hds]
    intro hmem
    rcases List.mem_append.mp hmem with hmem | hmem
    · exact absurd (hchars _ hmem) (by decide)
    · exact absurd hmem (by decide)
  have hnormal : normalize (name.toList ++ [':']) = name.toList ++ [':'] :=
    normalize_eq_self fun hpart => hfeed (hpart.subset (by simp))
  have hends : EndsName [':'] := by simp [EndsName, isNameChar, isNameStart, isDigit]
  have hword : (Cursor.ofText (name.toList ++ [':'])).lexemes =
      .cons ⟨.word name, .start, true⟩ (Cursor.lexemes ⟨Position.start.afterAll name.toList, [':']⟩) :=
    @Cursor.lexemes_word .start [] [':'] name (by simp) hname.1 hends
  have hadd : Draft.addLabel {} pedantic name .start = .ok ⟨[], [⟨.label name, .start⟩], [Text.upper name], []⟩ :=
    Draft.addLabel_eq_ok.mpr ⟨hname.2, fun _ => rfl, by simp, rfl⟩
  unfold Lexemes.ofText
  rw [hnormal, hword, Cursor.lexemes_mark (by decide), Cursor.lexemes_nil, commands_cons]
  have hstep : command pedantic {} ⟨.word name, .start, true⟩
      (.cons ⟨.mark ':', Position.start.afterAll name.toList, true⟩
        ⟨[], (Position.start.afterAll name.toList).after ':'⟩) =
      .ok (⟨[], [⟨.label name, .start⟩], [Text.upper name], []⟩, ⟨[], (Position.start.afterAll name.toList).after ':'⟩) :=
    afterWord_eq_ok.mpr (.inl ⟨rfl, hadd⟩)
  rw [hstep]
  show commands pedantic _ _ = _
  rw [commands]
  rfl

theorem commands_labelLines {text : List Char} {pedantic : Bool} {d : Draft} {missing : List String}
    (hd : commands pedantic {} (Lexemes.ofText text) = .ok d) (hnames : ∀ l ∈ missing, IsName l)
    (hunique : (missing.map Text.upper).Nodup) (hnew : ∀ l ∈ missing, Text.upper l ∉ d.labels) :
    ∃ e defs, commands pedantic {} (Lexemes.ofText (text ++ labelLines missing)) = .ok e ∧
      e.lines.reverse = d.lines.reverse ++ defs ∧ defs.flatten.map (·.action) = missing.map .label ∧
      (∀ K, K ∈ e.labels ↔ K ∈ d.labels ∨ K ∈ missing.map Text.upper) ∧ e.references = d.references := by
  -- Each label is a text of its own, joined to what is there by a line end.
  induction missing generalizing text d with
  | nil => exact ⟨d, [], by simpa [labelLines] using hd, by simp, rfl, by simp, rfl⟩
  | cons l missing ih =>
    obtain ⟨hl, hnames⟩ := List.forall_mem_cons.mp hnames
    obtain ⟨hfresh, hnew⟩ := List.forall_mem_cons.mp hnew
    obtain ⟨hfirst, hunique⟩ := List.nodup_cons.mp hunique
    have hjoined := commands_joined hd (commands_label hl pedantic) (List.forall_mem_singleton.mpr hfresh)
    have hnew' : ∀ l' ∈ missing, Text.upper l' ∉ Text.upper l :: d.labels := by
      intro l' hl' hmem
      rcases List.mem_cons.mp hmem with heq | hmem
      · exact hfirst (heq ▸ List.mem_map_of_mem hl')
      · exact hnew l' hl' hmem
    obtain ⟨e, defs, he, hlines, hactions, hlabels, hrefs⟩ := ih hjoined hnames hunique hnew'
    refine ⟨e, [⟨.label l, Position.start.down (1 + text.count '\n')⟩] :: defs, ?_, ?_, ?_, ?_, ?_⟩
    · rw [labelLines, List.flatMap_cons, ← List.append_assoc]
      exact he
    · rw [hlines]
      simp [Draft.onto, Draft.down, Statement.moved, Action.behind]
    · simpa using hactions
    · intro K
      rw [hlabels K]
      simp only [Draft.onto, Draft.down, List.map_cons, List.mem_cons, List.mem_append, List.not_mem_nil, or_false]
      tauto
    · exact hrefs

/-- A text that was read to its end can be followed by definitions of all labels that it misses. -/
theorem commands_completed {text : List Char} {pedantic : Bool} {d : Draft}
    (hd : commands pedantic {} (Lexemes.ofText text) = .ok d) (hgood : d.Good) :
    ∃ missing e defs, commands pedantic {} (Lexemes.ofText (text ++ labelLines missing)) = .ok e ∧
      e.lines.reverse = d.lines.reverse ++ defs ∧ defs.flatten.map (·.action) = missing.map .label ∧
      ∀ r ∈ e.references, Text.upper r.1 ∈ e.labels := by
  have hmentions : ∀ r ∈ d.references, r.1 ∈ d.statements.flatMap (·.action.mentions) := by
    intro r hr
    rw [← hgood.references]
    exact List.mem_map_of_mem (List.mem_reverse.mpr hr)
  -- Each label is to be defined in one of its spellings.
  obtain ⟨missing, hsub, hunique, hall⟩ := exists_representatives Text.upper
    ((d.statements.flatMap (·.action.mentions)).filter fun l => Text.upper l ∉ d.labels)
  have hmissing : ∀ l ∈ missing, IsName l ∧ Text.upper l ∉ d.labels := by
    intro l hl
    obtain ⟨hmention, hnew⟩ := List.mem_filter.mp (hsub l hl)
    obtain ⟨st, hst, hl⟩ := List.mem_flatMap.mp hmention
    exact ⟨(hgood.proper st hst).isName hl, by simpa using hnew⟩
  obtain ⟨e, defs, he, hlines, hactions, hlabels, hrefs⟩ := commands_labelLines hd
    (fun l hl => (hmissing l hl).1) hunique fun l hl => (hmissing l hl).2
  refine ⟨missing, e, defs, he, hlines, hactions, fun r hr => ?_⟩
  rw [hrefs] at hr
  rw [hlabels]
  by_cases hkey : Text.upper r.1 ∈ d.labels
  · exact .inl hkey
  · exact .inr (hall r.1 (List.mem_filter.mpr ⟨hmentions r hr, by simpa using hkey⟩))

theorem Draft.close_eq_error {d : Draft} (hgood : d.Good) {f : ParseFault} (h : d.close = .error f) :
    ∃ r : Reference, f = .undefinedLabel r.1 r.2 ∧
      d.references.reverse.find? (fun r => Text.upper r.1 ∉ labelKeys d.statements) = some r := by
  have hkeys : ∀ r : Reference, (decide (Text.upper r.1 ∉ labelKeys d.statements)) =
      !d.labels.contains (Text.upper r.1) := by
    intro r
    rw [← hgood.labels]
    simp
  unfold Draft.close at h
  split at h
  · rename_i name pos hfind
    cases h
    refine ⟨(name, pos), rfl, ?_⟩
    simp only [hkeys, hfind]
  · cases h

end Parse

namespace Program

variable (lines : List (List Statement)) (start : Nat)

theorem statementsFrom_labelKeys : labelKeys (statementsFrom start lines) = labelKeys lines.flatten := by
  have hkeys : ∀ sts, labelKeys sts = (sts.map (·.action.labelKey?)).filterMap id := fun sts => by
    rw [List.filterMap_map]
    rfl
  rw [hkeys, hkeys, statementsFrom_labelKey?]

/-- Only conditions depend on where their lines end. -/
theorem statementsFrom_eq_flatten (h : ∀ st ∈ lines.flatten, ∀ t, st.skippingTo t = st) :
    statementsFrom start lines = lines.flatten := by
  induction lines generalizing start with
  | nil => rfl
  | cons line lines ih =>
    obtain ⟨hline, hlines⟩ := List.forall_mem_append.mp (List.flatten_cons ▸ h)
    have hmap : line.map (·.skippingTo (start + line.length)) = line :=
      (List.map_congr_left fun st hst => hline st hst _).trans line.map_id
    rw [statementsFrom, ih _ hlines, hmap, List.flatten_cons]

end Program

/-! ## Verdicts -/

/-- A text that is a program once the labels in `missing` are defined behind it. A given reference is the first one
that fails. -/
structure Misses (source : String) (pedantic : Bool) (missing : List String) (r : Parse.Reference)
    (own defs : List Statement) : Prop where
  parses : ∃ p, Program.parse (source ++ String.ofList (labelLines missing)) pedantic = .ok p ∧
    p.statements.toList = own ++ defs
  defines : defs.map (·.action) = missing.map .label
  ordered : own.Pairwise fun a b => a.pos.Before b.pos
  stands : ∀ st ∈ own, st.StandsIn (normalize source.toList)
  first : ∃ refs, List.Forall₂ (Statement.Refers (normalize source.toList)) own refs ∧
    refs.flatten.find? (fun r => Text.upper r.1 ∉ labelKeys own) = some r

theorem Misses.inside {source : String} {pedantic : Bool} {missing : List String} {r : Parse.Reference}
    {own defs : List Statement} (h : Misses source pedantic missing r own defs) :
    r.2.Inside (normalize source.toList) := by
  obtain ⟨refs, hall, hfind⟩ := h.first
  obtain ⟨row, hrow, hr⟩ := List.mem_flatten.mp (List.mem_of_find?_eq_some hfind)
  obtain ⟨st, hst, hrefers⟩ := forall₂_exists_mem hall hrow
  exact hrefers.inside (h.stands st hst) r hr

/-- What may become of a text. -/
inductive Verdict (source : String) (pedantic : Bool) : Except ParseFault Program → Prop where
  | program (p : Program) : Verdict source pedantic (.ok p)
  | malformed {cause : Malformed} {pos : Position} : pos.Inside (normalize source.toList) →
      Verdict source pedantic (.error (.malformed cause pos))
  | undefinedLabel {name : String} {pos : Position} {missing : List String} {own defs : List Statement} :
      pos.Inside (normalize source.toList) → Misses source pedantic missing (name, pos) own defs →
      Verdict source pedantic (.error (.undefinedLabel name pos))
  | longNumeral {n : Nat} {run : List Char} : run <:+: source.toList → (∀ c ∈ run, isDigit c = true) →
      run.length = n → 4300 < n → Verdict source pedantic (.error (.longNumeral n))

theorem verdict_of_blames {source : String} {pedantic : Bool} {f : ParseFault}
    (h : f.Blames (normalize source.toList)) : Verdict source pedantic (.error f) := by
  cases f with
  | malformed cause pos => exact .malformed h
  | undefinedLabel name pos => exact h.elim
  | longNumeral n =>
    obtain ⟨hlong, run, hpart, hlength, hdigits⟩ := h
    exact .longNumeral (infix_of_infix_normalize hdigits hpart) hdigits hlength hlong

theorem verdict_of_close {source : String} {pedantic : Bool} {d : Parse.Draft} {f : ParseFault}
    (hd : Parse.commands pedantic {} (Lexemes.ofText source.toList) = .ok d) (hclose : d.close = .error f) :
    Verdict source pedantic (.error f) := by
  obtain ⟨hgood, hline⟩ := Parse.commands_good Parse.Draft.good_empty (Cursor.lexemes_sound _) hd
  obtain ⟨c, hplaced⟩ := Parse.commands_placed hd
  obtain ⟨hordered, hstands, refs, hrefs, hrefers⟩ := hplaced.ofLines hline
  obtain ⟨r, rfl, hfirst⟩ := Parse.Draft.close_eq_error hgood hclose
  have hst : d.statements = d.lines.reverse.flatten := by simp [Parse.Draft.statements, hline]
  obtain ⟨missing, e, defs, he, hlines, hactions, hdefined⟩ := Parse.commands_completed hd hgood
  have hlabelsOnly : ∀ st ∈ defs.flatten, ∀ t, st.skippingTo t = st := by
    intro st hst' t
    have haction : st.action ∈ missing.map Action.label := hactions ▸ List.mem_map_of_mem hst'
    obtain ⟨l, -, heq⟩ := List.mem_map.mp haction
    rw [Statement.skippingTo, ← heq]
  have hmisses : Misses source pedantic missing r (Program.statementsFrom 0 d.lines.reverse) defs.flatten := by
    refine ⟨⟨.ofLines e.lines.reverse, ?_, ?_⟩, hactions, hordered, hstands, refs, hrefers, ?_⟩
    · have htext : (source ++ String.ofList (labelLines missing)).toList = source.toList ++ labelLines missing := by simp
      unfold Program.parse
      rw [htext, he]
      exact Parse.Draft.close_of_defined hdefined
    · rw [hlines, ← Program.statementsFrom_eq_flatten defs _ hlabelsOnly]
      exact Program.statementsFrom_append 0
    · rw [hrefs, Program.statementsFrom_labelKeys, ← hst]
      exact hfirst
  exact .undefinedLabel hmisses.inside hmisses

/-- Every text is read to an end, and there are no other verdicts than those. -/
theorem Program.parse_verdict (source : String) (pedantic : Bool) :
    Verdict source pedantic (Program.parse source pedantic) ∧
    ∃ cs, Parse.Trail pedantic {} (.ofText (normalize source.toList)) cs
        (Parse.commands pedantic {} (Lexemes.ofText source.toList)) ∧
      (Cursor.ofText (normalize source.toList) :: cs).IsChain Cursor.Advances := by
  obtain ⟨cs, r, htrail, hchain, -, herror⟩ :=
    Parse.exists_trail pedantic (Parse.Draft.placed_empty (normalize source.toList))
  have hread : Parse.commands pedantic {} (Lexemes.ofText source.toList) = r := htrail.commands_eq
  refine ⟨?_, cs, by rwa [hread], hchain⟩
  unfold Program.parse
  cases r with
  | error f =>
    rw [hread]
    exact verdict_of_blames (herror f rfl)
  | ok d =>
    rw [hread]
    cases hclose : d.close with
    | ok p =>
      show Verdict source pedantic d.close
      rw [hclose]
      exact .program p
    | error f =>
      show Verdict source pedantic d.close
      rw [hclose]
      exact verdict_of_close hread hclose

end GraphicsBatch
