import GraphicsBatch.Proofs.Handled

/-!
# Statements in their text

A text is read command by command, and each command moves on. The statements stand one behind the other, and at its
place the text reads each of them. A statement that is not the first one of its line does not stand in the first column.
-/

namespace GraphicsBatch

open Source

theorem Keyword.upper_of_ofName? {name : String} {k : Keyword} (h : ofName? name = some k) :
    Text.upper name = Text.upper k.spelling := by
  obtain ⟨before, behind, htable, -⟩ := List.lookup_eq_some_iff.mp h
  have hmem : (Text.upper name, k) ∈ table := by simp [htable]
  obtain ⟨k', -, heq⟩ := List.mem_map.mp hmem
  obtain ⟨hupper, rfl⟩ := Prod.mk.inj heq
  exact hupper.symm

/-- Where a statement stands, the text reads the name of the label and a colon, or else the keyword of the statement, in
any case. -/
def Statement.StandsIn (text : List Char) (st : Statement) : Prop :=
  ∃ pre run rest, text = pre ++ (run ++ rest) ∧ st.pos = Position.start.afterAll pre ∧
    ((∃ name, st.action = .label name ∧ run = name.toList ++ [':']) ∨
      ∃ k, st.action.keyword? = some k ∧ Text.upper (String.ofList run) = Text.upper k.spelling ∧ EndsName rest)

/-- The labels that a statement mentions, each with the place that is blamed: that of the statement, or that of the
target. -/
def Statement.Refers (text : List Char) (st : Statement) (refs : List Parse.Reference) : Prop :=
  refs = st.action.mentions.map (·, st.pos) ∨
    ∃ name pre run gap rest k, st.action.mentions = [name] ∧
      refs = [(name, Position.start.afterAll (pre ++ (run ++ gap)))] ∧
      text = pre ++ (run ++ (gap ++ (name.toList ++ rest))) ∧ st.pos = Position.start.afterAll pre ∧
      st.action.keyword? = some k ∧ Text.upper (String.ofList run) = Text.upper k.spelling ∧ IsGap gap

theorem Statement.StandsIn.inside {text : List Char} {st : Statement} (h : st.StandsIn text) : st.pos.Inside text := by
  obtain ⟨pre, run, rest, rfl, hpos, -⟩ := h
  rw [hpos]
  exact Position.inside_afterAll pre _

theorem Statement.Refers.inside {text : List Char} {st : Statement} {refs : List Parse.Reference}
    (h : st.Refers text refs) (hst : st.StandsIn text) : ∀ r ∈ refs, r.2.Inside text := by
  rcases h with rfl | ⟨name, pre, run, gap, rest, k, -, rfl, rfl, -⟩
  · intro r hr
    obtain ⟨l, -, rfl⟩ := List.mem_map.mp hr
    exact hst.inside
  · rw [List.forall_mem_singleton, ← List.append_assoc run, ← List.append_assoc pre]
    exact Position.inside_afterAll _ _

namespace Parse

namespace Draft

variable {pedantic : Bool} {d d' : Draft} {name : String} {pos : Position}

theorem addLabel_eq_ok : d.addLabel pedantic name pos = .ok d' ↔ isReserved name = false ∧
    (pedantic = true → pos.col = 1) ∧ Text.upper name ∉ d.labels ∧
      d' = { d.push (.label name) pos with labels := Text.upper name :: d.labels } := by
  unfold addLabel
  dsimp only
  cases hres : isReserved name with
  | true => simp
  | false =>
    by_cases hcol : pedantic = true ∧ pos.col ≠ 1
    · simp [hcol.1, hcol.2]
    · have hstart : pedantic = true → pos.col = 1 := fun hp => by_contra fun hne => hcol ⟨hp, hne⟩
      have hlead : (pedantic && pos.col != 1) = false := by
        cases pedantic with
        | true => simp [hstart rfl]
        | false => rfl
      by_cases hnew : Text.upper name ∈ d.labels
      · simp [hlead, hnew]
      · simp only [hlead, hnew, Bool.false_eq_true, if_false, List.contains_eq_mem, decide_false, Except.ok.injEq,
          not_false_eq_true, true_and, eq_comm]
        exact ⟨fun h => ⟨hstart, h⟩, fun h => h.2⟩

theorem addLabel_eq_error {f : ParseFault} (h : d.addLabel pedantic name pos = .error f) :
    ∃ cause, f = .malformed cause pos := by
  unfold addLabel at h
  dsimp only at h
  split at h
  · cases h
    exact ⟨_, rfl⟩
  · split at h
    · cases h
      exact ⟨_, rfl⟩
    · split at h
      · cases h
        exact ⟨_, rfl⟩
      · cases h

end Draft

/-- A statement and its references are added to a draft. -/
structure Draft.Adds (d : Draft) (st : Statement) (refs : List Reference) (d' : Draft) : Prop where
  lines : d'.lines = d.lines
  line : d'.line = st :: d.line
  references : d'.references.reverse = d.references.reverse ++ refs

/-- What a word at a place makes with the text behind it: a label, or the statement of a keyword. -/
def Makes (name : String) (pos : Position) (c : Cursor) (a : Action) (refs : List Reference) : Prop :=
  (a = .label name ∧ refs = [] ∧ ∃ rest, c.rest = ':' :: rest) ∨
    ∃ k, Keyword.ofName? name = some k ∧ Handles.Places c k pos (a, refs)

theorem Handles.afterWord {text : List Char} {c : Cursor} (pedantic : Bool) (d : Draft) (name : String)
    {pos : Position} (hpos : pos.Inside text) : Handles text (Parse.afterWord pedantic d name pos) c fun d' _ =>
      ∃ a refs, d.Adds ⟨a, pos⟩ refs d' ∧ Makes name pos c a refs := by
  refine bind (attached ':') fun b c' _ hb => ?_
  split
  · rename_i hcolon
    rw [if_pos hcolon] at hb
    refine lift (fun d' hd' => ?_) fun f hf => ?_
    · obtain ⟨-, -, -, rfl⟩ := Draft.addLabel_eq_ok.mp hd'
      exact ⟨.label name, [], ⟨rfl, rfl, (List.append_nil _).symm⟩, .inl ⟨rfl, rfl, _, hb.rest⟩⟩
    · obtain ⟨cause, rfl⟩ := Draft.addLabel_eq_error hf
      exact hpos
  · rename_i hcolon
    rw [if_neg hcolon] at hb
    subst hb
    split
    · exact failAt hpos
    · rename_i k hk
      refine bind (statement k name hpos) fun r _ _ hr => pure ⟨r.1, r.2, ⟨rfl, rfl, ?_⟩, .inr ⟨k, hk, hr⟩⟩
      simp

theorem Makes.placed {text : List Char} {name : String} {e c : Cursor} {a : Action} {refs : List Reference}
    (h : Makes name e.pos c a refs) (he : e.In text) (hrun : e.Takes name.toList c) (hends : EndsName c.rest) :
    Statement.StandsIn text ⟨a, e.pos⟩ ∧ Statement.Refers text ⟨a, e.pos⟩ refs := by
  obtain ⟨pre, hpre⟩ := he
  have htext : text = pre ++ (name.toList ++ c.rest) := by rw [← hrun.rest]; exact hpre.rest
  have hat : e.pos = Position.start.afterAll pre := hpre.pos
  rcases h with ⟨rfl, rfl, rest, hcolon⟩ | ⟨k, hname, hk, hrefs⟩
  · exact ⟨⟨pre, name.toList ++ [':'], rest, by simp [htext, hcolon], hat, .inl ⟨name, rfl, rfl⟩⟩, .inl rfl⟩
  · have hupper : Text.upper (String.ofList name.toList) = Text.upper k.spelling := by
      rw [String.ofList_toList]
      exact Keyword.upper_of_ofName? hname
    refine ⟨⟨pre, name.toList, c.rest, htext, hat, .inr ⟨k, hk, hupper, hends⟩⟩, hrefs.imp_right ?_⟩
    rintro ⟨⟨target, place⟩, hmention, rfl, gap, rest, hgap, hrest, hplace⟩
    have hplace : place = Position.start.afterAll (pre ++ (name.toList ++ gap)) := by
      rw [Position.afterAll_append, Position.afterAll_append, ← hat, ← hrun.pos]
      exact hplace
    exact ⟨target, pre, name.toList, gap, rest, k, hmention, by rw [hplace], by rw [htext, hrest], hat, hk, hupper, hgap⟩

/-- The statements of a draft stand in a text before a cursor. -/
structure Draft.Placed (text : List Char) (d : Draft) (c : Cursor) : Prop where
  inText : c.In text
  ordered : d.statements.Pairwise fun a b => a.pos.Before b.pos
  before : ∀ st ∈ d.statements, st.pos.Before c.pos
  stands : ∀ st ∈ d.statements, st.StandsIn text
  /-- A line that was begun is left only over a line end. -/
  begun : d.line ≠ [] → c.pos.col ≠ 1
  leading : ∀ line ∈ d.line.reverse :: d.lines, ∀ st ∈ line.tail, st.pos.col ≠ 1
  references : ∃ refs, refs.flatten = d.references.reverse ∧ List.Forall₂ (Statement.Refers text) d.statements refs

end Parse

/-- A cursor goes on over at least one character. -/
def Source.Cursor.Advances (c c' : Cursor) : Prop := ∃ run, run ≠ [] ∧ c.Takes run c'

namespace Source.Cursor

variable {c c' e : Cursor} {l : Lexeme} {run text : List Char}

theorem Takes.before (h : c.Takes run c') (hrun : run ≠ []) : c.pos.Before c'.pos := by
  rw [h.pos]
  exact c.pos.before_afterAll hrun

theorem Cuts.advances (h : c.Cuts l c') : c.Advances c' := by
  obtain ⟨-, -, hgap, hrun, -, hwritten, -⟩ := h
  exact ⟨_, by simp [hwritten.ne_nil], hgap.trans hrun⟩

theorem In.one_le_col (h : c.In text) : 1 ≤ c.pos.col := h.inside.2.1

end Source.Cursor

namespace Parse

variable {text : List Char} {d d' : Draft} {c c₁ c' : Cursor} {l : Lexeme} {pedantic : Bool}

theorem Draft.placed_empty (text : List Char) : Draft.Placed text {} (.ofText text) where
  inText := ⟨[], .refl _⟩
  ordered := .nil
  before := by simp [statements]
  stands := by simp [statements]
  begun := by simp
  leading := by simp
  references := ⟨[], rfl, .nil⟩

namespace Draft.Placed

theorem endLine (h : d.Placed text c) : d.endLine.Placed text c where
  inText := h.inText
  ordered := by rw [statements_endLine]; exact h.ordered
  before st hst := h.before st (by rwa [statements_endLine] at hst)
  stands st hst := h.stands st (by rwa [statements_endLine] at hst)
  begun hline := absurd rfl hline
  leading line hline st hst := by
    rcases List.mem_cons.mp hline with rfl | hline
    · cases hst
    · exact h.leading line hline st hst
  references := by rw [statements_endLine]; exact h.references

theorem advance (h : d.Placed text c) (hline : d.line = []) (hadv : c.Advances c') : d.Placed text c' := by
  obtain ⟨run, hrun, htakes⟩ := hadv
  exact { h with
    inText := h.inText.of_takes htakes
    before := fun st hst => (h.before st hst).trans (htakes.before hrun)
    begun := fun hne => absurd hline hne }

theorem adds {st : Statement} {refs : List Reference} {gap run : List Char} {e : Cursor} (h : d.Placed text c)
    (hadds : d.Adds st refs d') (hgap : IsGap gap) (htakes : c.Takes gap e) (hpos : st.pos = e.pos)
    (hstands : st.StandsIn text) (hrefers : st.Refers text refs) (hrun : e.Takes run c') (hne : run ≠ [])
    (hlast : run.getLast? ≠ some '\n') : d'.Placed text c' := by
  have hstatements : d'.statements = d.statements ++ [st] := by simp [statements, hadds.lines, hadds.line]
  have hbefore : ∀ st' ∈ d.statements, st'.pos.Before e.pos := fun st' hst' => by
    have hc := h.before st' hst'
    rw [htakes.pos]
    by_cases hnil : gap = []
    · rw [hnil]
      exact hc
    · exact hc.trans (c.pos.before_afterAll hnil)
  refine ⟨(h.inText.of_takes htakes).of_takes hrun, ?_, ?_, ?_, ?_, ?_, ?_⟩
  · rw [hstatements, List.pairwise_append]
    refine ⟨h.ordered, List.pairwise_singleton _ _, fun a ha b hb => ?_⟩
    rw [List.mem_singleton.mp hb, hpos]
    exact hbefore a ha
  · intro st' hst'
    rw [hstatements, List.mem_append, List.mem_singleton] at hst'
    rcases hst' with hst' | rfl
    · exact (hbefore st' hst').trans (hrun.before hne)
    · rw [hpos]
      exact hrun.before hne
  · intro st' hst'
    rw [hstatements, List.mem_append, List.mem_singleton] at hst'
    rcases hst' with hst' | rfl
    · exact h.stands st' hst'
    · exact hstands
  · intro _
    rw [hrun.pos]
    exact Position.col_afterAll_ne_one (h.inText.of_takes htakes).one_le_col hne hlast
  · intro line hline st' hst'
    rw [hadds.line, hadds.lines, List.reverse_cons] at hline
    rcases List.mem_cons.mp hline with rfl | hline
    -- Only behind a line end is a cursor in the first column, and neither statements nor gaps end like that.
    · by_cases hnil : d.line = []
      · simp [hnil] at hst'
      · have hfront : d.line.reverse ≠ [] := by simpa using hnil
        rw [List.tail_append_of_ne_nil hfront, List.mem_append, List.mem_singleton] at hst'
        rcases hst' with hst' | rfl
        · exact h.leading _ List.mem_cons_self st' hst'
        · rw [hpos, htakes.pos]
          by_cases hg : gap = []
          · rw [hg]
            exact h.begun hnil
          · exact Position.col_afterAll_ne_one h.inText.one_le_col hg hgap.getLast?_ne
    · exact h.leading line (List.mem_cons_of_mem _ hline) st' hst'
  · obtain ⟨rows, hrows, hall⟩ := h.references
    refine ⟨rows ++ [refs], ?_, ?_⟩
    · rw [List.flatten_append, hrows, hadds.references, List.flatten_singleton]
    · rw [hstatements]
      exact List.rel_append hall (.cons hrefers .nil)

end Draft.Placed

/-- One command is added to the statements, or something in the text is blamed. -/
theorem command_placed (pedantic : Bool) (hd : d.Placed text c) (h : c.Cuts l c₁) :
    match command pedantic d l c₁.lexemes with
    | .ok (d', s) => ∃ c', s = c'.lexemes ∧ d'.Placed text c' ∧ c.Advances c'
    | .error f => f.Blames text := by
  have hpos := h.inside hd.inText
  obtain ⟨token, pos, att⟩ := l
  cases token with
  | lineEnd => exact ⟨c₁, rfl, hd.endLine.advance rfl h.advances, h.advances⟩
  | openComment => exact hpos
  | word name =>
    have hword := Handles.afterWord pedantic d name hpos (h.inText hd.inText)
    dsimp only [command] at hword ⊢
    cases hstep : afterWord pedantic d name pos c₁.lexemes with
    | error f =>
      rw [hstep] at hword
      exact hword
    | ok out =>
      rw [hstep] at hword
      obtain ⟨c', hs, ⟨more, hmore, hlast⟩, a, refs, hadds, hmakes⟩ := hword
      obtain ⟨-, hisGap, hgap, hrun, rfl, hwritten, -⟩ := h
      have hlast' := Cursor.getLast?_append_ne (hwritten.getLast?_ne (by simp)) hlast
      have hne := hwritten.ne_nil
      obtain ⟨rfl, -, hends⟩ := hwritten
      obtain ⟨hstands, hrefers⟩ := hmakes.placed (hd.inText.of_takes hgap) hrun hends
      exact ⟨c', hs, hd.adds hadds hisGap hgap rfl hstands hrefers (hrun.trans hmore) (by simp [hne]) hlast',
        _, by simp [hne], (hgap.trans hrun).trans hmore⟩
  | _ => exact hpos

/-! ## Whole texts -/

/-- How a text is read: the cursors behind one command after the other, up to the end or to a command at fault. -/
inductive Trail (pedantic : Bool) : Draft → Cursor → List Cursor → Except ParseFault Draft → Prop where
  | finish {d : Draft} {c : Cursor} : c.lexemes.items = [] → Trail pedantic d c [] (.ok d.endLine)
  | fault {d : Draft} {c : Cursor} {l : Lexeme} {s : Lexemes} {f : ParseFault} : c.lexemes = .cons l s →
      command pedantic d l s = .error f → Trail pedantic d c [] (.error f)
  | command {d d' : Draft} {c c' : Cursor} {cs : List Cursor} {l : Lexeme} {s : Lexemes}
      {r : Except ParseFault Draft} : c.lexemes = .cons l s → command pedantic d l s = .ok (d', c'.lexemes) →
      Trail pedantic d' c' cs r → Trail pedantic d c (c' :: cs) r

theorem Trail.commands_eq {cs : List Cursor} {r : Except ParseFault Draft} (h : Trail pedantic d c cs r) :
    commands pedantic d c.lexemes = r := by
  induction h with
  | @finish d c hnil =>
    generalize c.lexemes = s at hnil ⊢
    obtain ⟨items, finish⟩ := s
    dsimp only at hnil
    rw [hnil, commands]
  | fault hs hstep =>
    rw [hs, commands_cons, hstep]
    rfl
  | command hs hstep _ ih =>
    rw [hs, commands_cons, hstep]
    exact ih

theorem exists_trail (pedantic : Bool) (hd : d.Placed text c) : ∃ cs r, Trail pedantic d c cs r ∧
    (c :: cs).IsChain Cursor.Advances ∧ (∀ d', r = .ok d' → ∃ c', d'.Placed text c') ∧
      ∀ f, r = .error f → f.Blames text := by
  -- On how much of the text is left: every command takes at least one character.
  induction hn : c.rest.length using Nat.strong_induction_on generalizing d c with
  | _ n ih =>
    cases c.next with
    | finish h =>
      refine ⟨[], _, .finish (by rw [h]), .singleton c, ?_, by simp⟩
      rintro d' ⟨⟩
      exact ⟨c, hd.endLine⟩
    | @brace run brace htakes h =>
      refine ⟨[], _, .fault (s := ⟨[], brace.pos⟩) h rfl, .singleton c, by simp, ?_⟩
      rintro f ⟨⟩
      exact (hd.inText.of_takes htakes).inside
    | @lexeme l c₁ hcuts =>
      have hplaced := command_placed pedantic hd hcuts
      cases hstep : command pedantic d l c₁.lexemes with
      | error f =>
        rw [hstep] at hplaced
        refine ⟨[], _, .fault hcuts.lexemes hstep, .singleton c, by simp, ?_⟩
        rintro f' ⟨⟩
        exact hplaced
      | ok out =>
        rw [hstep] at hplaced
        obtain ⟨c', hs, hd', hadv⟩ := hplaced
        have hlt : c'.rest.length < n := by
          obtain ⟨run, hrun, htakes⟩ := hadv
          rw [← hn, htakes.rest, List.length_append]
          have := List.length_pos_iff.mpr hrun
          omega
        obtain ⟨cs, r, htrail, hchain, houtcome⟩ := ih _ hlt hd' rfl
        obtain ⟨d', s⟩ := out
        subst hs
        exact ⟨c' :: cs, r, .command hcuts.lexemes hstep htrail, .cons_cons hadv hchain, houtcome⟩

theorem commands_placed {source : List Char} (h : commands pedantic {} (Lexemes.ofText source) = .ok d) :
    ∃ c, d.Placed (normalize source) c := by
  obtain ⟨cs, r, htrail, -, hok, -⟩ := exists_trail pedantic (Draft.placed_empty (normalize source))
  exact hok d (htrail.commands_eq.symm.trans h)

end Parse

/-! ## Programs -/

theorem Program.statementsFrom_map {β : Type} {f : Statement → β} (hf : ∀ s t, f (s.skippingTo t) = f s)
    (lines : List (List Statement)) (start : Nat) : (statementsFrom start lines).map f = lines.flatten.map f := by
  induction lines generalizing start with
  | nil => rfl
  | cons line lines ih => simp [statementsFrom, ih, hf, Function.comp_def]

theorem Program.forall_statementsFrom {P : Statement → Prop} (hP : ∀ s t, P (s.skippingTo t) ↔ P s)
    {lines : List (List Statement)} {start : Nat} :
    (∀ st ∈ statementsFrom start lines, P st) ↔ ∀ st ∈ lines.flatten, P st := by
  induction lines generalizing start with
  | nil => simp [statementsFrom]
  | cons line lines ih =>
    rw [statementsFrom, List.flatten_cons, List.forall_mem_append, List.forall_mem_append, ih, List.forall_mem_map]
    simp only [hP]

@[simp] theorem Statement.skippingTo_pos (st : Statement) (t : Nat) : (st.skippingTo t).pos = st.pos := by
  unfold skippingTo
  split <;> rfl

@[simp] theorem Statement.skippingTo_keyword? (st : Statement) (t : Nat) :
    (st.skippingTo t).action.keyword? = st.action.keyword? := by
  unfold skippingTo
  split
  · rename_i heq
    rw [heq]
    rfl
  · rfl

@[simp] theorem Statement.skippingTo_eq_label {st : Statement} {t : Nat} {name : String} :
    (st.skippingTo t).action = .label name ↔ st.action = .label name := by
  unfold skippingTo
  split
  · rename_i heq
    simp [heq]
  · rfl

theorem Statement.standsIn_skippingTo {text : List Char} {st : Statement} {t : Nat} :
    (st.skippingTo t).StandsIn text ↔ st.StandsIn text := by
  simp only [StandsIn, skippingTo_pos, skippingTo_keyword?, skippingTo_eq_label]

theorem Statement.refers_skippingTo {text : List Char} {st : Statement} {t : Nat} {refs : List Parse.Reference} :
    (st.skippingTo t).Refers text refs ↔ st.Refers text refs := by
  simp only [Refers, skippingTo_pos, skippingTo_keyword?, skippingTo_mentions]

theorem Program.forall₂_statementsFrom {β : Type} {R : Statement → β → Prop}
    (hR : ∀ s t b, R (s.skippingTo t) b ↔ R s b) {lines : List (List Statement)} {start : Nat} {bs : List β} :
    List.Forall₂ R (statementsFrom start lines) bs ↔ List.Forall₂ R lines.flatten bs := by
  have hmap := statementsFrom_map (f := R) (fun s t => funext fun b => propext (hR s t b)) lines start
  have happly : ∀ sts, List.Forall₂ (fun P b => P b) (sts.map R) bs ↔ List.Forall₂ R sts bs :=
    fun sts => List.forall₂_map_left_iff
  rw [← happly, ← happly, hmap]

theorem Parse.Draft.Placed.ofLines {text : List Char} {d : Parse.Draft} {c : Cursor} (h : d.Placed text c)
    (hline : d.line = []) : (Program.statementsFrom 0 d.lines.reverse).Pairwise (fun a b => a.pos.Before b.pos) ∧
      (∀ st ∈ Program.statementsFrom 0 d.lines.reverse, st.StandsIn text) ∧ ∃ refs, refs.flatten = d.references.reverse ∧
        List.Forall₂ (Statement.Refers text) (Program.statementsFrom 0 d.lines.reverse) refs := by
  have hst : d.statements = d.lines.reverse.flatten := by simp [Parse.Draft.statements, hline]
  obtain ⟨refs, hrefs, hall⟩ := h.references
  rw [hst] at hall
  refine ⟨?_, ?_, refs, hrefs, ?_⟩
  · have hordered := h.ordered
    rw [hst, ← List.pairwise_map] at hordered
    rwa [← List.pairwise_map, Program.statementsFrom_map fun s t => s.skippingTo_pos t]
  · exact (Program.forall_statementsFrom fun _ _ => Statement.standsIn_skippingTo).mpr (hst ▸ h.stands)
  · exact (Program.forall₂_statementsFrom fun _ _ _ => Statement.refers_skippingTo).mpr hall

/-- The statements of a program that was read stand in its text, one behind the other. -/
theorem Program.parse_placed {source : String} {pedantic : Bool} {p : Program}
    (h : Program.parse source pedantic = .ok p) :
    p.statements.toList.Pairwise (fun a b => a.pos.Before b.pos) ∧
      ∀ st ∈ p.statements.toList, st.StandsIn (normalize source.toList) := by
  obtain ⟨d, hd, hclose⟩ := Except.bind_eq_ok.mp h
  obtain ⟨rfl, -⟩ := Parse.Draft.close_eq_ok hclose
  obtain ⟨c, hplaced⟩ := Parse.commands_placed hd
  have hline : d.line = [] := (Parse.commands_good Parse.Draft.good_empty (Cursor.lexemes_sound _) hd).2
  obtain ⟨hordered, hstands, -⟩ := hplaced.ofLines hline
  exact ⟨hordered, hstands⟩

end GraphicsBatch
