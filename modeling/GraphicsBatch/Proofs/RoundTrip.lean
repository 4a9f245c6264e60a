import GraphicsBatch.Proofs.Reading

/-!
# Printing and reading are inverse

Proper lines are printed with one space between statements and one line feed between lines. Reading that
text gives the program of these lines, so every program that was read is its own printed form.
-/

namespace GraphicsBatch

open Source

namespace Action

@[simp] theorem unplaced_labelKey? (a : Action) : a.unplaced.labelKey? = a.labelKey? := by
  cases a <;> rfl

@[simp] theorem unplaced_mentions (a : Action) : a.unplaced.mentions = a.mentions := by
  cases a <;> rfl

@[simp] theorem unplaced_render (a : Action) : a.unplaced.render = a.render := by
  cases a <;> rfl

end Action

/-! ## Reading lines -/

namespace Parse

theorem commands_word {d d' : Draft} {w : String} {pos : Position} {att : Bool} {s s' : Lexemes}
    (h : afterWord false d w pos s = .ok (d', s')) :
    commands false d (.cons ⟨.word w, pos, att⟩ s) = commands false d' s' := by
  unfold Lexemes.cons
  rw [commands]
  dsimp only
  split
  · rename_i heq
    rw [h] at heq
    cases heq
    rfl
  · rename_i heq
    rw [h] at heq
    cases heq

theorem commands_lineFeed {d : Draft} {p : Position} {rest : List Char} :
    commands false d (Cursor.lexemes ⟨p, '\n' :: rest⟩) =
      commands false d.endLine (Cursor.lexemes ⟨p.after '\n', rest⟩) := by
  rw [Cursor.lexemes_lineFeed, Lexemes.cons, commands]

theorem commands_statement {d : Draft} {a : Action} {gap rest : List Char} {p : Position}
    (hgap : ∀ c ∈ gap, isBlank c = true) (hd : d.Good) (ha : a.Proper)
    (hnew : ∀ K, a.labelKey? = some K → K ∉ d.labels) (hrest : Ends rest) :
    ∃ d' q, commands false d (Cursor.lexemes ⟨p, gap ++ (a.render.toList ++ rest)⟩) =
        commands false d' (Cursor.lexemes ⟨q, rest⟩) ∧
      d'.Good ∧ d'.lines = d.lines ∧ ∃ pos, d'.line = ⟨a.unplaced, pos⟩ :: d.line := by
  obtain ⟨w, text, hw, htext, hends, hreads⟩ := afterWord_consumes ha hnew
  obtain ⟨d', q, hd', hlines, hline⟩ := hreads (p.afterAll gap) ((p.afterAll gap).afterAll w.toList) rest hrest
  have hgood := (afterWord_good hd hw _ _ _ (Cursor.lexemes_sound _) hd').2
  refine ⟨d', q, ?_, hgood, hlines, _, hline⟩
  rw [htext, List.append_assoc, Cursor.lexemes_word hgap hw (hends rest hrest)]
  exact commands_word hd'

/-! ### Lines -/

/-- The statements behind the first one of a line. -/
def moreStatements (as : List Action) : List Char := as.flatMap fun a => ' ' :: a.render.toList

def lineText : List Action → List Char
  | [] => []
  | a :: as => a.render.toList ++ moreStatements as

theorem render_cons {a : Action} (ha : a.Proper) : ∃ c cs, a.render.toList = c :: cs ∧ isNameStart c = true := by
  obtain ⟨w, text, hw, htext, -⟩ := @afterWord_consumes {} a ha (by simp)
  obtain ⟨c, cs, hc, hstart, -⟩ := toList_of_isIdentifier hw
  exact ⟨c, cs ++ text, by simp [htext, hc], hstart⟩

theorem moreStatements_ends {as : List Action} {rest : List Char} (has : ∀ a ∈ as, a.Proper)
    (hrest : rest = [] ∨ ∃ cs, rest = '\n' :: cs) : Ends (moreStatements as ++ rest) := by
  cases as with
  | nil => exact hrest.imp_right .inl
  | cons a as =>
    obtain ⟨c, cs, hc, hstart⟩ := render_cons (has a List.mem_cons_self)
    exact .inr (.inr ⟨c, cs ++ (moreStatements as ++ rest), by simp [moreStatements, hc], hstart⟩)

theorem Draft.Good.not_mem_labels {d : Draft} {a : Action} {as : List Action} (hd : d.Good)
    (hu : (labelKeys d.statements ++ (a :: as).filterMap Action.labelKey?).Nodup) :
    ∀ K, a.labelKey? = some K → K ∉ d.labels := by
  intro K hK hmem
  have hkeys : K ∈ labelKeys d.statements := by
    rw [← hd.labels]
    exact List.mem_reverse.mpr hmem
  exact (List.nodup_append.mp hu).2.2 K hkeys K (by simp [hK]) rfl

theorem labelKeys_concat (sts : List Statement) (a : Action) (pos : Position) (as : List Action) :
    labelKeys (sts ++ [⟨a.unplaced, pos⟩]) ++ as.filterMap Action.labelKey? =
      labelKeys sts ++ (a :: as).filterMap Action.labelKey? := by
  cases hk : a.labelKey? <;> simp [labelKeys, hk]

theorem Draft.statements_of_line {d d' : Draft} {st : Statement} (hlines : d'.lines = d.lines)
    (hline : d'.line = st :: d.line) : d'.statements = d.statements ++ [st] := by
  simp [Draft.statements, hlines, hline]

theorem commands_moreStatements {d : Draft} {as : List Action} {rest : List Char} {p : Position} (hd : d.Good)
    (has : ∀ a ∈ as, a.Proper) (hu : (labelKeys d.statements ++ as.filterMap Action.labelKey?).Nodup)
    (hrest : rest = [] ∨ ∃ cs, rest = '\n' :: cs) :
    ∃ d' q, commands false d (Cursor.lexemes ⟨p, moreStatements as ++ rest⟩) =
        commands false d' (Cursor.lexemes ⟨q, rest⟩) ∧
      d'.Good ∧ d'.lines = d.lines ∧
      d'.line.reverse.map (·.action) = d.line.reverse.map (·.action) ++ as.map Action.unplaced := by
  induction as generalizing d p with
  | nil => exact ⟨d, p, rfl, hd, rfl, by simp⟩
  | cons a as ih =>
    have hmore : ∀ b ∈ as, b.Proper := fun b hb => has b (List.mem_cons_of_mem _ hb)
    obtain ⟨d₁, q₁, hread, hgood, hlines, pos, hline⟩ := @commands_statement d a [' '] _ p isBlank_of_mem_space hd
      (has a List.mem_cons_self) (hd.not_mem_labels hu) (moreStatements_ends hmore hrest)
    have hu₁ : (labelKeys d₁.statements ++ as.filterMap Action.labelKey?).Nodup := by
      rw [Draft.statements_of_line hlines hline, labelKeys_concat]
      exact hu
    obtain ⟨d₂, q₂, hread₂, hgood₂, hlines₂, hline₂⟩ := @ih d₁ q₁ hgood hmore hu₁
    refine ⟨d₂, q₂, ?_, hgood₂, hlines₂.trans hlines, ?_⟩
    · have htext : moreStatements (a :: as) ++ rest = [' '] ++ (a.render.toList ++ (moreStatements as ++ rest)) := by
        simp [moreStatements]
      rw [htext, hread, hread₂]
    · rw [hline₂, hline]
      simp

theorem commands_line {d : Draft} {as : List Action} {rest : List Char} {p : Position} (hd : d.Good)
    (hfresh : d.line = []) (has : ∀ a ∈ as, a.Proper)
    (hu : (labelKeys d.statements ++ as.filterMap Action.labelKey?).Nodup)
    (hrest : rest = [] ∨ ∃ cs, rest = '\n' :: cs) :
    ∃ d' q, commands false d (Cursor.lexemes ⟨p, lineText as ++ rest⟩) =
        commands false d' (Cursor.lexemes ⟨q, rest⟩) ∧
      d'.Good ∧ d'.lines = d.lines ∧ d'.line.reverse.map (·.action) = as.map Action.unplaced := by
  cases as with
  | nil => exact ⟨d, p, rfl, hd, rfl, by simp [hfresh]⟩
  | cons a as =>
    have hmore : ∀ b ∈ as, b.Proper := fun b hb => has b (List.mem_cons_of_mem _ hb)
    obtain ⟨d₁, q₁, hread, hgood, hlines, pos, hline⟩ := @commands_statement d a [] _ p (by simp) hd
      (has a List.mem_cons_self) (hd.not_mem_labels hu) (moreStatements_ends hmore hrest)
    have hu₁ : (labelKeys d₁.statements ++ as.filterMap Action.labelKey?).Nodup := by
      rw [Draft.statements_of_line hlines hline, labelKeys_concat]
      exact hu
    obtain ⟨d₂, q₂, hread₂, hgood₂, hlines₂, hline₂⟩ := @commands_moreStatements d₁ as _ q₁ hgood hmore hu₁ hrest
    refine ⟨d₂, q₂, ?_, hgood₂, hlines₂.trans hlines, ?_⟩
    · rw [lineText, List.append_assoc, ← hread₂, ← hread]
      rfl
    · rw [hline₂, hline, hfresh]
      rfl

theorem commands_lines {d : Draft} {line : List Action} {lines : List (List Action)} {p : Position} (hd : d.Good)
    (hfresh : d.line = []) (hproper : ∀ a ∈ (line :: lines).flatten, a.Proper)
    (hu : (labelKeys d.statements ++ (line :: lines).flatten.filterMap Action.labelKey?).Nodup) :
    ∃ d', commands false d (Cursor.lexemes ⟨p, lineText line ++ lines.flatMap fun l => '\n' :: lineText l⟩) = .ok d' ∧
      d'.lines.reverse.map (·.map (·.action)) =
        d.lines.reverse.map (·.map (·.action)) ++ (line :: lines).map (·.map Action.unplaced) := by
  induction lines generalizing d line p with
  | nil =>
    obtain ⟨d', q, hread, hgood, hlines, hline⟩ := @commands_line d line [] p hd hfresh
      (by simpa using hproper) (by simpa using hu) (.inl rfl)
    refine ⟨d'.endLine, ?_, ?_⟩
    · rw [List.flatMap_nil, hread, Cursor.lexemes_nil, commands]
    · simp [Draft.endLine, hlines, ← hline]
  | cons next lines ih =>
    rw [List.flatten_cons, List.filterMap_append, ← List.append_assoc] at hu
    obtain ⟨d', q, hread, hgood, hlines, hline⟩ := @commands_line d line
      ('\n' :: (lineText next ++ lines.flatMap fun l => '\n' :: lineText l)) p hd hfresh
      (fun a ha => hproper a (List.mem_append_left _ ha)) (List.nodup_append.mp hu).1 (.inr ⟨_, rfl⟩)
    -- The labels of the line just read now count among those of the draft.
    have hu' : (labelKeys d'.endLine.statements ++ (next :: lines).flatten.filterMap Action.labelKey?).Nodup := by
      have hkeys : labelKeys d'.statements = labelKeys d.statements ++ line.filterMap Action.labelKey? := by
        have hst : d'.statements.map (·.action) = d.statements.map (·.action) ++ line.map Action.unplaced := by
          simp [Draft.statements, hlines, hfresh, ← hline]
        have := congrArg (List.filterMap Action.labelKey?) hst
        simpa [labelKeys, List.filterMap_map, Function.comp_def] using this
      rw [Draft.statements_endLine, hkeys]
      exact hu
    obtain ⟨d'', hread', hlines'⟩ := @ih d'.endLine next (q.after '\n') hgood.endLine rfl
      (fun a ha => hproper a (List.mem_append_right _ ha)) hu'
    refine ⟨d'', ?_, ?_⟩
    · rw [List.flatMap_cons, List.cons_append, hread, commands_lineFeed, hread']
    · rw [hlines']
      simp [Draft.endLine, hlines, ← hline]

end Parse

/-! ## Line ends in the text -/

/-- A text within one line whose end does not merge with a line feed behind it. -/
def Unbroken (cs : List Char) : Prop := '\n' ∉ cs ∧ cs.getLast? ≠ some '\r'

namespace Unbroken

variable {cs ds : List Char}

theorem append (hc : Unbroken cs) (hd : Unbroken ds) : Unbroken (cs ++ ds) := by
  refine ⟨by simp [hc.1, hd.1], ?_⟩
  rw [List.getLast?_append]
  cases h : ds.getLast? with
  | none => simpa using hc.2
  | some d => simpa [h] using hd.2

theorem of_forall (h : ∀ c ∈ cs, c ≠ '\n' ∧ c ≠ '\r') : Unbroken cs := by
  constructor
  · intro hm
    exact (h _ hm).1 rfl
  · intro hm
    exact (h _ (List.mem_of_getLast? hm)).2 rfl

theorem of_all (h : (cs.all fun c => c != '\n' && c != '\r') = true) : Unbroken cs := by
  refine of_forall fun c hc => ?_
  simpa using List.all_eq_true.mp h c hc

theorem of_isNameChar (h : ∀ c ∈ cs, isNameChar c = true) : Unbroken cs := by
  refine of_forall fun c hc => ⟨?_, ?_⟩ <;> rintro rfl <;> exact absurd (h _ hc) (by decide)

theorem name {w : String} (hw : isIdentifier w = true) : Unbroken w.toList := by
  obtain ⟨c, cs, hcs, -, hall⟩ := toList_of_isIdentifier hw
  rw [hcs]
  exact of_isNameChar hall

theorem quoted {s : String} (hs : IsQuotable s) : Unbroken ('"' :: (s.toList ++ ['"'])) := by
  refine ⟨by simp [hs.2], ?_⟩
  rw [← List.cons_append, List.getLast?_concat]
  decide

theorem flatMap {α : Type} {xs : List α} {f : α → List Char} (h : ∀ x ∈ xs, Unbroken (f x)) :
    Unbroken (xs.flatMap f) := by
  induction xs with
  | nil => simp [Unbroken]
  | cons x xs ih =>
    exact append (h x List.mem_cons_self) (ih fun y hy => h y (List.mem_cons_of_mem _ hy))

theorem intercalate {sep : List Char} {xss : List (List Char)} (hsep : Unbroken sep)
    (h : ∀ xs ∈ xss, Unbroken xs) : Unbroken (List.intercalate sep xss) := by
  cases xss with
  | nil => simp [List.intercalate, Unbroken]
  | cons xs xss =>
    rw [Parse.intercalate_cons]
    refine append (h xs List.mem_cons_self) (flatMap fun ys hys => ?_)
    exact append hsep (h ys (List.mem_cons_of_mem _ hys))

theorem value {v : Value} (hv : v.Writable) : Unbroken v.render.toList := by
  cases v with
  | nothing => exact hv.elim
  | int n =>
    obtain ⟨m, rfl⟩ := Int.eq_ofNat_of_zero_le hv.1
    rw [Value.toList_render_int]
    exact of_isNameChar fun c hc => by simp [isNameChar, isDigit_of_mem_toDigits hc]
  | text s =>
    have hr : (Value.text s).render.toList = '"' :: (s.toList ++ ['"']) := by simp [Value.render]
    rw [hr]
    exact quoted hv
  | key k =>
    rw [Value.toList_render_key]
    exact quoted hv
  | var x | token x | label x => exact name hv

theorem operand {o : Operand} (ho : o.Proper) : Unbroken o.toValue.render.toList :=
  of_isNameChar ho.isNameChar_render

theorem action {a : Action} (ha : a.Proper) : Unbroken a.render.toList := by
  cases a with
  | label w =>
    rw [Action.render, String.toList_append]
    exact append (name ha.1) (of_all (by decide))
  | goto l | gosub l =>
    rw [Action.render, String.toList_append]
    exact append (of_all (by decide)) (name ha.1)
  | back | finish => exact of_all (by decide)
  | plain c => exact name (Keyword.command c).isIdentifier_spelling
  | call c args =>
    simp only [Action.render, String.toList_append, String.toList_intercalate, List.map_map]
    refine append (append (append (name (Keyword.command c).isIdentifier_spelling) (of_all (by decide))) ?_)
      (of_all (by decide))
    refine intercalate (of_all (by decide)) fun xs hxs => ?_
    obtain ⟨arg, harg, rfl⟩ := List.mem_map.mp hxs
    exact value (Command.writable_of_admits ha arg harg)
  | cond lhs op rhs skipTo =>
    simp only [Action.render, String.toList_append]
    refine append (append (append (append (of_all (by decide)) (operand ha.1)) ?_) (operand ha.2))
      (of_all (by decide))
    cases op <;> exact of_all (by decide)
  | assign v e =>
    obtain ⟨hv, hfirst, hsecond⟩ := ha
    obtain ⟨first, more⟩ := e
    simp only [Action.render, String.toList_append]
    refine append (append (append (of_all (by decide)) (name hv.1)) (of_all (by decide))) ?_
    cases more with
    | none => exact operand hfirst
    | some m =>
      obtain ⟨op, second⟩ := m
      simp only [Expr.render, String.toList_append]
      refine append (append (operand hfirst) ?_) (operand (hsecond op second rfl))
      cases op <;> exact of_all (by decide)

theorem lineText {as : List Action} (has : ∀ a ∈ as, a.Proper) : Unbroken (Parse.lineText as) := by
  cases as with
  | nil => simp [Parse.lineText, Unbroken]
  | cons a as =>
    refine append (action (has a List.mem_cons_self)) (flatMap fun b hb => ?_)
    exact @append [' '] _ (of_all (by decide)) (action (has b (List.mem_cons_of_mem _ hb)))

end Unbroken

theorem normalize_cons {c : Char} {cs : List Char} (h : ¬ (c = '\r' ∧ cs.head? = some '\n')) :
    normalize (c :: cs) = c :: normalize cs := by
  rw [Source.normalize]
  rintro ds rfl rfl
  exact h ⟨rfl, rfl⟩

theorem normalize_lineFeed (cs : List Char) : normalize ('\n' :: cs) = '\n' :: normalize cs :=
  normalize_cons (by simp)

theorem normalize_eq_self {cs : List Char} (h : ¬ ['\r', '\n'] <:+: cs) : normalize cs = cs := by
  induction cs with
  | nil => rfl
  | cons c cs ih =>
    have hpair : ¬ (c = '\r' ∧ cs.head? = some '\n') := by
      rintro ⟨rfl, hhead⟩
      obtain ⟨rest, rfl⟩ := List.head?_eq_some_iff.mp hhead
      exact h ⟨[], rest, rfl⟩
    rw [normalize_cons hpair, ih fun htail => h (htail.trans (List.suffix_cons c cs).isInfix)]

theorem Unbroken.normalize_append {cs rest : List Char} (h : Unbroken cs) :
    normalize (cs ++ rest) = cs ++ normalize rest := by
  induction cs with
  | nil => rfl
  | cons c cs ih =>
    have hnot : ¬ (c = '\r' ∧ (cs ++ rest).head? = some '\n') := by
      rintro ⟨rfl, hhead⟩
      cases cs with
      | nil => exact h.2 rfl
      | cons d ds =>
        rw [List.cons_append, List.head?_cons, Option.some.injEq] at hhead
        exact h.1 (by simp [hhead])
    have htail : Unbroken cs := by
      refine ⟨fun hm => h.1 (List.mem_cons_of_mem _ hm), fun hlast => h.2 ?_⟩
      rw [List.getLast?_cons, hlast]
      rfl
    rw [List.cons_append, normalize_cons hnot, ih htail]
    rfl

theorem normalize_lines {lines : List (List Action)} (h : ∀ a ∈ lines.flatten, a.Proper) :
    normalize (lines.flatMap fun l => '\n' :: Parse.lineText l) = lines.flatMap fun l => '\n' :: Parse.lineText l := by
  induction lines with
  | nil => rfl
  | cons line lines ih =>
    have hline : Unbroken (Parse.lineText line) := .lineText fun a ha => h a (List.mem_append_left _ ha)
    rw [List.flatMap_cons, List.cons_append, normalize_lineFeed, hline.normalize_append,
      ih fun a ha => h a (List.mem_append_right _ ha)]

/-! ## The printed form -/

def printedLine (line : List Statement) : String := String.intercalate " " (line.map Statement.render)

/-- Statements with one space between them, lines with one line feed. -/
def printed (lines : List (List Statement)) : String := String.intercalate "\n" (lines.map printedLine)

theorem toList_printedLine (line : List Statement) :
    (printedLine line).toList = Parse.lineText (line.map (·.action)) := by
  rw [printedLine, String.toList_intercalate, List.map_map]
  cases line with
  | nil => rfl
  | cons st line =>
    rw [List.map_cons, Parse.intercalate_cons]
    simp [Parse.lineText, Parse.moreStatements, List.flatMap_map, Statement.render]

theorem toList_printed_cons (line : List Statement) (lines : List (List Statement)) :
    (printed (line :: lines)).toList = Parse.lineText (line.map (·.action)) ++
      (lines.map (·.map (·.action))).flatMap fun l => '\n' :: Parse.lineText l := by
  rw [printed, String.toList_intercalate, List.map_map, List.map_cons, Parse.intercalate_cons]
  simp only [Function.comp_def, toList_printedLine, List.flatMap_map]
  rfl

/-- A statement without its place and its target. -/
def Statement.bare (st : Statement) : Statement := ⟨st.action.unplaced, .start⟩

@[simp] theorem Statement.bare_skippingTo (st : Statement) (t : Nat) : (st.skippingTo t).bare = st.bare := by
  unfold Statement.skippingTo Statement.bare
  split <;> simp_all [Action.unplaced]

/-- The lines that have statements, with bare statements. -/
def bareLines (lines : List (List Statement)) : List (List Statement) :=
  (lines.filter fun line => !line.isEmpty).map (·.map Statement.bare)

namespace Program

/-- The program with the places of its statements left out. -/
def forgetPos (p : Program) : Program :=
  { p with statements := p.statements.map fun st => { st with pos := .start } }

variable {lines : List (List Statement)}

theorem bare_skippingTo_eq (st : Statement) (t : Nat) :
    st.bare.skippingTo t = { st.skippingTo t with pos := .start } := by
  obtain ⟨action, pos⟩ := st
  cases action <;> rfl

theorem statementsFrom_bareLines (start : Nat) :
    statementsFrom start (bareLines lines) =
      (statementsFrom start lines).map fun st => { st with pos := .start } := by
  induction lines generalizing start with
  | nil => rfl
  | cons line lines ih =>
    unfold bareLines at ih ⊢
    cases line with
    | nil => simpa [statementsFrom] using ih start
    | cons st line =>
      simp only [List.isEmpty_cons, Bool.not_false, List.filter_cons_of_pos, List.map_cons, statementsFrom,
        List.length_cons, List.length_map, List.map_map, List.map_append, ih, bare_skippingTo_eq, Function.comp_def]

theorem groupsFrom_bareLines (start : Nat) : groupsFrom start (bareLines lines) = groupsFrom start lines := by
  induction lines generalizing start with
  | nil => rfl
  | cons line lines ih =>
    unfold bareLines at ih ⊢
    cases line with
    | nil => simpa [groupsFrom] using ih start
    | cons st line => simp [groupsFrom, ih]

theorem labelsFrom_bare (start : Nat) (sts : List Statement) :
    labelsFrom start (sts.map Statement.bare) = labelsFrom start sts := by
  induction sts generalizing start with
  | nil => rfl
  | cons st sts ih =>
    rw [List.map_cons, labelsFrom_cons, labelsFrom_cons, ih]
    simp [Statement.bare]

/-- Places, targets and empty lines do not matter to the layout. -/
theorem ofLines_bareLines : ofLines (bareLines lines) = (ofLines lines).forgetPos := by
  have hflat : (bareLines lines).flatten = lines.flatten.map Statement.bare := by
    rw [bareLines, ← List.map_flatten, List.flatten_filter_not_isEmpty]
  unfold ofLines forgetPos
  rw [statementsFrom_bareLines, groupsFrom_bareLines, hflat, labelsFrom_bare]
  simp

/-! ### The lines of a program -/

/-- The program as source text. -/
def text (p : Program) : String := printed p.lines

theorem lines_statementsFrom (pre : List Statement) :
    (groupsFrom pre.length lines).map (fun g =>
      (((pre ++ statementsFrom pre.length lines).toArray.extract g.1 g.2).toList).map Statement.bare) =
      bareLines lines := by
  induction lines generalizing pre with
  | nil => rfl
  | cons line lines ih =>
    cases line with
    | nil => simpa [groupsFrom, statementsFrom, bareLines] using ih pre
    | cons st line =>
      have hlen : (pre ++ (st :: line).map (·.skippingTo (pre.length + (line.length + 1)))).length =
          pre.length + (line.length + 1) := by simp
      have htail := ih (pre ++ (st :: line).map (·.skippingTo (pre.length + (line.length + 1))))
      rw [hlen] at htail
      unfold bareLines at htail ⊢
      simp only [groupsFrom, statementsFrom, List.isEmpty_cons, Bool.false_eq_true, if_false, Bool.not_false,
        List.filter_cons_of_pos, List.map_cons, List.length_cons]
      rw [← htail, List.append_assoc]
      congr 1
      simp [List.extract_eq_take_drop, Function.comp_def]

theorem bare_lines_ofLines : (ofLines lines).lines.map (·.map Statement.bare) = bareLines lines := by
  have := @lines_statementsFrom lines []
  simpa [Program.lines, ofLines, Function.comp_def] using this

end Program

theorem printed_bare (lines : List (List Statement)) : printed (lines.map (·.map Statement.bare)) = printed lines := by
  have hrender : ∀ st : Statement, st.bare.render = st.render := fun st => st.action.unplaced_render
  have hline : ∀ line : List Statement, printedLine (line.map Statement.bare) = printedLine line := by
    intro line
    simp [printedLine, Function.comp_def, hrender]
  simp [printed, Function.comp_def, hline]

/-! ## Reading the printed form -/

theorem map_bare_eq {lines lines' : List (List Statement)}
    (h : lines'.map (·.map (·.action)) = lines.map (·.map (·.action.unplaced))) :
    lines'.map (·.map Statement.bare) = lines.map (·.map Statement.bare) := by
  have hidem : ∀ a : Action, a.unplaced.unplaced = a.unplaced := by
    intro a
    cases a <;> rfl
  have := congrArg (List.map (List.map fun a : Action => (⟨a.unplaced, .start⟩ : Statement))) h
  simp only [List.map_map, Function.comp_def, hidem] at this
  exact this

theorem bareLines_eq_filter (lines : List (List Statement)) :
    bareLines lines = (lines.map (·.map Statement.bare)).filter fun line => !line.isEmpty := by
  simp [bareLines, List.filter_map, Function.comp_def]

theorem bareLines_of_ne_nil {lines : List (List Statement)} (h : ∀ line ∈ lines, line ≠ []) :
    bareLines lines = lines.map (·.map Statement.bare) := by
  rw [bareLines, List.filter_eq_self.mpr]
  intro line hline
  simpa using h line hline

theorem Parse.Draft.close_of_defined {d : Draft} (h : ∀ r ∈ d.references, Text.upper r.1 ∈ d.labels) :
    d.close = .ok (.ofLines d.lines.reverse) := by
  have hnone : d.references.reverse.find? (fun r => !d.labels.contains (Text.upper r.1)) = none := by
    rw [List.find?_eq_none]
    intro r hr
    simpa using h r (List.mem_reverse.mp hr)
  rw [Draft.close, hnone]

theorem Program.parse_printed_cons {line : List Statement} {lines : List (List Statement)}
    (hl : ProperLines (line :: lines)) :
    ∃ lines', Program.parse (printed (line :: lines)) false = .ok (.ofLines lines') ∧
      lines'.map (·.map Statement.bare) = (line :: lines).map (·.map Statement.bare) := by
  have hflat : ((line :: lines).map (·.map (·.action))).flatten = (line :: lines).flatten.map (·.action) := by
    rw [List.map_flatten]
  have hproper : ∀ a ∈ ((line :: lines).map (·.map (·.action))).flatten, a.Proper := by
    intro a ha
    rw [hflat] at ha
    obtain ⟨st, hst, rfl⟩ := List.mem_map.mp ha
    exact hl.proper st hst
  have hkeys : ((line :: lines).map (·.map (·.action))).flatten.filterMap Action.labelKey? =
      labelKeys (line :: lines).flatten := by
    rw [hflat, List.filterMap_map]
    rfl
  have hu : (labelKeys (Parse.Draft.statements {}) ++
      ((line :: lines).map (·.map (·.action))).flatten.filterMap Action.labelKey?).Nodup := by
    rw [hkeys]
    exact hl.unique
  obtain ⟨d, hread, hlines⟩ := Parse.commands_lines (p := .start) Parse.Draft.good_empty rfl hproper hu
  -- Normalizing leaves the printed text as it is.
  have hread' : Parse.commands false {} (Lexemes.ofText (printed (line :: lines)).toList) = .ok d := by
    have hline : Unbroken (Parse.lineText (line.map (·.action))) :=
      .lineText fun a ha => hproper a (List.mem_append_left _ ha)
    rw [Lexemes.ofText, toList_printed_cons, hline.normalize_append,
      normalize_lines fun a ha => hproper a (List.mem_append_right _ ha)]
    exact hread
  obtain ⟨hgood, hline⟩ := Parse.commands_good Parse.Draft.good_empty (Cursor.lexemes_sound _) hread'
  have hacts : d.lines.reverse.map (·.map (·.action)) = (line :: lines).map (·.map (·.action.unplaced)) := by
    simpa [Function.comp_def] using hlines
  have hst : d.statements.map (·.action) = (line :: lines).flatten.map (·.action.unplaced) := by
    have := congrArg List.flatten hacts
    rw [← List.map_flatten, ← List.map_flatten] at this
    simpa [Parse.Draft.statements, hline] using this
  have hlabels : labelKeys d.statements = labelKeys (line :: lines).flatten := by
    have := congrArg (List.filterMap Action.labelKey?) hst
    simp only [List.filterMap_map, Function.comp_def, Action.unplaced_labelKey?] at this
    exact this
  -- What the draft refers to is what the lines mention, and the lines have all of these labels.
  have hdefined : ∀ r ∈ d.references, Text.upper r.1 ∈ d.labels := by
    intro r hr
    have hmem : r.1 ∈ d.statements.flatMap (·.action.mentions) := by
      rw [← hgood.references]
      exact List.mem_map.mpr ⟨r, List.mem_reverse.mpr hr, rfl⟩
    obtain ⟨st, hmem, hmention⟩ := List.mem_flatMap.mp hmem
    obtain ⟨st', hst', haction⟩ := List.mem_map.mp (hst ▸ List.mem_map_of_mem hmem)
    rw [← haction, Action.unplaced_mentions] at hmention
    rw [← List.mem_reverse, hgood.labels, hlabels]
    exact hl.defined st' hst' r.1 hmention
  refine ⟨d.lines.reverse, ?_, map_bare_eq hacts⟩
  exact Except.bind_eq_ok.mpr ⟨d, hread', Parse.Draft.close_of_defined hdefined⟩

theorem Program.parse_printed {lines : List (List Statement)} (hl : ProperLines lines) :
    ∃ lines', Program.parse (printed lines) false = .ok (.ofLines lines') ∧ bareLines lines' = bareLines lines := by
  cases lines with
  | nil =>
    -- No line and one empty line have the same printed form.
    have hempty : ProperLines [[]] := ⟨hl.proper, hl.unique, hl.defined⟩
    obtain ⟨lines', hparse, hbare⟩ := Program.parse_printed_cons hempty
    exact ⟨lines', hparse, by rw [bareLines_eq_filter, hbare]; rfl⟩
  | cons line lines =>
    obtain ⟨lines', hparse, hbare⟩ := Program.parse_printed_cons hl
    exact ⟨lines', hparse, by rw [bareLines_eq_filter, hbare, ← bareLines_eq_filter]⟩

theorem Program.text_ofLines (lines : List (List Statement)) : (ofLines lines).text = printed (bareLines lines) := by
  rw [Program.text, ← printed_bare, bare_lines_ofLines]

/-- Reading inverts printing on all proper lines, and so on every program that was read. -/
theorem Program.parse_printed_lines :
    (∀ lines : List (List Statement), ProperLines lines → (∀ line ∈ lines, line ≠ []) →
      ∃ p, Program.parse (printed lines) false = .ok p ∧ p.WellFormed ∧
        p.lines.map (·.map Statement.bare) = lines.map (·.map Statement.bare) ∧
        p.forgetPos = (ofLines lines).forgetPos) ∧
    (∀ source pedantic p, Program.parse source pedantic = .ok p →
      ∃ p', Program.parse p.text false = .ok p' ∧ p'.forgetPos = p.forgetPos ∧ p'.text = p.text) ∧
    ∀ p : Program, p.listing = String.intercalate "\n"
      (List.zipWith (fun g line => "[" ++ toString g.1 ++ "] " ++ printedLine line) p.groups p.lines) := by
  refine ⟨fun lines hl hne => ?_, fun source pedantic p hp => ?_, fun p => ?_⟩
  · obtain ⟨lines', hparse, hbare⟩ := Program.parse_printed hl
    have wf : (ofLines lines').WellFormed := by
      obtain ⟨lines'', hproper, heq⟩ := Program.parse_eq_ofLines hparse
      rw [heq]
      exact ofLines_wellFormed hproper
    refine ⟨ofLines lines', hparse, wf, ?_, ?_⟩
    · rw [bare_lines_ofLines, hbare, bareLines_of_ne_nil hne]
    · rw [← ofLines_bareLines, ← ofLines_bareLines, hbare]
  · obtain ⟨lines, hl, rfl⟩ := Program.parse_eq_ofLines hp
    -- The lines that have statements print like the program.
    have hfull : ProperLines (lines.filter fun line => !line.isEmpty) := by
      have hflat : (lines.filter fun line => !line.isEmpty).flatten = lines.flatten := List.flatten_filter_not_isEmpty
      exact ⟨hflat ▸ hl.proper, hflat ▸ hl.unique, hflat ▸ hl.defined⟩
    have htext : (ofLines lines).text = printed (lines.filter fun line => !line.isEmpty) := by
      rw [text_ofLines, bareLines, printed_bare]
    obtain ⟨lines', hparse, hbare⟩ := Program.parse_printed hfull
    have hsame : bareLines lines' = bareLines lines := by
      rw [hbare, bareLines, bareLines, List.filter_filter]
      simp
    refine ⟨ofLines lines', htext ▸ hparse, ?_, ?_⟩
    · rw [← ofLines_bareLines, ← ofLines_bareLines, hsame]
    · rw [text_ofLines, text_ofLines, hsame]
  · unfold Program.listing Program.lines
    rw [List.zipWith_map_right, List.zipWith_self]
    rfl

/-- Labels, a condition, an assignment, a key and a token. -/
def sampleLines : List (List Statement) :=
  [[⟨.label "Again", .start⟩, ⟨.cond (.var "n") .le (.literal 3) 0, .start⟩,
    ⟨.assign "n" ⟨.var "n", some (.plus, .literal 1)⟩, .start⟩, ⟨.goto "AGAIN", .start⟩],
   [⟨.call .setKeyboard [⟨.key, .key ⟨'x', true⟩⟩, ⟨.label, .label "again"⟩], .start⟩,
    ⟨.call .setWaitMode [⟨.token, .token "FOCUS"⟩], .start⟩]]

theorem sampleLines_proper : ProperLines sampleLines where
  proper := by
    intro st hst
    simp only [sampleLines, List.flatten_cons, List.flatten_nil, List.append_nil, List.cons_append, List.nil_append,
      List.mem_cons, List.not_mem_nil, or_false] at hst
    rcases hst with rfl | rfl | rfl | rfl | rfl | rfl
    · show IsName "Again"
      decide +kernel
    · show IsName "n" ∧ 3 ≤ Parse.maxLiteral
      decide +kernel
    · refine ⟨by decide +kernel, by show IsName "n"; decide +kernel, ?_⟩
      rintro _ _ ⟨⟩
      show 1 ≤ Parse.maxLiteral
      decide
    · show IsName "AGAIN"
      decide +kernel
    · refine ⟨1, ?_⟩
      decide +kernel
    · show List.Forall₂ Slot.Holds _ _
      decide +kernel
  unique := by decide +kernel
  defined := by decide +kernel

theorem Program.parse_printed_sampleLines :
    ProperLines sampleLines ∧ (∃ p, Program.parse (printed sampleLines) false = .ok p ∧ p.WellFormed) ∧
      ∃ p, Program.parse "Goto B|If 1<>x Then B:" false = .ok p ∧
        ∃ p', Program.parse p.text false = .ok p' ∧ p'.forgetPos = p.forgetPos := by
  refine ⟨sampleLines_proper, ?_, ?_⟩
  · obtain ⟨p, hp, wf, -⟩ := Program.parse_printed_lines.1 sampleLines sampleLines_proper (by decide)
    exact ⟨p, hp, wf⟩
  · cases h : Program.parse "Goto B|If 1<>x Then B:" false with
    | error e =>
      have hok : (Program.parse "Goto B|If 1<>x Then B:" false).toOption.isSome = true := by decide +kernel
      rw [h] at hok
      cases hok
    | ok p =>
      obtain ⟨p', hp', hsame, -⟩ := Program.parse_printed_lines.2.1 _ _ p h
      exact ⟨p, rfl, p', hp', hsame⟩

end GraphicsBatch
