import GraphicsBatch.Proofs.Dispatch
import GraphicsBatch.Proofs.Joined
import GraphicsBatch.Proofs.Moments
import GraphicsBatch.Proofs.Placed

/-!
# Pedantic programs

A pedantic program is a program all of whose labels stand in the first column. Only the first statement of a line can
stand there, so a label comes first on its line, and a jump never lands behind any other statement of a line.
-/

namespace GraphicsBatch

open Source

/-- If a statement is a label, then it stands in the first column. -/
def Statement.Flush (st : Statement) : Prop := ∀ name, st.action = .label name → st.pos.col = 1

theorem Statement.flush_skippingTo (st : Statement) (t : Nat) : (st.skippingTo t).Flush ↔ st.Flush := by
  simp only [Flush, skippingTo_eq_label, skippingTo_pos]

namespace Parse

variable {pedantic : Bool} {d e r : Draft} {l : Lexeme} {s t : Lexemes}

theorem command_grows (h : command pedantic d l s = .ok (e, t)) :
    e = d.endLine ∨ ∃ st, e.lines = d.lines ∧ e.line = st :: d.line := by
  obtain ⟨token, pos, att⟩ := l
  cases token with
  | lineEnd =>
    cases h
    exact .inl rfl
  | word name =>
    right
    rcases afterWord_eq_ok.mp h with ⟨-, he⟩ | ⟨u, k, r, -, -, -, rfl⟩
    · obtain ⟨-, -, -, rfl⟩ := Draft.addLabel_eq_ok.mp he
      exact ⟨_, rfl, rfl⟩
    · exact ⟨_, rfl, rfl⟩
  | _ => cases h

theorem command_statements (h : command pedantic d l s = .ok (e, t)) :
    e.statements = d.statements ++ e.line.head?.toList := by
  rcases command_grows h with rfl | ⟨st, hlines, hline⟩
  · simp [Draft.endLine, Draft.statements]
  · simp [Draft.statements, hlines, hline]

theorem commands_statements (h : commands pedantic d s = .ok r) : ∀ st ∈ d.statements, st ∈ r.statements := by
  refine commands_induction (motive := fun d _ r => ∀ st ∈ d.statements, st ∈ r.statements) ?_ ?_ h
  · intro d finish st hst
    rwa [Draft.statements_endLine]
  · intro d l s e t r hstep _ ih st hst
    refine ih st ?_
    rw [command_statements hstep]
    exact List.mem_append_left _ hst

theorem attached_sound {ch : Char} {b : Bool} (hs : s.Sound) (h : attached ch s = .ok (b, t)) : t.Sound :=
  (Yields.attached ch s b t hs h).1

theorem command_sound (hs : s.Sound) (h : command pedantic d l s = .ok (e, t)) : t.Sound := by
  obtain ⟨token, pos, att⟩ := l
  cases token with
  | lineEnd =>
    cases h
    exact hs
  | word name =>
    rcases afterWord_eq_ok.mp h with ⟨hb, -⟩ | ⟨u, k, r, hb, -, hr, -⟩
    · exact attached_sound hs hb
    · exact (Yields.statement k name pos u r t (attached_sound hs hb) hr).1
  | _ => cases h

/-- Being pedantic is to look at where a label stands that is added. -/
theorem command_pedantic (hs : s.Sound) : command true d l s = .ok (e, t) ↔
    command false d l s = .ok (e, t) ∧ ∀ st ∈ e.line.head?, st.Flush := by
  obtain ⟨token, pos, att⟩ := l
  cases token with
  | lineEnd =>
    refine ⟨fun h => ⟨h, ?_⟩, fun h => h.1⟩
    cases h
    simp [Draft.endLine]
  | word name =>
    constructor
    · intro h
      rcases afterWord_eq_ok.mp h with ⟨hb, he⟩ | ⟨u, k, r, hb, hk, hr, rfl⟩
      · obtain ⟨hres, hcol, hnew, rfl⟩ := Draft.addLabel_eq_ok.mp he
        refine ⟨afterWord_eq_ok.mpr (.inl ⟨hb, Draft.addLabel_eq_ok.mpr ⟨hres, by simp, hnew, rfl⟩⟩), ?_⟩
        rintro st ⟨⟩ _ _
        exact hcol rfl
      · refine ⟨afterWord_eq_ok.mpr (.inr ⟨u, k, r, hb, hk, hr, rfl⟩), ?_⟩
        -- What starts with a keyword is not a label, so nothing is asked of its column.
        have hread := (Yields.statement k name pos u r t (attached_sound hs hb) hr).2
        rintro st ⟨⟩ label hlabel
        have hkey : r.1.labelKey? = none := hread.2.1
        have hlabel : r.1 = .label label := hlabel
        rw [hlabel] at hkey
        cases hkey
    · rintro ⟨h, hflush⟩
      rcases afterWord_eq_ok.mp h with ⟨hb, he⟩ | ⟨u, k, r, hb, hk, hr, rfl⟩
      · obtain ⟨hres, -, hnew, rfl⟩ := Draft.addLabel_eq_ok.mp he
        have hcol : pos.col = 1 := hflush _ rfl name rfl
        exact afterWord_eq_ok.mpr (.inl ⟨hb, Draft.addLabel_eq_ok.mpr ⟨hres, fun _ => hcol, hnew, rfl⟩⟩)
      · exact afterWord_eq_ok.mpr (.inr ⟨u, k, r, hb, hk, hr, rfl⟩)
  | _ => exact ⟨fun h => (by cases h), fun h => (by cases h.1)⟩

theorem commands_pedantic (hs : s.Sound) (hd : ∀ st ∈ d.statements, st.Flush) : commands true d s = .ok r ↔
    commands false d s = .ok r ∧ ∀ st ∈ r.statements, st.Flush := by
  constructor
  · intro h
    revert hs hd
    refine commands_induction (motive := fun d s r => s.Sound → (∀ st ∈ d.statements, st.Flush) →
      commands false d s = .ok r ∧ ∀ st ∈ r.statements, st.Flush) ?_ ?_ h
    · intro d finish _ hd
      rw [commands, Draft.statements_endLine]
      exact ⟨rfl, hd⟩
    · intro d l s e t r hstep _ ih hs hd
      have hs : s.Sound := fun k hk => hs k (List.mem_cons_of_mem _ hk)
      obtain ⟨hstep', hflush⟩ := (command_pedantic hs).mp hstep
      rw [commands_cons, hstep']
      refine ih (command_sound hs hstep) ?_
      rw [command_statements hstep, List.forall_mem_append]
      exact ⟨hd, fun st hst => hflush st (by simpa using hst)⟩
  · rintro ⟨h, hr⟩
    revert hs hr
    refine commands_induction (motive := fun d s r => s.Sound → (∀ st ∈ r.statements, st.Flush) →
      commands true d s = .ok r) ?_ ?_ h
    · intro d finish _ _
      rw [commands]
    · intro d l s e t r hstep hrest ih hs hr
      have hs : s.Sound := fun k hk => hs k (List.mem_cons_of_mem _ hk)
      -- Statements are never taken back, so the one that is added is among those that the text has in the end.
      have hflush : ∀ st ∈ e.line.head?, st.Flush := by
        intro st hst
        refine hr st (commands_statements hrest st ?_)
        rw [command_statements hstep]
        exact List.mem_append_right _ (by simpa using hst)
      rw [commands_cons, (command_pedantic hs).mpr ⟨hstep, hflush⟩]
      exact ih (command_sound hs hstep) hr

end Parse

namespace Program

theorem parse_true_iff {source : String} {p : Program} : Program.parse source true = .ok p ↔
    Program.parse source false = .ok p ∧ ∀ st ∈ p.statements.toList, st.Flush := by
  have hpedantic : ∀ d, Parse.commands true {} (Lexemes.ofText source.toList) = .ok d ↔
      Parse.commands false {} (Lexemes.ofText source.toList) = .ok d ∧ ∀ st ∈ d.statements, st.Flush :=
    fun d => Parse.commands_pedantic (Cursor.lexemes_sound _) (by simp [Parse.Draft.statements])
  have hflush : ∀ d, Parse.commands false {} (Lexemes.ofText source.toList) = .ok d → d.close = .ok p →
      ((∀ st ∈ d.statements, st.Flush) ↔ ∀ st ∈ p.statements.toList, st.Flush) := by
    intro d hd hclose
    obtain ⟨rfl, -⟩ := Parse.Draft.close_eq_ok hclose
    have hline : d.line = [] := (Parse.commands_good Parse.Draft.good_empty (Cursor.lexemes_sound _) hd).2
    have hst : d.statements = d.lines.reverse.flatten := by simp [Parse.Draft.statements, hline]
    rw [hst]
    exact (forall_statementsFrom Statement.flush_skippingTo).symm
  constructor
  · intro h
    obtain ⟨d, hd, hclose⟩ := Except.bind_eq_ok.mp h
    obtain ⟨hd, hall⟩ := (hpedantic d).mp hd
    exact ⟨Except.bind_eq_ok.mpr ⟨d, hd, hclose⟩, (hflush d hd hclose).mp hall⟩
  · rintro ⟨h, hall⟩
    obtain ⟨d, hd, hclose⟩ := Except.bind_eq_ok.mp h
    exact Except.bind_eq_ok.mpr ⟨d, (hpedantic d).mpr ⟨hd, (hflush d hd hclose).mpr hall⟩, hclose⟩

/-! ## Lines -/

theorem statementsFrom_line {lines : List (List Statement)} {start i : Nat} {st : Statement}
    (h : (statementsFrom start lines)[i]? = some st) : ∃ g ∈ groupsFrom start lines, ∃ row ∈ lines, ∃ k s,
      start + i = g.1 + k ∧ row[k]? = some s ∧ st = s.skippingTo g.2 := by
  induction lines generalizing start i with
  | nil => simp [statementsFrom] at h
  | cons line lines ih =>
    simp only [statementsFrom] at h
    simp only [groupsFrom]
    by_cases hi : i < line.length
    · have hne : line.isEmpty = false := by
        rw [List.isEmpty_eq_false_iff]
        rintro rfl
        simp at hi
      rw [List.getElem?_append_left (by simpa using hi), List.getElem?_map] at h
      obtain ⟨s, hs, rfl⟩ := Option.map_eq_some_iff.mp h
      exact ⟨(start, start + line.length), by simp [hne], line, List.mem_cons_self, i, s, rfl, hs, rfl⟩
    · rw [List.getElem?_append_right (by simpa using hi), List.length_map] at h
      obtain ⟨g, hg, line', hline', k, s, hk, hs, rfl⟩ := ih h
      refine ⟨g, ?_, line', List.mem_cons_of_mem _ hline', k, s, by omega, hs, rfl⟩
      split
      · exact hg
      · exact List.mem_cons_of_mem _ hg

theorem parse_first_column {source : String} {pedantic : Bool} {p : Program}
    (h : Program.parse source pedantic = .ok p) {i : Nat} {st : Statement} (hi : p.statements[i]? = some st)
    (hcol : st.pos.col = 1) : ∃ stop, (i, stop) ∈ p.groups := by
  obtain ⟨d, hd, hclose⟩ := Except.bind_eq_ok.mp h
  obtain ⟨rfl, -⟩ := Parse.Draft.close_eq_ok hclose
  obtain ⟨c, hplaced⟩ := Parse.commands_placed hd
  have hi : (statementsFrom 0 d.lines.reverse)[i]? = some st := by simpa [ofLines] using hi
  obtain ⟨g, hg, line, hline, k, s, hk, hs, rfl⟩ := statementsFrom_line hi
  rw [Statement.skippingTo_pos] at hcol
  cases k with
  | zero =>
    obtain rfl : i = g.1 := by omega
    exact ⟨g.2, hg⟩
  | succ k =>
    have htail : s ∈ line.tail := by
      rw [← List.getElem?_tail] at hs
      exact List.mem_of_getElem? hs
    exact absurd hcol (hplaced.leading line (List.mem_cons_of_mem _ (List.mem_reverse.mp hline)) s htail)

/-- The index right behind a label that is the first statement of its group. -/
def EntersLine (p : Program) (t : Nat) : Prop :=
  ∃ g ∈ p.groups, t = g.1 + 1 ∧ ∃ name pos, p.statements[g.1]? = some ⟨.label name, pos⟩

theorem parse_true_entersLine {source : String} {p : Program} (h : Program.parse source true = .ok p) {K : String}
    {t : Nat} (ht : p.labels.lookup K = some t) : p.EntersLine t := by
  obtain ⟨lines, hl, hp⟩ := Program.parse_eq_ofLines h
  have wf : p.WellFormed := hp ▸ Program.ofLines_wellFormed hl
  obtain ⟨i, ⟨action, pos⟩, rfl, hi, hkey⟩ := (wf.labels K t).mp ht
  cases action with
  | label name =>
    have hflush := (parse_true_iff.mp h).2 _ (Array.mem_toList_iff.mpr (Array.mem_of_getElem? hi))
    obtain ⟨stop, hg⟩ := parse_first_column h hi (hflush name rfl)
    exact ⟨(i, stop), hg, rfl, name, pos, hi⟩
  | _ => cases hkey

end Program

/-! ## Jumps -/

namespace Engine

variable {σ : Type} {g : Engine} {h : Host σ} {st : Statement} {m m' : Machine σ}

theorem CarriesOut.jumps (hc : g.CarriesOut h st m m') {l : String} (hl : st.action = .goto l ∨ st.action = .gosub l) :
    g.program.labels.lookup (Text.upper l) = some m'.state.pc := by
  obtain ⟨pl, reply, hpl, hreply⟩ := hc.planned
  rcases hl with hl | hl
  · rw [hl] at hpl
    cases hpl with
    | goto ht => exact Except.ok.inj hreply ▸ ht
  · rw [hl] at hpl
    cases hpl with
    | gosub _ ht => exact Except.ok.inj hreply ▸ ht

theorem wakeAt_target {s s' : State} {o : Option String} (hwake : g.wakeAt s o = .ok (some s')) :
    ∃ l, g.program.labels.lookup (Text.upper l) = some s'.pc := by
  cases o with
  | none => cases hwake
  | some l =>
    obtain ⟨t, ht, hwake⟩ := Except.bind_eq_ok.mp hwake
    cases hwake
    have ht := Except.mapError_eq_ok.mp ht
    unfold Program.target at ht
    split at ht
    · cases ht
      rename_i ht
      exact ⟨l, ht⟩
    · cases ht

theorem react_target {s s' : State} {i : Input} (hi : i ≠ .timeout) (hreact : g.react s i = .ok (some s')) :
    ∃ l, g.program.labels.lookup (Text.upper l) = some s'.pc := by
  cases i with
  | click x y =>
    obtain ⟨found, -, hwake⟩ := Except.bind_eq_ok.mp hreact
    cases found with
    | none => cases hwake
    | some r => exact wakeAt_target hwake
  | key code char ctrl =>
    obtain ⟨o, -, hwake⟩ := Except.bind_eq_ok.mp hreact
    exact wakeAt_target hwake
  | menu id =>
    obtain ⟨o, -, hwake⟩ := Except.bind_eq_ok.mp hreact
    exact wakeAt_target hwake
  | timeout => exact absurd rfl hi
  | quit => cases hreact

theorem resume_target {e : Event} (hwait : m.state.status = .suspended) (he : e.read ≠ .input .timeout)
    (hrun : (g.resume h 0 e m).1.state.status = .running) :
    ∃ l, g.program.labels.lookup (Text.upper l) = some (g.resume h 0 e m).1.state.pc := by
  have hresumed := resumed g h 0 e m
  generalize g.resume h 0 e m = r at hresumed hrun
  cases hresumed with
  | quit _ _ => cases hrun
  | woken _ hread hreact => exact react_target (fun hi => he (hi ▸ hread)) hreact
  -- An event that is not taken leaves the program waiting.
  | _ => cases hwait.symm.trans hrun

end Engine

/-- A pedantic program is one with its labels in the first column, and every jump lands right behind such a label. -/
theorem Program.parse_pedantic (source : String) :
    (∀ p, Program.parse source true = .ok p ↔ Program.parse source false = .ok p ∧
      ∀ st ∈ p.statements.toList, ∀ name, st.action = .label name → st.pos.col = 1) ∧
    ∀ p, Program.parse source true = .ok p →
      (∀ (i : Nat) name pos, p.statements[i]? = some ⟨.label name, pos⟩ → ∃ stop, (i, stop) ∈ p.groups) ∧
      ∀ (maxStack : Int) (trace : Bool) (σ : Type) (h : Host σ) (m : Machine σ),
        (∀ st m' l, Engine.CarriesOut ⟨p, maxStack, trace⟩ h st m m' → st.action = .goto l ∨ st.action = .gosub l →
          p.EntersLine m'.state.pc) ∧
        ∀ e : Event, m.state.status = .suspended → e.read ≠ .input .timeout →
          (Engine.resume ⟨p, maxStack, trace⟩ h 0 e m).1.state.status = .running →
          p.EntersLine (Engine.resume ⟨p, maxStack, trace⟩ h 0 e m).1.state.pc := by
  refine ⟨fun p => parse_true_iff, fun p hp => ⟨fun i name pos hi => ?_, fun maxStack trace σ h m => ⟨?_, ?_⟩⟩⟩
  · have hflush := (parse_true_iff.mp hp).2 _ (Array.mem_toList_iff.mpr (Array.mem_of_getElem? hi))
    exact parse_first_column hp hi (hflush name rfl)
  · intro st m' l hc hl
    exact parse_true_entersLine hp (hc.jumps hl)
  · intro e hwait he hrun
    obtain ⟨l, hl⟩ := Engine.resume_target hwait he hrun
    exact parse_true_entersLine hp hl

def pedanticLoop : String := "Loop: SetKeyboard(13,loop)\nWaitInput()\nGoto loop"

def loopBack : Statement := ⟨.goto "loop", ⟨3, 1⟩⟩

theorem Program.parse_pedantic_loop : ∃ p m', Program.parse pedanticLoop true = .ok p ∧
    Engine.CarriesOut ⟨p, 9, false⟩ (.silent fun _ w => w) loopBack ⟨{ pc := 3 }, ()⟩ m' ∧
    p.EntersLine m'.state.pc ∧ (∃ stop, (0, stop) ∈ p.groups) ∧
    let m := Engine.after ⟨p, 9, false⟩ (.silent fun _ w => w) ⟨{}, ()⟩ [.run 9]
    m.state.status = .suspended ∧
      p.EntersLine (Engine.resume ⟨p, 9, false⟩ (.silent fun _ w => w) 0 ⟨.keyDown, [.int 13]⟩ m).1.state.pc := by
  have hsome : (Program.parse pedanticLoop true).toOption.map (fun p =>
      let g : Engine := ⟨p, 9, false⟩
      let h : Host Unit := .silent fun _ w => w
      let m := g.after h ⟨{}, ()⟩ [.run 9]
      decide (p.statements[3]? = some loopBack ∧ p.statements[0]? = some ⟨.label "Loop", .start⟩ ∧
        (g.perform h loopBack (g.entering h loopBack ⟨{ pc := 3 }, ()⟩)).2 = none ∧ m.state.status = .suspended ∧
        (g.resume h 0 ⟨.keyDown, [.int 13]⟩ m).1.state.status = .running)) = some true := by decide +kernel
  obtain ⟨p, hparse, heq⟩ := Except.exists_of_map_toOption hsome
  obtain ⟨hgoto, hlabel, hdone, hwait, hrun⟩ := of_decide_eq_true heq
  obtain ⟨hfirst, hjumps⟩ := (Program.parse_pedantic pedanticLoop).2 p hparse
  generalize hr : Engine.perform _ _ loopBack _ = r at hdone
  obtain ⟨m', halt⟩ := r
  obtain rfl : halt = none := hdone
  have hc : Engine.CarriesOut ⟨p, 9, false⟩ (.silent fun _ w => w) loopBack ⟨{ pc := 3 }, ()⟩ m' := ⟨rfl, hgoto, hr⟩
  exact ⟨p, m', hparse, hc, (hjumps 9 false Unit _ _).1 loopBack m' "loop" hc (.inl rfl), hfirst 0 "Loop" .start hlabel,
    hwait, (hjumps 9 false Unit _ _).2 ⟨.keyDown, [.int 13]⟩ hwait (by simp [Event.read]) hrun⟩

end GraphicsBatch
