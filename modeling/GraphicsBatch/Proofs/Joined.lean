import GraphicsBatch.Proofs.Followed

/-!
# Sources behind one another

Two sources that share no label, with a line feed between them, are read as one program behind the other. Nothing
changes in the first one; in the second one skip targets, labels and groups move behind the statements of the first one,
and places move below its lines.
-/

namespace GraphicsBatch

open Source

/-! ## Programs behind one another -/

/-- The same column some lines below. -/
def Position.down (n : Nat) (p : Position) : Position := ⟨p.line + n, p.col⟩

namespace Position

@[simp] theorem down_zero (p : Position) : p.down 0 = p := by
  simp [down]

theorem down_after (n : Nat) (p : Position) (c : Char) : (p.down n).after c = (p.after c).down n := by
  unfold after down
  split
  · simp only [Position.mk.injEq, and_true]
    omega
  · rfl

theorem afterAll_line (p : Position) (cs : List Char) : (p.afterAll cs).line = p.line + cs.count '\n' := by
  induction cs generalizing p with
  | nil => simp
  | cons c cs ih =>
    rw [afterAll_cons, ih, List.count_cons]
    unfold after
    by_cases hc : c = '\n'
    · simp only [hc, if_true, beq_self_eq_true]
      omega
    · simp [hc]

theorem start_down (cs : List Char) : (start.afterAll cs).after '\n' = start.down (1 + cs.count '\n') := by
  have hline := afterAll_line start cs
  unfold after down
  rw [if_pos rfl, hline]
  simp only [start, Position.mk.injEq, and_true]
  omega

end Position

/-- A condition that stands behind `k` more statements. -/
def Action.behind (k : Nat) : Action → Action
  | .cond lhs op rhs skipTo => .cond lhs op rhs (skipTo + k)
  | a => a

/-- A statement that stands behind `k` more statements, `n` lines below. -/
def Statement.moved (k n : Nat) (st : Statement) : Statement := ⟨st.action.behind k, st.pos.down n⟩

/-- One program behind another, whose source takes `n` lines. -/
def Program.joined (p q : Program) (n : Nat) : Program where
  statements := p.statements ++ q.statements.map (·.moved p.size n)
  labels := p.labels ++ q.labels.map fun l => (l.1, l.2 + p.size)
  groups := p.groups ++ q.groups.map fun g => (g.1 + p.size, g.2 + p.size)

@[simp] theorem Action.behind_zero (a : Action) : a.behind 0 = a := by
  cases a <;> rfl

@[simp] theorem Statement.moved_zero (st : Statement) : st.moved 0 0 = st := by
  simp [moved]

theorem Statement.moved_skippingTo (k n t : Nat) (st : Statement) :
    (st.moved 0 n).skippingTo (t + k) = (st.skippingTo t).moved k n := by
  obtain ⟨action, pos⟩ := st
  cases action <;> rfl

namespace Program

variable {lines more : List (List Statement)}

theorem statementsFrom_append (start : Nat) : statementsFrom start (lines ++ more) =
    statementsFrom start lines ++ statementsFrom (start + lines.flatten.length) more := by
  induction lines generalizing start with
  | nil => rfl
  | cons line lines ih =>
    simp only [List.cons_append, statementsFrom, List.flatten_cons, List.length_append, ih, List.append_assoc,
      Nat.add_assoc]

theorem groupsFrom_append (start : Nat) : groupsFrom start (lines ++ more) =
    groupsFrom start lines ++ groupsFrom (start + lines.flatten.length) more := by
  induction lines generalizing start with
  | nil => rfl
  | cons line lines ih =>
    simp only [List.cons_append, groupsFrom, List.flatten_cons, List.length_append, ih, Nat.add_assoc]
    split
    · rfl
    · rfl

theorem labelsFrom_append (start : Nat) (sts rest : List Statement) :
    labelsFrom start (sts ++ rest) = labelsFrom start sts ++ labelsFrom (start + sts.length) rest := by
  induction sts generalizing start with
  | nil => rfl
  | cons st sts ih =>
    rw [List.cons_append, labelsFrom_cons, labelsFrom_cons, ih, List.append_assoc, List.length_cons, Nat.add_assoc,
      Nat.add_comm 1]

theorem statementsFrom_moved (start k n : Nat) : statementsFrom (start + k) (lines.map (·.map (·.moved 0 n))) =
    (statementsFrom start lines).map (·.moved k n) := by
  induction lines generalizing start with
  | nil => rfl
  | cons line lines ih =>
    have hstop : start + k + line.length = start + line.length + k := by omega
    simp only [List.map_cons, statementsFrom, List.length_map, hstop, ih, List.map_append, List.map_map,
      Function.comp_def, Statement.moved_skippingTo]

theorem groupsFrom_moved (start k n : Nat) : groupsFrom (start + k) (lines.map (·.map (·.moved 0 n))) =
    (groupsFrom start lines).map fun g => (g.1 + k, g.2 + k) := by
  induction lines generalizing start with
  | nil => rfl
  | cons line lines ih =>
    have hstop : start + k + line.length = start + line.length + k := by omega
    simp only [List.map_cons, groupsFrom, List.length_map, List.isEmpty_map, hstop, ih]
    split
    · rfl
    · rfl

theorem labelsFrom_moved (start k n : Nat) (sts : List Statement) :
    labelsFrom (start + k) (sts.map (·.moved 0 n)) = (labelsFrom start sts).map fun l => (l.1, l.2 + k) := by
  induction sts generalizing start with
  | nil => rfl
  | cons st sts ih =>
    have hnext : start + k + 1 = start + 1 + k := by omega
    rw [List.map_cons, labelsFrom_cons, labelsFrom_cons, hnext, ih, List.map_append]
    simp only [Statement.moved, Action.behind_zero]
    cases st.action.labelKey? <;> rfl

theorem ofLines_joined (n : Nat) :
    ofLines (lines ++ more.map (·.map (·.moved 0 n))) = (ofLines lines).joined (ofLines more) n := by
  have hsize : (ofLines lines).size = 0 + lines.flatten.length := by
    simp [size, ofLines]
  unfold joined
  rw [hsize]
  unfold ofLines
  rw [statementsFrom_append, groupsFrom_append, List.flatten_append, labelsFrom_append, statementsFrom_moved,
    groupsFrom_moved, ← List.map_flatten, labelsFrom_moved]
  simp

theorem map_fst_labelsFrom (start : Nat) (sts : List Statement) :
    (labelsFrom start sts).map (·.1) = labelKeys sts := by
  induction sts generalizing start with
  | nil => rfl
  | cons st sts ih =>
    rw [labelsFrom_cons, List.map_append, ih]
    unfold labelKeys
    rw [List.filterMap_cons]
    cases st.action.labelKey? <;> rfl

theorem exists_name_of_mem {K : String} (h : K ∈ labelKeys lines.flatten) : ∃ name, Text.upper name = K := by
  obtain ⟨⟨action, pos⟩, -, hst⟩ := List.mem_filterMap.mp h
  cases action with
  | label name =>
    cases hst
    exact ⟨name, rfl⟩
  | _ => cases hst

theorem hasLabel_of_mem {name : String} (h : Text.upper name ∈ labelKeys lines.flatten) :
    (ofLines lines).hasLabel name = true := by
  rw [← map_fst_labelsFrom 0, List.mem_map] at h
  obtain ⟨l, hl, hname⟩ := h
  unfold hasLabel
  rw [List.lookup_isSome_iff]
  exact ⟨l, hl, by simp [hname]⟩

end Program

/-! ## Drafts behind one another -/

namespace Parse

namespace Draft

/-- What was read behind another draft, whose last line is complete. -/
def onto (d base : Draft) : Draft :=
  ⟨d.lines ++ base.lines, d.line, d.labels ++ base.labels, d.references ++ base.references⟩

/-- What was read some lines below. -/
def down (n : Nat) (d : Draft) : Draft :=
  ⟨d.lines.map (·.map (·.moved 0 n)), d.line.map (·.moved 0 n), d.labels, d.references.map fun r => (r.1, r.2.down n)⟩

variable {base d d' : Draft} {pedantic : Bool} {name : String} {pos : Position}

@[simp] theorem down_zero (d : Draft) : d.down 0 = d := by
  simp [down]

theorem down_endLine (n : Nat) (d : Draft) : (d.down n).endLine = d.endLine.down n := by
  simp [down, endLine]

theorem addLabel_labels (h : d.addLabel pedantic name pos = .ok d') : ∀ K ∈ d.labels, K ∈ d'.labels := by
  unfold addLabel at h
  dsimp only at h
  split at h
  · cases h
  split at h
  · cases h
  split at h
  · cases h
  · cases h
    exact fun K hK => List.mem_cons_of_mem _ hK

theorem addLabel_onto (h : d.addLabel pedantic name pos = .ok d') (hnew : ∀ K ∈ d'.labels, K ∉ base.labels) :
    (d.onto base).addLabel pedantic name pos = .ok (d'.onto base) := by
  unfold addLabel at h ⊢
  dsimp only at h ⊢
  split at h
  · cases h
  rename_i hreserved
  split at h
  · cases h
  rename_i hcol
  split at h
  · cases h
  rename_i hold
  cases h
  have hbase : Text.upper name ∉ base.labels := hnew _ List.mem_cons_self
  have hold' : ¬ (d.onto base).labels.contains (Text.upper name) = true := by
    simp only [onto, List.contains_eq_mem, List.mem_append, decide_eq_true_eq] at hold ⊢
    tauto
  rw [if_neg hreserved, if_neg hcol, if_neg hold']
  rfl

end Draft

variable {base d e : Draft} {pedantic : Bool} {l : Lexeme} {s t : Lexemes}

theorem afterWord_eq_ok {name : String} {pos : Position} : afterWord pedantic d name pos s = .ok (e, t) ↔
    (attached ':' s = .ok (true, t) ∧ d.addLabel pedantic name pos = .ok e) ∨
      ∃ u k r, attached ':' s = .ok (false, u) ∧ Keyword.ofName? name = some k ∧ statement k name pos u = .ok (r, t) ∧
        e = { d.push r.1 pos with references := r.2.reverse ++ d.references } := by
  constructor
  · intro h
    obtain ⟨⟨b, u⟩, hb, h⟩ := Except.bind_eq_ok.mp h
    cases b with
    | true =>
      obtain ⟨e', he, h⟩ := Except.bind_eq_ok.mp h
      cases h
      exact .inl ⟨hb, he⟩
    | false =>
      simp only [Bool.false_eq_true, if_false] at h
      cases hk : Keyword.ofName? name with
      | none =>
        rw [hk] at h
        cases h
      | some k =>
        rw [hk] at h
        obtain ⟨⟨r, t'⟩, hr, h⟩ := Except.bind_eq_ok.mp h
        cases h
        exact .inr ⟨u, k, r, hb, rfl, hr, rfl⟩
  · rintro (⟨hb, he⟩ | ⟨u, k, r, hb, hk, hr, rfl⟩)
    · exact Except.bind_eq_ok.mpr ⟨(true, t), hb, Except.bind_eq_ok.mpr ⟨e, he, rfl⟩⟩
    · refine Except.bind_eq_ok.mpr ⟨(false, u), hb, ?_⟩
      simp only [Bool.false_eq_true, if_false]
      rw [hk]
      exact Except.bind_eq_ok.mpr ⟨(r, t), hr, rfl⟩

theorem command_labels (h : command pedantic d l s = .ok (e, t)) : ∀ K ∈ d.labels, K ∈ e.labels := by
  obtain ⟨token, pos, att⟩ := l
  cases token with
  | lineEnd =>
    cases h
    exact fun K hK => hK
  | word name =>
    rcases afterWord_eq_ok.mp h with ⟨-, he⟩ | ⟨u, k, r, -, -, -, rfl⟩
    · exact Draft.addLabel_labels he
    · exact fun K hK => hK
  | _ => cases h

theorem command_onto (h : command pedantic d l s = .ok (e, t)) (hnew : ∀ K ∈ e.labels, K ∉ base.labels) :
    command pedantic (d.onto base) l s = .ok (e.onto base, t) := by
  obtain ⟨token, pos, att⟩ := l
  cases token with
  | lineEnd =>
    cases h
    rfl
  | word name =>
    rcases afterWord_eq_ok.mp h with ⟨hb, he⟩ | ⟨u, k, r, hb, hk, hr, rfl⟩
    · exact afterWord_eq_ok.mpr (.inl ⟨hb, Draft.addLabel_onto he hnew⟩)
    · refine afterWord_eq_ok.mpr (.inr ⟨u, k, r, hb, hk, hr, ?_⟩)
      simp only [Draft.onto, Draft.push, List.append_assoc]
  | _ => cases h

theorem commands_labels {r : Draft} (h : commands pedantic d s = .ok r) : ∀ K ∈ d.labels, K ∈ r.labels := by
  refine commands_induction (motive := fun d _ r => ∀ K ∈ d.labels, K ∈ r.labels) ?_ ?_ h
  · intro d finish K hK
    exact hK
  · intro d l s e t r hstep _ ih K hK
    exact ih K (command_labels hstep K hK)

theorem commands_onto {r : Draft} (h : commands pedantic d s = .ok r) (hnew : ∀ K ∈ r.labels, K ∉ base.labels) :
    commands pedantic (d.onto base) s = .ok (r.onto base) := by
  revert hnew
  refine commands_induction (motive := fun d s r => (∀ K ∈ r.labels, K ∉ base.labels) →
    commands pedantic (d.onto base) s = .ok (r.onto base)) ?_ ?_ h
  · intro d finish _
    rw [commands]
    rfl
  · intro d l s e t r hstep hrest ih hnew
    have hnew' : ∀ K ∈ e.labels, K ∉ base.labels := fun K hK => hnew K (commands_labels hrest K hK)
    rw [commands_cons, command_onto hstep hnew']
    exact ih hnew

end Parse

/-! ## The same source some lines below -/

theorem eq_map_of_forall₂ {α β : Type} {R : α → β → Prop} {f : α → β} {xs : List α} {ys : List β}
    (hR : ∀ x y, R x y → y = f x) (h : List.Forall₂ R xs ys) : ys = xs.map f := by
  have heq : List.Forall₂ (· = ·) (xs.map f) ys :=
    List.forall₂_map_left_iff.mpr (h.imp fun x y hxy => (hR x y hxy).symm)
  rw [List.forall₂_eq_eq_eq] at heq
  exact heq.symm

namespace Likeness

/-- Sources that only differ in the number of lines above them. -/
def down (n : Nat) : Likeness where
  word := Eq
  place p q := q = p.down n
  upper_eq h := congrArg Text.upper h
  place_after c h := by rw [h, Position.down_after]

variable {n : Nat} {d d' : Parse.Draft}

theorem StatementLike.down_eq {x y : Statement} (h : (down n).StatementLike x y) : y = x.moved 0 n := by
  obtain ⟨haction, hpos⟩ := h
  have heq : x.action = y.action := haction.eq fun _ _ h => h
  have hpos : y.pos = x.pos.down n := hpos
  unfold Statement.moved
  rw [Action.behind_zero, heq, ← hpos]

theorem DraftLike.down_eq (h : (down n).DraftLike d d') : d' = d.down n := by
  have hline : ∀ {xs ys : List Statement}, List.Forall₂ (down n).StatementLike xs ys → ys = xs.map (·.moved 0 n) :=
    eq_map_of_forall₂ fun _ _ hxy => hxy.down_eq
  have hlines : d'.lines = d.lines.map (·.map (·.moved 0 n)) := eq_map_of_forall₂ (fun _ _ => hline) h.lines
  have hrefs : d'.references = d.references.map fun r => (r.1, r.2.down n) :=
    eq_map_of_forall₂ (fun _ _ hxy => Prod.ext hxy.1.symm hxy.2) h.references
  obtain ⟨lines', line', labels', refs'⟩ := d'
  rw [Parse.Draft.down, ← hlines, ← hline h.line, h.labels, ← hrefs]

theorem ahead_append (s more : Lexemes) (hfinish : more.items = [] → more.finish = s.finish) :
    (down 0).Ahead more s ⟨s.items ++ more.items, more.finish⟩ where
  items := ⟨s.items, List.forall₂_same.mpr fun l _ => ⟨.refl (fun _ => rfl) _, l.pos.down_zero.symm, rfl⟩, rfl⟩
  finish_eq := rfl
  finish hmore := by
    show more.finish = s.finish.down 0
    rw [hfinish hmore, Position.down_zero]

end Likeness

namespace Parse

variable {n : Nat} {pedantic : Bool} {r : Draft} {s s' more : Lexemes}

/-- What is read from a source is read wherever it stands, and then reading goes on behind it. -/
theorem commands_ahead (h : commands pedantic {} s = .ok r) (hs : (Likeness.down n).Ahead more s s')
    (hmore : ∀ l ∈ more.items.head?, l.token = .lineEnd) :
    s.Closed ∧ ∃ d : Draft, r = d.endLine ∧ commands pedantic {} s' = commands pedantic (d.down n) more := by
  have hcol : ∀ p q, (Likeness.down n).place p q → pedantic = true → p.col = q.col := by
    rintro p q rfl _
    rfl
  have hempty : (Likeness.down n).DraftLike {} {} := ⟨.nil, .nil, rfl, .nil⟩
  have hlike := Likeness.commands_like hcol hmore hempty hs
  rw [h] at hlike
  obtain ⟨hclosed, d, d', rfl, hd, hrun⟩ := hlike
  rw [hd.down_eq] at hrun
  exact ⟨hclosed, d, rfl, hrun⟩

theorem commands_closed (h : commands pedantic {} s = .ok r) : s.Closed := by
  have hs := Likeness.ahead_append s ⟨[], s.finish⟩ fun _ => rfl
  exact (commands_ahead h hs (by simp)).1

theorem commands_followedBy_lineFeed {c : Cursor} {gap rest : List Char} (hgap : ∀ x ∈ gap, isBlank x = true)
    (h : commands pedantic {} (c.followedBy gap).lexemes = .ok r) :
    commands pedantic {} (c.followedBy ('\n' :: rest)).lexemes =
      commands pedantic r (Cursor.lexemes ⟨c.finish.after '\n', rest⟩) := by
  obtain ⟨att, hlex⟩ := Cursor.lexemes_followedBy_lineFeed hgap rest c (commands_closed h)
  have hs := Likeness.ahead_append (c.followedBy gap).lexemes
    (.cons ⟨.lineEnd, c.finish, att⟩ (Cursor.lexemes ⟨c.finish.after '\n', rest⟩)) (by simp [Lexemes.cons])
  obtain ⟨-, d, rfl, hrun⟩ := commands_ahead h hs (by simp [Lexemes.cons])
  rw [Draft.down_zero, commands_cons] at hrun
  rw [hlex]
  exact hrun

theorem commands_down {p : Position} {cs : List Char} (n : Nat)
    (h : commands pedantic {} (Cursor.lexemes ⟨p, cs⟩) = .ok r) :
    commands pedantic {} (Cursor.lexemes ⟨p.down n, cs⟩) = .ok (r.down n) := by
  have hlike : (Likeness.down n).CursorLike ⟨p, cs⟩ ⟨p.down n, cs⟩ := ⟨rfl, rfl⟩
  obtain ⟨hitems, hfinish⟩ := Likeness.lexemes_like (fun _ => rfl) hlike
  have hs : (Likeness.down n).Ahead ⟨[], (Cursor.lexemes ⟨p.down n, cs⟩).finish⟩ (Cursor.lexemes ⟨p, cs⟩)
      (Cursor.lexemes ⟨p.down n, cs⟩) := ⟨⟨_, hitems, by simp⟩, rfl, fun _ => hfinish⟩
  obtain ⟨-, d, rfl, hrun⟩ := commands_ahead h hs (by simp)
  rw [hrun, commands, Draft.down_endLine]

end Parse

/-! ## Reading two sources as one -/

theorem Parse.mem_labelKeys {pedantic : Bool} {text : List Char} {d : Draft} {K : String}
    (h : commands pedantic {} (Lexemes.ofText text) = .ok d) (hK : K ∈ d.labels) :
    K ∈ labelKeys d.lines.reverse.flatten := by
  obtain ⟨hgood, hline⟩ := commands_good Draft.good_empty (Cursor.lexemes_sound _) h
  have hst : d.statements = d.lines.reverse.flatten := by simp [Draft.statements, hline]
  rw [← hst, ← hgood.labels, List.mem_reverse]
  exact hK

theorem Parse.commands_joined {first second : List Char} {pedantic : Bool} {d e : Draft}
    (hd : commands pedantic {} (Lexemes.ofText first) = .ok d)
    (he : commands pedantic {} (Lexemes.ofText second) = .ok e) (hnew : ∀ K ∈ e.labels, K ∉ d.labels) :
    commands pedantic {} (Lexemes.ofText (first ++ '\n' :: second)) = .ok ((e.down (1 + first.count '\n')).onto d) := by
  obtain ⟨body, gap, hfirst, hgap, hjoin, hcount⟩ := normalize_append_lineFeed first second
  unfold Lexemes.ofText at hd he ⊢
  rw [hfirst] at hd
  have hline : d.line = [] := (commands_good Draft.good_empty (Cursor.lexemes_sound _) hd).2
  have hbase : Draft.onto {} d = d := by
    obtain ⟨lines, line, labels, references⟩ := d
    cases hline
    rfl
  have hplace : (Cursor.finish ⟨.start, body⟩).after '\n' = Position.start.down (1 + first.count '\n') := by
    rw [Cursor.finish, Position.start_down, hcount]
  have hfollow : commands pedantic {} (Cursor.followedBy ⟨.start, body⟩ ('\n' :: normalize second)).lexemes = _ :=
    commands_followedBy_lineFeed hgap hd
  have hdown := commands_down (1 + first.count '\n') he
  have honto : commands pedantic (Draft.onto {} d) _ = _ := commands_onto hdown hnew
  rw [hbase] at honto
  rw [hplace] at hfollow
  rw [hjoin]
  exact hfollow.trans honto

namespace Program

/-- Two sources that share no label are read as one program behind the other. -/
theorem parse_joined {first second : String} {pedantic : Bool} {p q : Program}
    (hp : Program.parse first pedantic = .ok p) (hq : Program.parse second pedantic = .ok q)
    (hlabels : ∀ name, ¬ (p.hasLabel name = true ∧ q.hasLabel name = true)) :
    Program.parse (first ++ "\n" ++ second) pedantic = .ok (p.joined q (1 + first.toList.count '\n')) := by
  obtain ⟨d, hd, hdclose⟩ := Except.bind_eq_ok.mp hp
  obtain ⟨e, he, heclose⟩ := Except.bind_eq_ok.mp hq
  obtain ⟨rfl, hdrefs⟩ := Parse.Draft.close_eq_ok hdclose
  obtain ⟨rfl, herefs⟩ := Parse.Draft.close_eq_ok heclose
  -- The keys of the drafts are the upper-case names that the label tables are searched for.
  have hnew : ∀ K ∈ e.labels, K ∉ d.labels := by
    intro K hKe hKd
    have hKe := Parse.mem_labelKeys he hKe
    have hKd := Parse.mem_labelKeys hd hKd
    obtain ⟨name, rfl⟩ := exists_name_of_mem hKd
    exact hlabels name ⟨hasLabel_of_mem hKd, hasLabel_of_mem hKe⟩
  have hread := Parse.commands_joined hd he hnew
  -- Each source defines the labels that it uses, so both together do.
  have hdefined : ∀ r ∈ ((e.down (1 + first.toList.count '\n')).onto d).references,
      Text.upper r.1 ∈ ((e.down (1 + first.toList.count '\n')).onto d).labels := by
    intro r hr
    simp only [Parse.Draft.onto, Parse.Draft.down, List.mem_append, List.mem_map] at hr ⊢
    rcases hr with ⟨r', hr', rfl⟩ | hr
    · exact .inl (herefs r' hr')
    · exact .inr (hdrefs r hr)
  have htext : (first ++ "\n" ++ second).toList = first.toList ++ '\n' :: second.toList := by simp
  unfold Program.parse
  rw [htext, hread]
  show Parse.Draft.close _ = _
  rw [Parse.Draft.close_of_defined hdefined, ← ofLines_joined]
  simp only [Parse.Draft.onto, Parse.Draft.down, List.reverse_append, List.map_reverse]

/-- The first source ends with a carriage return, which becomes part of the line feed. -/
theorem parse_joined_carriageReturn : ∃ p q,
    Program.parse "Loop: If n<3 Then Goto LOOP\n|\r" true = .ok p ∧
    Program.parse "Done: If n>1 Then Set n=n-1 Goto done" true = .ok q ∧
    (∀ name, ¬ (p.hasLabel name = true ∧ q.hasLabel name = true)) ∧
    Program.parse ("Loop: If n<3 Then Goto LOOP\n|\r" ++ "\n" ++ "Done: If n>1 Then Set n=n-1 Goto done") true =
      .ok (p.joined q 2) := by
  have hp : (Program.parse "Loop: If n<3 Then Goto LOOP\n|\r" true).toOption.map (·.labels) =
      some [("LOOP", 1)] := by decide +kernel
  have hq : (Program.parse "Done: If n>1 Then Set n=n-1 Goto done" true).toOption.map (·.labels) =
      some [("DONE", 1)] := by decide +kernel
  obtain ⟨p, hp, hpl⟩ := Except.exists_of_map_toOption hp
  obtain ⟨q, hq, hql⟩ := Except.exists_of_map_toOption hq
  have hlabels : ∀ name, ¬ (p.hasLabel name = true ∧ q.hasLabel name = true) := by
    intro name
    simp only [hasLabel, hpl, hql, List.lookup_isSome_iff, List.mem_singleton, exists_eq_left, beq_iff_eq]
    rintro ⟨hloop, hdone⟩
    rw [hloop] at hdone
    exact absurd hdone (by decide)
  exact ⟨p, q, hp, hq, hlabels, parse_joined hp hq hlabels⟩

end Program

end GraphicsBatch
