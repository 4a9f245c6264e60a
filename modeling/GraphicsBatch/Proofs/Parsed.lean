import Mathlib.Data.List.Nodup
import GraphicsBatch.Proofs.Layout

/-!
# Programs that were read

A program that the reader gives is laid out from proper lines. The lexer vouches for the characters of
names and texts, each reader for what it makes of them, and the draft for labels and their uses.
-/

namespace GraphicsBatch

namespace Source

/-! ## Lexemes -/

/-- What the lexer says about the characters of a lexeme. -/
def Token.Sound : Token → Prop
  | .word name => isIdentifier name = true
  | .text contents => IsQuotable contents
  | _ => True

theorem Cursor.quoted_sound {c d : Cursor} {body : List Char} (h : c.quoted = some (body, d)) :
    IsQuotable (String.ofList body) := by
  have hbody : ∀ x ∈ body, x ≠ '"' ∧ x ≠ '\n' := by
    intro x hx
    unfold Cursor.quoted at h
    dsimp only at h
    split at h
    · cases h
      have := List.all_eq_true.mp List.all_takeWhile x hx
      simpa using this
    · cases h
  refine ⟨?_, ?_⟩ <;> rw [String.toList_ofList] <;> intro hmem
  · exact (hbody _ hmem).1 rfl
  · exact (hbody _ hmem).2 rfl

theorem Cursor.token_sound {c : Cursor} {d : Char} {ds : List Char} (h : c.rest = d :: ds) :
    (c.token d).1.Sound := by
  unfold Cursor.token
  split
  · trivial
  split
  · rename_i hd
    have hc : isNameChar d = true := by simp [isNameChar, hd]
    simp only [Cursor.span, h, List.takeWhile_cons, hc, if_true, Token.Sound, isIdentifier,
      String.toList_ofList, hd, Bool.true_and]
    exact List.all_takeWhile
  split
  · trivial
  split
  · cases hq : c.quoted with
    | none => trivial
    | some r => exact Cursor.quoted_sound hq
  · trivial

def Lexemes.Sound (s : Lexemes) : Prop := ∀ l ∈ s.items, l.token.Sound

theorem Cursor.lexemes_sound (c : Cursor) : c.lexemes.Sound := by
  fun_induction Cursor.lexemes c with
  | case1 c brace h =>
    intro l hl
    rw [List.mem_singleton.mp hl]
    trivial
  | case2 c c' h hr => simp [Lexemes.Sound]
  | case3 c c' h d ds hr next later ih =>
    intro l hl
    rcases List.mem_cons.mp hl with rfl | hl
    · exact Cursor.token_sound hr
    · exact ih l hl

end Source

namespace Parse

open Source

/-! ## Readers -/

/-- A reader that succeeds on sound lexemes gives a value with a property, and leaves sound lexemes. -/
def Yields {α : Type} (r : Reads α) (P : α → Prop) : Prop :=
  ∀ s a s', s.Sound → r s = .ok (a, s') → s'.Sound ∧ P a

namespace Yields

variable {α β : Type} {P : α → Prop} {Q : β → Prop}

theorem pure {a : α} (h : P a) : Yields (Pure.pure a : Reads α) P := by
  intro s b s' hs hr
  cases hr
  exact ⟨hs, h⟩

theorem bind {r : Reads α} {f : α → Reads β} (hr : Yields r P) (hf : ∀ a, P a → Yields (f a) Q) :
    Yields (r >>= f) Q := by
  intro s b s' hs h
  cases hrs : r s with
  | error e => simp [Bind.bind, StateT.bind, Except.bind, hrs] at h
  | ok p =>
    simp only [Bind.bind, StateT.bind, Except.bind, hrs] at h
    obtain ⟨hs', ha⟩ := hr s p.1 p.2 hs hrs
    exact hf p.1 ha p.2 b s' hs' h

theorem lift {e : Except ParseFault α} (h : ∀ a, e = .ok a → P a) : Yields (monadLift e : Reads α) P := by
  intro s a s' hs hr
  cases e with
  | error e => cases hr
  | ok v =>
    cases hr
    exact ⟨hs, h _ rfl⟩

theorem failAt (cause : Malformed) (pos : Position) : Yields (Parse.failAt cause pos) P := by
  intro s a s' _ h
  cases h

theorem expected (what : String) : Yields (Parse.expected what) P := by
  intro s a s' _ h
  cases h

theorem peek : Yields Parse.peek fun o => ∀ l ∈ o, l.token.Sound := by
  intro s a s' hs h
  unfold Parse.peek at h
  split at h
  · rename_i l rest hitems
    split at h
    · cases h
    · cases h
      refine ⟨hs, fun k hk => hs k ?_⟩
      rw [hitems, ← Option.mem_some.mp hk]
      exact List.mem_cons_self
  · cases h
    exact ⟨hs, by simp⟩

theorem drop : Yields Parse.drop fun _ => True := by
  intro s a s' hs h
  cases h
  exact ⟨fun l hl => hs l (List.mem_of_mem_tail hl), trivial⟩

theorem attached (c : Char) : Yields (Parse.attached c) fun _ => True := by
  intro s a s' hs h
  unfold Parse.attached at h
  split at h
  · rename_i l rest hitems
    split at h
    · cases h
      refine ⟨fun k hk => hs k ?_, trivial⟩
      rw [hitems]
      exact List.mem_cons_of_mem _ hk
    · cases h
      exact ⟨hs, trivial⟩
  · cases h
    exact ⟨hs, trivial⟩

theorem mark (c : Char) : Yields (Parse.mark c) fun _ => True := by
  refine bind peek fun o _ => ?_
  split
  · split
    · exact drop
    · exact expected _
  · exact expected _

theorem plainName (what : String) : Yields (Parse.plainName what) fun r => IsName r.1 := by
  refine bind peek fun o ho => ?_
  split
  · rename_i name pos _
    split
    · exact failAt _ _
    · rename_i hres
      exact bind drop fun _ _ => pure ⟨ho _ rfl, by simpa using hres⟩
  · exact expected _

end Yields

namespace Yields

theorem operand : Yields Parse.operand Operand.Proper := by
  refine bind peek fun o _ => ?_
  split
  · exact bind drop fun _ _ => bind (lift fun n hn => literal_le hn) fun n hn => pure hn
  · exact bind (plainName _) fun r hr => pure hr

theorem labelName : Yields Parse.labelName fun r => IsName r.1 :=
  bind (plainName _) fun _ hr => bind (attached _) fun _ _ => pure hr

theorem comparison : Yields Parse.comparison fun _ => True := by
  refine bind peek fun o _ => ?_
  split
  · exact bind drop fun _ _ => pure trivial
  · refine bind drop fun _ _ => bind (attached _) fun b _ => ?_
    split
    · exact pure trivial
    · refine bind (attached _) fun b _ => ?_
      split <;> exact pure trivial
  · refine bind drop fun _ _ => bind (attached _) fun b _ => ?_
    split <;> exact pure trivial
  · exact expected _

theorem operator : Yields Parse.operator fun _ => True := by
  refine bind peek fun o _ => ?_
  split
  · split
    · exact bind drop fun _ _ => pure trivial
    · exact pure trivial
  · exact pure trivial

end Yields

/-! ### Argument lists -/

theorem argument_readable {l : Lexeme} {arg : RawArg} (hl : l.token.Sound) (h : argument l = .ok arg) :
    arg.raw.Readable := by
  unfold argument at h
  split at h
  · rename_i s hs
    cases h
    rw [hs] at hl
    exact hl
  · split at h
    · rename_i n hn
      cases h
      exact ⟨Int.natCast_nonneg n, Int.ofNat_le.mpr (literal_le hn)⟩
    · cases h
  · rename_i s hs
    cases h
    rw [hs] at hl
    exact hl
  all_goals cases h

theorem arguments_readable {finish : Position} {want : Want} {ls rest : List Lexeme} {args : List RawArg}
    {endPos : Position} (hls : ∀ l ∈ ls, l.token.Sound)
    (h : arguments finish want ls = .ok (args, endPos, rest)) :
    (∀ l ∈ rest, l.token.Sound) ∧ ∀ a ∈ args, a.raw.Readable := by
  induction ls generalizing want args endPos with
  | nil => simp [arguments] at h
  | cons l ls ih =>
    have htail : ∀ k ∈ ls, k.token.Sound := fun k hk => hls k (List.mem_cons_of_mem _ hk)
    unfold arguments at h
    split at h
    · exact ih htail h
    · split at h
      · split at h
        · exact ih htail h
        · cases h
          exact ⟨htail, by simp⟩
        · cases h
        · cases h
      · split at h
        · cases h
          exact ⟨htail, by simp⟩
        · simp only [Except.bind_eq_ok] at h
          obtain ⟨arg, harg, ⟨as, q, r⟩, hr, h⟩ := h
          cases h
          obtain ⟨hrest, has⟩ := ih htail hr
          refine ⟨hrest, fun a ha => ?_⟩
          rcases List.mem_cons.mp ha with rfl | ha
          · exact argument_readable (hls l List.mem_cons_self) harg
          · exact has a ha

theorem references_fst (args : List Argument) (pos : Position) (c : Command) :
    (references args pos).map (·.1) = (Action.call c args).mentions := by
  unfold references Action.mentions
  rw [List.map_filterMap]
  congr 1
  funext a
  cases a.value <;> rfl

namespace Yields

theorem argumentList : Yields Parse.argumentList fun r => ∀ a ∈ r.1, a.raw.Readable := by
  intro s a s' hs h
  unfold Parse.argumentList at h
  split at h
  · rename_i args endPos rest ha
    cases h
    exact arguments_readable hs ha
  · cases h

/-! ### Statements -/

/-- A statement that is no label, with the labels that it mentions. -/
def Read (r : Action × List Reference) : Prop :=
  r.1.Proper ∧ r.1.labelKey? = none ∧ r.2.map (·.1) = r.1.mentions

theorem condition : Yields Parse.condition fun a => Read (a, []) := by
  refine bind operand fun lhs hl => bind comparison fun op _ => bind operand fun rhs hr =>
    bind peek fun o _ => ?_
  -- Behind a `Then` that was found there is nothing more to read.
  have done : ∀ u : Unit, True → Yields (Pure.pure (Action.cond lhs op rhs 0) : Reads Action) fun a => Read (a, []) :=
    fun _ _ => pure ⟨⟨hl, hr⟩, rfl, rfl⟩
  split
  · split
    · exact bind drop done
    · exact bind (failAt _ _) done
  · exact bind (expected _) done

theorem assignment : Yields Parse.assignment fun a => Read (a, []) := by
  refine bind (plainName _) fun v hv => bind (mark _) fun _ _ => bind operand fun first hf =>
    bind operator fun o _ => ?_
  split
  · refine bind operand fun second hs => pure ⟨⟨hv, hf, ?_⟩, rfl, rfl⟩
    rintro _ _ ⟨⟩
    exact hs
  · exact pure ⟨⟨hv, hf, by simp⟩, rfl, rfl⟩

theorem call (c : Command) (pos : Position) : Yields (Parse.call c pos) Read := by
  refine bind (mark _) fun _ _ => bind argumentList fun r hr => ?_
  obtain ⟨args, endPos⟩ := r
  dsimp only
  split
  · rename_i out hout
    exact pure ⟨Command.checkArguments_admits hr hout, rfl, references_fst _ _ _⟩
  · exact failAt _ _

theorem statement (k : Keyword) (name : String) (pos : Position) :
    Yields (Parse.statement k name pos) Read := by
  cases k with
  | goto => exact bind labelName fun r hr => pure ⟨hr, rfl, rfl⟩
  | gosub => exact bind labelName fun r hr => pure ⟨hr, rfl, rfl⟩
  | back => exact pure ⟨trivial, rfl, rfl⟩
  | finish => exact pure ⟨trivial, rfl, rfl⟩
  | cond => exact bind condition fun a ha => pure ha
  | assign => exact bind assignment fun a ha => pure ha
  | andThen => exact failAt _ _
  | command c =>
    unfold Parse.statement
    dsimp only
    split
    · rename_i hc
      exact pure ⟨hc, rfl, rfl⟩
    · exact call _ _

end Yields

/-! ## Drafts -/

namespace Draft

/-- All statements that were read, in the order of the source. -/
def statements (d : Draft) : List Statement := d.lines.reverse.flatten ++ d.line.reverse

structure Good (d : Draft) : Prop where
  proper : ∀ st ∈ d.statements, st.action.Proper
  labels : d.labels.reverse = labelKeys d.statements
  unique : d.labels.Nodup
  references : d.references.reverse.map (·.1) = d.statements.flatMap (·.action.mentions)

variable {d d' : Draft} {a : Action} {pos : Position}

@[simp] theorem statements_endLine : d.endLine.statements = d.statements := by
  simp [statements, endLine]

theorem good_empty : Good {} where
  proper := by simp [statements]
  labels := rfl
  unique := List.nodup_nil
  references := rfl

theorem Good.endLine (h : d.Good) : d.endLine.Good where
  proper := by simpa using h.proper
  labels := by rw [statements_endLine]; exact h.labels
  unique := h.unique
  references := by rw [statements_endLine]; exact h.references

theorem Good.addLabel {pedantic : Bool} {name : String} (h : d.Good) (hname : isIdentifier name = true)
    (ha : d.addLabel pedantic name pos = .ok d') : d'.Good := by
  unfold Draft.addLabel at ha
  dsimp only at ha
  split at ha
  · cases ha
  rename_i hres
  split at ha
  · cases ha
  split at ha
  · cases ha
  rename_i hnew
  cases ha
  have hst : statements { d.push (.label name) pos with labels := Text.upper name :: d.labels } =
      d.statements ++ [⟨.label name, pos⟩] := by simp [statements, Draft.push]
  refine ⟨?_, ?_, ?_, ?_⟩
  · intro st hmem
    rw [hst, List.mem_append, List.mem_singleton] at hmem
    rcases hmem with hmem | rfl
    · exact h.proper st hmem
    · exact ⟨hname, by simpa using hres⟩
  · rw [hst, List.reverse_cons, h.labels]
    simp [labelKeys, Action.labelKey?]
  · exact List.nodup_cons.mpr ⟨by simpa using hnew, h.unique⟩
  · rw [hst, List.flatMap_append, ← h.references]
    simp [Draft.push, Action.mentions]

theorem Good.push {refs : List Reference} (h : d.Good) (hr : Yields.Read (a, refs)) :
    Good { d.push a pos with references := refs.reverse ++ d.references } := by
  obtain ⟨hproper, hkey, hrefs⟩ := hr
  have hst : statements { d.push a pos with references := refs.reverse ++ d.references } =
      d.statements ++ [⟨a, pos⟩] := by simp [statements, Draft.push]
  refine ⟨?_, ?_, h.unique, ?_⟩
  · intro st hmem
    rw [hst, List.mem_append, List.mem_singleton] at hmem
    rcases hmem with hmem | rfl
    · exact h.proper st hmem
    · exact hproper
  · rw [hst]
    simpa [labelKeys, hkey, Draft.push] using h.labels
  · rw [hst, List.flatMap_append, ← h.references, List.reverse_append, List.reverse_reverse,
      List.map_append, hrefs]
    simp

end Draft

theorem afterWord_good {pedantic : Bool} {d : Draft} {name : String} {pos : Position} (hd : d.Good)
    (hname : isIdentifier name = true) : Yields (afterWord pedantic d name pos) Draft.Good := by
  refine Yields.bind (Yields.attached _) fun b _ => ?_
  split
  · exact Yields.lift fun d' hd' => hd.addLabel hname hd'
  · split
    · exact Yields.failAt _ _
    · exact Yields.bind (Yields.statement _ _ _) fun r hr => Yields.pure (hd.push hr)

theorem commands_good {pedantic : Bool} {d d' : Draft} {s : Lexemes} (hd : d.Good) (hs : s.Sound)
    (h : commands pedantic d s = .ok d') : d'.Good ∧ d'.line = [] := by
  fun_induction commands pedantic d s with
  | case1 d finish =>
    cases h
    exact ⟨hd.endLine, rfl⟩
  | case2 d l items finish rest ht ih =>
    exact ih hd.endLine (fun k hk => hs k (List.mem_cons_of_mem _ hk)) h
  | case3 => cases h
  | case4 d l items finish rest name ht d' rest' hw ih =>
    have htail : rest.Sound := fun k hk => hs k (List.mem_cons_of_mem _ hk)
    have hname : isIdentifier name = true := by
      have := hs l List.mem_cons_self
      rwa [ht] at this
    obtain ⟨hrest, hgood⟩ := afterWord_good hd hname rest d' rest' htail hw
    exact ih hgood hrest h
  | case5 => cases h
  | case6 => cases h

theorem Draft.close_eq_ok {d : Draft} {p : Program} (h : d.close = .ok p) :
    p = .ofLines d.lines.reverse ∧ ∀ r ∈ d.references, Text.upper r.1 ∈ d.labels := by
  unfold Draft.close at h
  split at h
  · cases h
  · rename_i hnone
    cases h
    refine ⟨rfl, fun r hr => ?_⟩
    have := List.find?_eq_none.mp hnone r (List.mem_reverse.mpr hr)
    simpa using this

end Parse

/-- A program that was read is laid out from proper lines. -/
theorem Program.parse_eq_ofLines {source : String} {pedantic : Bool} {p : Program}
    (h : Program.parse source pedantic = .ok p) : ∃ lines, ProperLines lines ∧ p = .ofLines lines := by
  obtain ⟨d, hd, hp⟩ := Except.bind_eq_ok.mp h
  obtain ⟨hgood, hline⟩ := Parse.commands_good Parse.Draft.good_empty (Source.Cursor.lexemes_sound _) hd
  obtain ⟨rfl, hrefs⟩ := Parse.Draft.close_eq_ok hp
  have hst : d.statements = d.lines.reverse.flatten := by simp [Parse.Draft.statements, hline]
  refine ⟨d.lines.reverse, ⟨?_, ?_, ?_⟩, rfl⟩
  · rw [← hst]
    exact hgood.proper
  · rw [← hst, ← hgood.labels]
    exact List.nodup_reverse.mpr hgood.unique
  · intro st hmem l hl
    rw [← hst] at hmem ⊢
    have : l ∈ d.references.reverse.map (·.1) := by
      rw [hgood.references]
      exact List.mem_flatMap.mpr ⟨st, hmem, hl⟩
    obtain ⟨r, hr, rfl⟩ := List.mem_map.mp this
    rw [← hgood.labels, List.mem_reverse]
    exact hrefs r (List.mem_reverse.mp hr)

/-- Whatever is read is well-formed: groups, skip targets, label table, uses of labels, arguments. -/
theorem Program.parse_wellFormed {source : String} {pedantic : Bool} {p : Program}
    (h : Program.parse source pedantic = .ok p) :
    p.WellFormed ∧ (p.groups = [] ↔ p.size = 0) ∧
    (∀ k : Int, 0 ≤ k → k < p.size → ∃ g ∈ p.groups, ((g.1 : Int) ≤ k ∧ k < g.2) ∧ p.groupOf k = some g ∧
      ∀ f ∈ p.groups, (f.1 : Int) ≤ k ∧ k < f.2 → f = g) ∧
    (∀ k : Int, ¬ (0 ≤ k ∧ k < p.size) → p.groupOf k = none) ∧
    (∀ (i : Nat) pos lhs op rhs t, p.statements[i]? = some ⟨.cond lhs op rhs t, pos⟩ →
      i < t ∧ t ≤ p.size) ∧
    (∀ (i : Nat) pos c args, p.statements[i]? = some ⟨.call c args, pos⟩ →
      c.signature.Admits args ∧ ∀ a ∈ args, a.kind.Allows c a.value) := by
  obtain ⟨lines, hl, rfl⟩ := Program.parse_eq_ofLines h
  have wf := Program.ofLines_wellFormed hl
  refine ⟨wf, ?_, ?_, fun k hk => wf.groupOf_eq_none hk, ?_, ?_⟩
  · rw [wf.tiles.eq_nil_iff, eq_comm]
  · intro k h0 hk
    obtain ⟨i, rfl⟩ := Int.eq_ofNat_of_zero_le h0
    obtain ⟨g, hg, hgi⟩ := wf.tiles.exists_mem (Nat.zero_le i) (by omega)
    refine ⟨g, hg, by omega, wf.groupOf_eq hg hgi, fun f hf hfi => ?_⟩
    exact wf.tiles.eq_of_mem hf hg (by omega) hgi
  · intro i pos lhs op rhs t hi
    exact wf.skip_bounds hi rfl
  · intro i pos c args hi
    have hadmits : c.signature.Admits args := wf.proper i _ hi
    exact ⟨hadmits, fun a ha => Command.allows_of_admits hadmits ha⟩

theorem Program.parse_wellFormed_menu : ∃ p,
    Program.parse "Again: If n<3 Then SetMenu(\"A\",IGNORE,\"B\",done,SEPARATOR,\n ENDPOPUP) Goto again\n\nDone:" false =
      .ok p ∧ p.WellFormed ∧ (p.groups = [] ↔ p.size = 0) := by
  cases h : Program.parse
      "Again: If n<3 Then SetMenu(\"A\",IGNORE,\"B\",done,SEPARATOR,\n ENDPOPUP) Goto again\n\nDone:" false with
  | error e =>
    have hok : (Program.parse
        "Again: If n<3 Then SetMenu(\"A\",IGNORE,\"B\",done,SEPARATOR,\n ENDPOPUP) Goto again\n\nDone:"
        false).toOption.isSome = true := by decide +kernel
    rw [h] at hok
    cases hok
  | ok p =>
    obtain ⟨wf, hempty, -⟩ := Program.parse_wellFormed h
    exact ⟨p, rfl, wf, hempty⟩

end GraphicsBatch
