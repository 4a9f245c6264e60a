import GraphicsBatch.Proofs.ArgumentLists
import GraphicsBatch.Proofs.Places
import GraphicsBatch.Proofs.Reading

/-!
# What readers take and what they blame

A reader that is put on a place of a text goes on to a later place of the same text, and never stops right behind a
line end. If it fails, then it blames a place of the text, or a numeral of the text that is too long.
-/

namespace GraphicsBatch

open Source

/-- What a fault blames is in the text. A label that is missing is no fault of a reader. -/
def ParseFault.Blames (text : List Char) : ParseFault → Prop
  | .malformed _ pos => pos.Inside text
  | .longNumeral n => Text.digitLimit < n ∧ ∃ run, run <:+: text ∧ run.length = n ∧ ∀ c ∈ run, isDigit c = true
  | .undefinedLabel _ _ => False

namespace Source.Cursor

variable {c c' : Cursor} {l : Lexeme} {text : List Char}

theorem In.of_reaches (hc : c.In text) (h : c.Reaches c') : c'.In text := by
  obtain ⟨run, hrun, -⟩ := h
  exact hc.of_takes hrun

theorem In.finish_inside (hc : c.In text) : c.finish.Inside text := by
  have hend : c.Takes c.rest ⟨c.finish, []⟩ := ⟨(List.append_nil _).symm, rfl⟩
  exact (hc.of_takes hend).inside

theorem Cuts.lexemes (h : c.Cuts l c') : c.lexemes = .cons l c'.lexemes := by
  obtain ⟨h, -⟩ := h
  exact h

theorem Cuts.ne_openComment (h : c.Cuts l c') : l.token ≠ .openComment := by
  obtain ⟨-, -, -, -, -, hwritten, -⟩ := h
  intro hl
  rw [hl] at hwritten
  exact hwritten

theorem Cuts.inside (hc : c.In text) (h : c.Cuts l c') : l.pos.Inside text := by
  obtain ⟨-, -, hgap, -, hpos, -, -⟩ := h
  rw [hpos]
  exact (hc.of_takes hgap).inside

theorem Cuts.inText (hc : c.In text) (h : c.Cuts l c') : c'.In text := by
  obtain ⟨-, -, hgap, hrun, -, -, -⟩ := h
  exact (hc.of_takes hgap).of_takes hrun

theorem Cuts.reaches (h : c.Cuts l c') (hl : l.token ≠ .lineEnd) : c.Reaches c' := by
  obtain ⟨-, hisGap, hgap, hrun, -, hwritten, -⟩ := h
  exact .trans ⟨_, hgap, hisGap.getLast?_ne⟩ ⟨_, hrun, hwritten.getLast?_ne hl⟩

theorem Cuts.takes_mark (h : c.Cuts l c') {ch : Char} (hatt : l.attached = true) (hl : l.token = .mark ch) :
    c.Takes [ch] c' := by
  obtain ⟨-, -, hgap, hrun, -, hwritten, hnil⟩ := h
  rw [hl] at hwritten
  obtain ⟨rfl, -⟩ := hwritten
  rw [hnil hatt] at hgap
  exact hgap.trans hrun

theorem Cuts.mark (h : c.Cuts l c') {ch : Char} (hl : l.token = .mark ch) :
    (∃ run, c.Takes run c' ∧ run.getLast? = some ch) ∧ c'.pos = l.pos.after ch := by
  obtain ⟨-, -, hgap, hrun, hpos, hwritten, -⟩ := h
  rw [hl] at hwritten
  obtain ⟨rfl, -⟩ := hwritten
  exact ⟨⟨_, hgap.trans hrun, by simp⟩, by rw [hrun.pos, hpos]; rfl⟩

/-- Behind a gap, the text reads a name at a place. -/
def Meets (c : Cursor) (name : String) (pos : Position) : Prop :=
  ∃ gap rest, IsGap gap ∧ c.rest = gap ++ (name.toList ++ rest) ∧ pos = c.pos.afterAll gap

theorem Cuts.meets {name : String} {pos : Position} {att : Bool} (h : c.Cuts ⟨.word name, pos, att⟩ c') :
    c.Meets name pos := by
  obtain ⟨-, hisGap, hgap, hrun, hpos, hwritten, -⟩ := h
  obtain ⟨rfl, -⟩ := hwritten
  exact ⟨_, c'.rest, hisGap, by rw [hgap.rest, hrun.rest], hpos.trans hgap.pos⟩

theorem Cuts.digits (hc : c.In text) (h : c.Cuts l c') {digits : List Char} (hl : l.token = .numeral digits) :
    digits <:+: text ∧ ∀ d ∈ digits, isDigit d = true := by
  obtain ⟨-, -, hgap, hrun, -, hwritten, -⟩ := h
  rw [hl] at hwritten
  obtain ⟨rfl, -, hdigits⟩ := hwritten
  obtain ⟨pre, hpre⟩ := hc.of_takes hgap
  refine ⟨⟨pre, c'.rest, ?_⟩, hdigits⟩
  have htext : text = pre ++ _ := hpre.rest
  rw [htext, hrun.rest, List.append_assoc]

end Source.Cursor

namespace Parse

/-- A reader on a cursor of a text goes on to a later one with a value that has a property, or blames something in the
text. -/
def Handles {α : Type} (text : List Char) (r : Reads α) (c : Cursor) (P : α → Cursor → Prop) : Prop :=
  c.In text → match r c.lexemes with
    | .ok (a, s) => ∃ c', s = c'.lexemes ∧ c.Reaches c' ∧ P a c'
    | .error f => f.Blames text

namespace Handles

variable {α β : Type} {text : List Char} {c : Cursor} {P : α → Cursor → Prop} {Q : β → Cursor → Prop}

theorem pure {a : α} (h : P a c) : Handles text (Pure.pure a) c P := fun _ => ⟨c, rfl, .refl c, h⟩

theorem bind {r : Reads α} {f : α → Reads β} (hr : Handles text r c P)
    (hf : ∀ a c', c'.In text → P a c' → Handles text (f a) c' Q) : Handles text (r >>= f) c Q := by
  intro hc
  have h := hr hc
  simp only [Bind.bind, StateT.bind, Except.bind]
  cases hrs : r c.lexemes with
  | error e =>
    rw [hrs] at h
    exact h
  | ok p =>
    obtain ⟨a, s⟩ := p
    rw [hrs] at h
    obtain ⟨c', rfl, hreach, ha⟩ := h
    have hc' := hc.of_reaches hreach
    have h' := hf a c' hc' ha hc'
    dsimp only
    cases hfs : f a c'.lexemes with
    | error e =>
      rw [hfs] at h'
      exact h'
    | ok q =>
      rw [hfs] at h'
      obtain ⟨c'', hs, hreach', hb⟩ := h'
      exact ⟨c'', hs, hreach.trans hreach', hb⟩

theorem imp {r : Reads α} {P' : α → Cursor → Prop} (hr : Handles text r c P) (h : ∀ a c', P a c' → P' a c') :
    Handles text r c P' := by
  have hbind : Handles text (r >>= Pure.pure) c P' := bind hr fun a c' _ ha => pure (h a c' ha)
  rwa [bind_pure] at hbind

theorem lift {e : Except ParseFault α} (hok : ∀ a, e = .ok a → P a c) (herror : ∀ f, e = .error f → f.Blames text) :
    Handles text (monadLift e : Reads α) c P := by
  intro hc
  cases e with
  | error f => exact herror f rfl
  | ok a => exact ⟨c, rfl, .refl c, hok a rfl⟩

theorem failAt {cause : Malformed} {pos : Position} (h : pos.Inside text) : Handles text (Parse.failAt cause pos) c P :=
  fun _ => h

theorem expected (what : String) : Handles text (Parse.expected what) c P := by
  intro hc
  change (place c.lexemes).Inside text
  cases c.next with
  | finish h =>
    rw [h]
    exact hc.finish_inside
  | brace htakes h =>
    rw [h]
    exact (hc.of_takes htakes).inside
  | lexeme hcuts =>
    rw [hcuts.lexemes]
    exact hcuts.inside hc

theorem peek : Handles text Parse.peek c fun o c' => c' = c ∧ ∀ l, o = some l → ∃ e, c.Cuts l e := by
  intro hc
  unfold Parse.peek
  cases c.next with
  | finish h =>
    rw [h]
    exact ⟨c, h.symm, .refl c, rfl, by simp⟩
  | brace htakes h =>
    rw [h]
    exact (hc.of_takes htakes).inside
  | @lexeme l e hcuts =>
    rw [hcuts.lexemes]
    dsimp only [Lexemes.cons]
    rw [if_neg hcuts.ne_openComment]
    exact ⟨c, hcuts.lexemes.symm, .refl c, rfl, fun l' hl' => Option.some.inj hl' ▸ ⟨e, hcuts⟩⟩

theorem drop {l : Lexeme} {e : Cursor} (h : c.Cuts l e) (hl : l.token ≠ .lineEnd) :
    Handles text Parse.drop c fun _ c' => c' = e := by
  intro hc
  unfold Parse.drop
  rw [h.lexemes]
  exact ⟨e, rfl, h.reaches hl, rfl⟩

theorem attached (ch : Char) :
    Handles text (Parse.attached ch) c fun b c' => if b then c.Takes [ch] c' else c' = c := by
  intro hc
  unfold Parse.attached
  cases c.next with
  | finish h =>
    rw [h]
    exact ⟨c, h.symm, .refl c, rfl⟩
  | brace htakes h =>
    rw [h]
    exact ⟨c, h.symm, .refl c, rfl⟩
  | @lexeme l e hcuts =>
    rw [hcuts.lexemes]
    dsimp only [Lexemes.cons]
    by_cases hmark : l.attached = true ∧ l.token = .mark ch
    · rw [if_pos (by simpa using hmark)]
      exact ⟨e, rfl, hcuts.reaches (by simp [hmark.2]), hcuts.takes_mark hmark.1 hmark.2⟩
    · rw [if_neg (by simpa using hmark)]
      exact ⟨c, hcuts.lexemes.symm, .refl c, rfl⟩

theorem mark (ch : Char) : Handles text (Parse.mark ch) c fun _ _ => True := by
  refine bind peek fun o c' _ ho => ?_
  obtain ⟨rfl, ho⟩ := ho
  split
  · rename_i l
    obtain ⟨e, he⟩ := ho l rfl
    split
    · rename_i hl
      exact (drop he (by simp [hl])).imp fun _ _ _ => trivial
    · exact expected _
  · exact expected _

theorem plainName (what : String) : Handles text (Parse.plainName what) c fun r _ => c.Meets r.1 r.2 := by
  refine bind peek fun o c' hc' ho => ?_
  obtain ⟨rfl, ho⟩ := ho
  split
  · rename_i name pos _
    obtain ⟨e, he⟩ := ho _ rfl
    split
    · exact failAt (he.inside hc')
    · exact bind (drop he (by simp)) fun _ _ _ _ => pure he.meets
  · exact expected _

end Handles

theorem literal_blames {text digits : List Char} {pos : Position} {f : ParseFault} (hpos : pos.Inside text)
    (hdigits : digits <:+: text ∧ ∀ d ∈ digits, isDigit d = true) (h : literal digits pos = .error f) :
    f.Blames text := by
  unfold literal at h
  dsimp only at h
  split at h
  · rename_i hlong
    cases h
    exact ⟨hlong, digits, hdigits.1, rfl, hdigits.2⟩
  · split at h
    · cases h
      exact hpos
    · cases h

namespace Handles

variable {text : List Char} {c : Cursor}

theorem operand : Handles text Parse.operand c fun _ _ => True := by
  refine bind peek fun o c' hc' ho => ?_
  obtain ⟨rfl, ho⟩ := ho
  split
  · rename_i digits pos _
    obtain ⟨e, he⟩ := ho _ rfl
    refine bind (drop he (by simp)) fun _ c'' _ _ => ?_
    exact bind (lift (P := fun _ _ => True) (fun _ _ => trivial) fun f hf =>
      literal_blames (he.inside hc') (he.digits hc' rfl) hf)
      fun _ _ _ _ => pure trivial
  · exact bind (plainName _) fun _ _ _ _ => pure trivial

theorem labelName : Handles text Parse.labelName c fun r _ => c.Meets r.1 r.2 :=
  bind (plainName _) fun _ _ _ hr => bind (attached _) fun _ _ _ _ => pure hr

theorem comparison : Handles text Parse.comparison c fun _ _ => True := by
  refine bind peek fun o c' _ ho => ?_
  obtain ⟨rfl, ho⟩ := ho
  split
  · obtain ⟨e, he⟩ := ho _ rfl
    exact bind (drop he (by simp)) fun _ _ _ _ => pure trivial
  · obtain ⟨e, he⟩ := ho _ rfl
    refine bind (drop he (by simp)) fun _ _ _ _ => bind (attached _) fun b _ _ _ => ?_
    split
    · exact pure trivial
    · refine bind (attached _) fun b _ _ _ => ?_
      split <;> exact pure trivial
  · obtain ⟨e, he⟩ := ho _ rfl
    refine bind (drop he (by simp)) fun _ _ _ _ => bind (attached _) fun b _ _ _ => ?_
    split <;> exact pure trivial
  · exact expected _

theorem operator : Handles text Parse.operator c fun _ _ => True := by
  refine bind peek fun o c' _ ho => ?_
  obtain ⟨rfl, ho⟩ := ho
  split
  · obtain ⟨e, he⟩ := ho _ rfl
    split
    · exact bind (drop he (by simp)) fun _ _ _ _ => pure trivial
    · exact pure trivial
  · exact pure trivial

end Handles

/-! ## Argument lists -/

theorem argument_blames {text : List Char} {c c' : Cursor} {l : Lexeme} {f : ParseFault} (hc : c.In text)
    (h : c.Cuts l c') (hf : argument l = .error f) : f.Blames text := by
  have hpos := h.inside hc
  unfold argument at hf
  split at hf
  · cases hf
  · rename_i digits hl
    split at hf
    · cases hf
    · rename_i g hn
      cases hf
      exact literal_blames hpos (h.digits hc hl) hn
  · cases hf
  all_goals
    cases hf
    exact hpos

theorem argument_pos {l : Lexeme} {arg : RawArg} (h : argument l = .ok arg) : arg.pos = l.pos := by
  unfold argument at h
  split at h
  · cases h
    rfl
  · split at h
    all_goals cases h
    rfl
  · cases h
    rfl
  all_goals cases h

/-- Arguments that were read up to their parenthesis, the last character that is taken. -/
def ArgumentsHandled (text : List Char) (c : Cursor) :
    Except ParseFault (List RawArg × Position × List Lexeme) → Prop
  | .ok (args, endPos, rest) => ∃ c' run, c.Takes run c' ∧ run.getLast? = some ')' ∧
      (⟨rest, c.lexemes.finish⟩ : Lexemes) = c'.lexemes ∧ endPos.Inside text ∧ ∀ a ∈ args, a.pos.Inside text
  | .error f => f.Blames text

theorem ArgumentsHandled.of_cuts {text : List Char} {c c' : Cursor} {l : Lexeme} (h : c.Cuts l c')
    {r : Except ParseFault (List RawArg × Position × List Lexeme)} (hr : ArgumentsHandled text c' r) :
    ArgumentsHandled text c r := by
  cases r with
  | error f => exact hr
  | ok out =>
    obtain ⟨e, run, hrun, hlast, hrest, hinside⟩ := hr
    have hfinish : c.lexemes.finish = c'.lexemes.finish := by rw [h.lexemes]; rfl
    obtain ⟨-, -, hgap, htaken, -, -, -⟩ := h
    refine ⟨e, _, (hgap.trans htaken).trans hrun, ?_, by rw [hfinish]; exact hrest, hinside⟩
    rw [List.getLast?_append, hlast]
    rfl

theorem arguments_handled {text : List Char} {c : Cursor} (hc : c.In text) (want : Want) :
    ArgumentsHandled text c (arguments c.lexemes.finish want c.lexemes.items) := by
  -- The arguments are read off the lexemes, so the induction is on these; the cursor goes along.
  induction hn : c.lexemes.items.length using Nat.strong_induction_on generalizing c want with
  | _ n ih =>
    cases c.next with
    | finish h =>
      rw [h, arguments]
      exact hc.finish_inside
    | @brace run brace htakes h =>
      have herror : arguments c.lexemes.finish want c.lexemes.items =
          .error (.malformed .unterminatedComment brace.pos) := by
        rw [h]
        cases want <;> simp [arguments, argument, Bind.bind, Except.bind]
      rw [herror]
      exact (hc.of_takes htakes).inside
    | @lexeme l e hcuts =>
      have hitems : c.lexemes.items = l :: e.lexemes.items := by rw [hcuts.lexemes]; rfl
      have hfinish : c.lexemes.finish = e.lexemes.finish := by rw [hcuts.lexemes]; rfl
      have hlt : e.lexemes.items.length < n := by rw [← hn, hitems, List.length_cons]; exact Nat.lt_succ_self _
      have hrest : ∀ want, ArgumentsHandled text c (arguments c.lexemes.finish want e.lexemes.items) := fun want => by
        rw [hfinish]
        exact .of_cuts hcuts (ih _ hlt (hcuts.inText hc) want rfl)
      have hclose : ∀ endPos, endPos.Inside text → l.token = .mark ')' →
          ArgumentsHandled text c (.ok ([], endPos, e.lexemes.items)) := fun endPos hend hl => by
        obtain ⟨⟨run, hrun, hlast⟩, -⟩ := hcuts.mark hl
        exact ⟨e, run, hrun, hlast, by rw [hfinish], hend, by simp⟩
      rw [hitems]
      unfold arguments
      split
      · exact hrest want
      split
      · split
        · exact hrest .argument
        · rename_i hl
          exact hclose _ (hcuts.inside hc) hl
        · exact hcuts.inside hc
        · exact hcuts.inside hc
      · split
        · rename_i hl
          simp only [Bool.and_eq_true, decide_eq_true_eq] at hl
          refine hclose _ ?_ hl.2
          rw [← (hcuts.mark hl.2).2]
          exact (hcuts.inText hc).inside
        · have hseparator := hrest .separator
          cases harg : argument l with
          | error f => exact argument_blames hc hcuts harg
          | ok arg =>
            cases hargs : arguments c.lexemes.finish .separator e.lexemes.items with
            | error f =>
              rw [hargs] at hseparator
              exact hseparator
            | ok out =>
              rw [hargs] at hseparator
              obtain ⟨c', run, hrun, hlast, hleft, hend, hall⟩ := hseparator
              refine ⟨c', run, hrun, hlast, hleft, hend, List.forall_mem_cons.mpr ⟨?_, hall⟩⟩
              rw [argument_pos harg]
              exact hcuts.inside hc

end Parse

theorem FirstMisfit.mem {slots : List Slot} {args : List RawArg} {pos : Position} (h : FirstMisfit slots args pos) :
    ∃ a ∈ args, a.pos = pos := by
  induction h with
  | here => exact ⟨_, List.mem_cons_self, rfl⟩
  | later _ _ ih =>
    obtain ⟨a, ha, hpos⟩ := ih
    exact ⟨a, List.mem_cons_of_mem _ ha, hpos⟩

theorem Signature.FaultAt.mem {args : List RawArg} {endPos pos : Position} {sig : Signature}
    (h : sig.FaultAt args endPos pos) : pos = endPos ∨ ∃ a ∈ args, a.pos = pos := by
  cases h with
  | plain => exact .inl rfl
  | surplus harg => exact .inr ⟨_, List.mem_of_getElem? harg, rfl⟩
  | missing => exact .inl rfl
  | misfit _ hmisfit => exact .inr hmisfit.mem
  | optionalSurplus harg => exact .inr ⟨_, List.mem_of_getElem? harg, rfl⟩
  | optionalMisfit _ hmisfit => exact .inr hmisfit.mem
  | incomplete => exact .inl rfl
  | groupMisfit _ hmisfit => exact .inr hmisfit.mem
  | menu hbreaks =>
    cases hbreaks with
    | short => exact .inl rfl
    | wrong before hargs => exact .inr ⟨_, by simp [hargs], rfl⟩

namespace Parse

theorem references_eq (args : List Argument) (c : Command) (pos : Position) :
    references args pos = (Action.call c args).mentions.map (·, pos) := by
  unfold references Action.mentions
  rw [List.map_filterMap]
  refine List.filterMap_congr fun a _ => ?_
  cases a.value <;> rfl

namespace Handles

variable {text : List Char} {c : Cursor}

theorem argumentList :
    Handles text Parse.argumentList c fun r _ => r.2.Inside text ∧ ∀ a ∈ r.1, a.pos.Inside text := by
  intro hc
  have h := arguments_handled hc .first
  unfold Parse.argumentList
  cases hargs : arguments c.lexemes.finish .first c.lexemes.items with
  | error f =>
    rw [hargs] at h
    exact h
  | ok out =>
    rw [hargs] at h
    obtain ⟨c', run, hrun, hlast, hrest, hinside⟩ := h
    exact ⟨c', hrest, ⟨run, hrun, by rw [hlast]; decide⟩, hinside⟩

/-! ## Statements -/

/-- A statement starts with its keyword. The labels that it mentions are blamed at its own place, but the target of a
jump is blamed where it stands. -/
def Places (c : Cursor) (k : Keyword) (pos : Position) (r : Action × List Reference) : Prop :=
  r.1.keyword? = some k ∧ (r.2 = r.1.mentions.map (·, pos) ∨
    ∃ target, r.1.mentions = [target.1] ∧ r.2 = [target] ∧ c.Meets target.1 target.2)

theorem condition : Handles text Parse.condition c fun a _ => ∃ lhs op rhs t, a = .cond lhs op rhs t := by
  refine bind operand fun lhs _ _ _ => bind comparison fun op _ _ _ => bind operand fun rhs _ _ _ =>
    bind peek fun o c' hc' ho => ?_
  obtain ⟨rfl, ho⟩ := ho
  split
  · obtain ⟨e, he⟩ := ho _ rfl
    split
    · exact bind (drop he (by simp)) fun _ _ _ _ => pure ⟨lhs, op, rhs, 0, rfl⟩
    · exact bind (P := fun _ _ => True) (failAt (he.inside hc')) fun _ _ _ _ => pure ⟨lhs, op, rhs, 0, rfl⟩
  · exact bind (P := fun _ _ => True) (expected _) fun _ _ _ _ => pure ⟨lhs, op, rhs, 0, rfl⟩

theorem assignment : Handles text Parse.assignment c fun a _ => ∃ v e, a = .assign v e := by
  refine bind (plainName _) fun v _ _ _ => bind (mark _) fun _ _ _ _ => bind operand fun first _ _ _ =>
    bind operator fun o _ _ _ => ?_
  split
  · exact bind operand fun second _ _ _ => pure ⟨_, _, rfl⟩
  · exact pure ⟨_, _, rfl⟩

theorem call (com : Command) (pos : Position) :
    Handles text (Parse.call com pos) c fun r _ => Places c (.command com) pos r := by
  refine bind (mark _) fun _ _ _ _ => bind argumentList fun r _ _ hr => ?_
  obtain ⟨args, endPos⟩ := r
  dsimp only at hr ⊢
  split
  · exact pure ⟨rfl, .inl (references_eq _ com pos)⟩
  · rename_i cause at' hfault
    refine failAt ?_
    rcases (((com.decides args endPos).error _).mp ⟨_, hfault⟩).mem with rfl | ⟨a, ha, rfl⟩
    · exact hr.1
    · exact hr.2 a ha

theorem statement (k : Keyword) (name : String) {pos : Position} (hpos : pos.Inside text) :
    Handles text (Parse.statement k name pos) c fun r _ => Places c k pos r := by
  cases k with
  | goto => exact bind labelName fun target _ _ htarget => pure ⟨rfl, .inr ⟨target, rfl, rfl, htarget⟩⟩
  | gosub => exact bind labelName fun target _ _ htarget => pure ⟨rfl, .inr ⟨target, rfl, rfl, htarget⟩⟩
  | back => exact pure ⟨rfl, .inl rfl⟩
  | finish => exact pure ⟨rfl, .inl rfl⟩
  | cond =>
    refine bind condition fun a _ _ ha => ?_
    obtain ⟨lhs, op, rhs, t, rfl⟩ := ha
    exact pure ⟨rfl, .inl rfl⟩
  | assign =>
    refine bind assignment fun a _ _ ha => ?_
    obtain ⟨v, e, rfl⟩ := ha
    exact pure ⟨rfl, .inl rfl⟩
  | andThen => exact failAt hpos
  | command com =>
    unfold Parse.statement
    dsimp only
    split
    · exact pure ⟨rfl, .inl rfl⟩
    · exact call com pos

end Handles

end Parse

end GraphicsBatch
