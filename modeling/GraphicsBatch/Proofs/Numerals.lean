import GraphicsBatch.Proofs.Gathering
import GraphicsBatch.Proofs.Recased
import GraphicsBatch.Proofs.Unattended

/-!
# Integer literals

A literal that stands where an operand or an argument is wanted has its exact value, whatever zeros it starts with, or it
is refused. The limit on the number of digits comes before the limit on the value: a literal of more than 4300 digits is
no syntax error, whatever its value is.
-/

namespace GraphicsBatch

namespace Source

/-! ## A numeral behind a text -/

theorem normalize_digits {digits : List Char} (hdigits : ∀ x ∈ digits, isDigit x = true) (after : List Char) :
    normalize (digits ++ after) = digits ++ normalize after := by
  induction digits with
  | nil => rfl
  | cons d ds ih =>
    have hd : d ≠ '\r' := by
      rintro rfl
      exact absurd (hdigits _ List.mem_cons_self) (by decide)
    rw [List.cons_append, normalize_cons fun h => hd h.1, ih fun x hx => hdigits x (List.mem_cons_of_mem d hx),
      List.cons_append]

theorem getLast?_normalize (cs : List Char) : (normalize cs).getLast? = cs.getLast? := by
  fun_induction normalize cs with
  | case1 cs ih => simp only [List.getLast?_cons, ih, Option.getD_some]
  | case2 c cs hnot ih => rw [List.getLast?_cons, ih, List.getLast?_cons]
  | case3 => rfl

namespace Cursor

variable {c : Cursor} {d : Char} {ds tail : List Char}

theorem quoted_followedBy_some {r : List Char × Cursor} (hd : c.rest = d :: ds) (h : c.quoted = some r) :
    (c.followedBy tail).quoted = some (r.1, r.2.followedBy tail) := by
  unfold quoted at h ⊢
  rw [advance_followedBy hd]
  dsimp only at h
  split at h
  · rename_i hrest
    cases h
    have hdrop : (c.advance 1).rest.dropWhile (fun x => x != '"' && x != '\n') ≠ [] := by
      intro hnil
      simp only [span, hnil] at hrest
      cases hrest
    rw [span_followedBy fun hnil => absurd hnil hdrop]
    generalize (c.advance 1).span (fun x => x != '"' && x != '\n') = r at hrest
    have hquote : (r.2.followedBy tail).rest = '"' :: (_ ++ tail) := congrArg (· ++ tail) hrest
    simp only [hquote, advance_followedBy hrest]
  · cases h

theorem span_followedBy_of_last {f : Char → Bool} (hd : c.rest = d :: ds) (hlast : ∀ x ∈ c.rest.getLast?, f x = false) :
    (c.followedBy tail).span f = ((c.span f).1, (c.span f).2.followedBy tail) := by
  refine span_followedBy fun hnil => ?_
  have hall := List.dropWhile_eq_nil_iff.mp hnil
  have hne : c.rest ≠ [] := by simp [hd]
  have hfalse := hlast _ (List.getLast?_eq_getLast_of_ne_nil hne)
  rw [hall _ (List.getLast_mem hne)] at hfalse
  cases hfalse

theorem token_followedBy_of_complete (hd : c.rest = d :: ds) (hlast : ∀ x ∈ c.rest.getLast?, isNameChar x = false)
    (hcomplete : (c.token d).1.Complete) :
    (c.followedBy tail).token d = ((c.token d).1, (c.token d).2.followedBy tail) := by
  unfold token at hcomplete ⊢
  split
  · rw [advance_followedBy hd]
  split
  · rw [span_followedBy_of_last hd hlast]
  split
  · unfold number
    rw [span_followedBy_of_last hd fun x hx => (Bool.or_eq_false_iff.mp (hlast x hx)).2]
  split
  · cases hq : c.quoted with
    | none => simp_all [Token.Complete]
    | some r => rw [quoted_followedBy_some hd hq]
  · rw [advance_followedBy hd]

theorem Takes.last {e : Cursor} {run : List Char} (h : c.Takes run e)
    (hlast : ∀ x ∈ c.rest.getLast?, isNameChar x = false) :
    ∀ x ∈ e.rest.getLast?, isNameChar x = false := by
  intro x hx
  refine hlast x ?_
  rw [h.rest, List.getLast?_append, hx]
  rfl

theorem lexemes_followedBy_numeral {digits after : List Char} (hne : digits ≠ [])
    (hdigits : ∀ x ∈ digits, isDigit x = true)
    (hafter : ∀ x ∈ after.head?, isDigit x = false) (c : Cursor) (hcomplete : ∀ x ∈ c.lexemes.items, x.token.Complete)
    (hlast : ∀ x ∈ c.rest.getLast?, isNameChar x = false) :
    ∃ att, (c.followedBy (digits ++ after)).lexemes =
      c.lexemes.before ⟨.numeral digits, c.finish, att⟩ (lexemes ⟨c.finish.afterAll digits, after⟩) := by
  fun_induction lexemes c with
  | case1 c brace hskip => exact absurd rfl (hcomplete _ (List.mem_singleton_self _)).2
  | case2 c e hskip hnil =>
    have hpos : e.pos = c.finish := by
      rw [← finish_skipBlank hskip, finish, hnil, Position.afterAll_nil]
    -- At the end of the text the digits start the next token.
    obtain ⟨d, ds, rfl⟩ := List.exists_cons_of_ne_nil hne
    have hdigit := hdigits d List.mem_cons_self
    obtain ⟨hfeed, hbrace, hblank, hstart⟩ := isDigit_ne hdigit
    have hend : (c.followedBy (d :: ds ++ after)).skipBlank false = .ok ⟨e.pos, d :: ds ++ after⟩ := by
      rw [skipBlank_followedBy hskip, if_pos hnil, List.cons_append, skipFrom, if_neg hbrace, if_neg (by simp [hblank])]
    have htoken : token ⟨e.pos, d :: ds ++ after⟩ d = (.numeral (d :: ds), ⟨e.pos.afterAll (d :: ds), after⟩) := by
      unfold token number
      rw [if_neg hfeed, if_neg (by simp [hstart]), if_pos hdigit, span_eq hdigits hafter]
    rw [lexemes_eq_cons hend rfl, htoken, hpos]
    exact ⟨_, rfl⟩
  | case3 c e hskip d ds hd next later ih =>
    -- A complete token reads the same with more text behind it.
    obtain ⟨hfirst, hlater⟩ := List.forall_mem_cons.mp hcomplete
    obtain ⟨gap, -, hgap⟩ := skipBlank_takes hskip
    obtain ⟨run, hrun, -⟩ := token_written hd
    have hfinish : next.2.finish = c.finish := by rw [finish_token, finish_skipBlank hskip]
    have hskip' : (c.followedBy (digits ++ after)).skipBlank false = .ok (e.followedBy (digits ++ after)) := by
      rw [skipBlank_followedBy hskip, if_neg (by simp [hd])]
    have hd' : (e.followedBy (digits ++ after)).rest = d :: (ds ++ (digits ++ after)) := by
      rw [followedBy, hd, List.cons_append]
    obtain ⟨att, hmore⟩ := ih hlater (hrun.last (hgap.last hlast))
    refine ⟨att, ?_⟩
    rw [lexemes_eq_cons hskip' hd', token_followedBy_of_complete hd (hgap.last hlast) hfirst, hmore, hfinish]
    rfl

theorem pos_ne_finish (c : Cursor) : ∀ x ∈ c.lexemes.items, x.token ≠ .openComment → x.pos ≠ c.finish := by
  fun_induction lexemes c with
  | case1 c brace hskip => simp
  | case2 c e hskip hnil => simp
  | case3 c e hskip d ds hd next later ih =>
    have hfinish : next.2.finish = c.finish := by rw [finish_token, finish_skipBlank hskip]
    refine List.forall_mem_cons.mpr ⟨fun _ hpos => ?_, hfinish ▸ ih⟩
    rw [← finish_skipBlank hskip, finish, eq_comm, Position.afterAll_eq_self, hd] at hpos
    cases hpos

end Cursor

theorem head?_normalize {cs : List Char} (h : ∀ x ∈ cs.head?, isDigit x = false) :
    ∀ x ∈ (normalize cs).head?, isDigit x = false := by
  fun_cases normalize cs with
  | case1 cs =>
    intro x hx
    obtain rfl : '\n' = x := Option.some.inj hx
    rfl
  | case2 c cs _ => exact h
  | case3 => simp

theorem Lexemes.ofText_numeral {before digits after : List Char} (hne : digits ≠ [])
    (hdigits : ∀ x ∈ digits, isDigit x = true)
    (hafter : ∀ x ∈ after.head?, isDigit x = false) (hlast : ∀ x ∈ before.getLast?, isNameChar x = false)
    (hcomplete : ∀ x ∈ (Lexemes.ofText before).items, x.token.Complete) :
    ∃ att, Lexemes.ofText (before ++ digits ++ after) = (Lexemes.ofText before).before
      ⟨.numeral digits, Position.start.afterAll (normalize before), att⟩
      (Cursor.lexemes ⟨(Position.start.afterAll (normalize before)).afterAll digits, normalize after⟩) := by
  have htext : normalize (before ++ digits ++ after) = normalize before ++ (digits ++ normalize after) := by
    obtain ⟨d, ds, rfl⟩ := List.exists_cons_of_ne_nil hne
    have hfeed : d ≠ '\n' := (isDigit_ne (hdigits d List.mem_cons_self)).1
    rw [← normalize_digits hdigits, List.append_assoc, List.cons_append, normalize_append hfeed]
  unfold Lexemes.ofText
  rw [htext]
  exact Cursor.lexemes_followedBy_numeral hne hdigits (head?_normalize hafter) (.ofText (normalize before)) hcomplete
    fun x hx => hlast x (getLast?_normalize before ▸ hx)

end Source

open Source

/-! ## Literals of a program -/

theorem Statement.numbers_skippingTo (s : Statement) (target : Nat) :
    (s.skippingTo target).action.numbers = s.action.numbers := by
  obtain ⟨action, pos⟩ := s
  cases action <;> rfl

theorem Program.numbers_ofLines (lines : List (List Statement)) :
    (ofLines lines).numbers = lines.flatten.flatMap (·.action.numbers) := by
  have hmap := statementsFrom_map (f := fun s => s.action.numbers) Statement.numbers_skippingTo lines 0
  rw [List.flatMap_def, ← hmap]
  rfl

/-- The numbers of a program are those of its text, in their order. -/
theorem Program.numbers_of_parse {text : List Char} {pedantic : Bool} {p : Program}
    (h : Program.parse (String.ofList text) pedantic = .ok p) : p.numbers = numbersOf (Lexemes.ofText text).items := by
  unfold Program.parse at h
  rw [String.toList_ofList] at h
  obtain ⟨d, hd, hclose⟩ := Except.bind_eq_ok.mp h
  obtain ⟨rfl, -⟩ := Parse.Draft.close_eq_ok hclose
  have hline : d.line = [] := (Parse.commands_good Parse.Draft.good_empty (Cursor.lexemes_sound _) hd).2
  have hnumbers := Parse.commands_gathers [] .start false ⟨[], .start⟩ pedantic {} (Lexemes.ofText text)
  rw [hd] at hnumbers
  rw [numbers_ofLines]
  simpa [Parse.Draft.numbers, Parse.Draft.statements, hline] using hnumbers.2

theorem Parse.Draft.close_eq_undefined {d : Draft} {f : ParseFault} (h : d.close = .error f) :
    ∃ name pos, f = .undefinedLabel name pos := by
  unfold close at h
  split at h
  · cases h
    exact ⟨_, _, rfl⟩
  · cases h

/-- A text that breaks off where an operand or an argument is wanted, and with which nothing else is wrong. -/
structure Program.WantsNumber (pedantic : Bool) (text : List Char) : Prop where
  wants : ∃ f, Program.parse (String.ofList text) pedantic = .error f ∧ f.Wants (Position.start.afterAll (normalize text))
  apart : ∀ c ∈ text.getLast?, isNameChar c = false

theorem Program.WantsNumber.settles {pedantic : Bool} {before digits after : List Char} (h : WantsNumber pedantic before)
    (hne : digits ≠ []) (hdigits : ∀ c ∈ digits, isDigit c = true) (hafter : ∀ c ∈ after.head?, isDigit c = false) :
    let place := Position.start.afterAll (normalize before)
    let more := Cursor.lexemes ⟨place.afterAll digits, normalize after⟩
    (∃ att, Lexemes.ofText (before ++ digits ++ after) = (Lexemes.ofText before).before ⟨.numeral digits, place, att⟩ more) ∧
      Parse.Settles digits place more (fun _ => True)
        (Parse.commands pedantic {} (Lexemes.ofText (before ++ digits ++ after))) := by
  intro place more
  obtain ⟨f, hparse, hwants⟩ := h.wants
  have hcommands : Parse.commands pedantic {} (Lexemes.ofText before) = .error f := by
    unfold Program.parse at hparse
    rw [String.toList_ofList] at hparse
    cases hd : Parse.commands pedantic {} (Lexemes.ofText before) with
    | error e =>
      rw [hd] at hparse
      cases hparse
      rfl
    | ok d =>
      -- An undefined label is no want of a number.
      rw [hd] at hparse
      obtain ⟨name, pos, rfl⟩ := Parse.Draft.close_eq_undefined hparse
      simp [ParseFault.Wants] at hwants
  have hplaces := Cursor.pos_ne_finish (.ofText (normalize before))
  have hgathers := fun att => Parse.commands_gathers digits place att more pedantic {} (Lexemes.ofText before)
  rw [hcommands] at hgathers
  obtain ⟨-, hcomplete, -⟩ := hgathers true hwants hplaces
  obtain ⟨att, htext⟩ := Lexemes.ofText_numeral hne hdigits hafter h.apart hcomplete
  obtain ⟨-, -, hsettles⟩ := hgathers att hwants hplaces
  rw [htext]
  exact ⟨⟨att, rfl⟩, hsettles⟩

section

variable {pedantic : Bool} {before digits after : List Char}

theorem Program.WantsNumber.refused (h : WantsNumber pedantic before) (hne : digits ≠ [])
    (hdigits : ∀ c ∈ digits, isDigit c = true) (hafter : ∀ c ∈ after.head?, isDigit c = false) {f : ParseFault}
    (hf : Parse.literal digits (Position.start.afterAll (normalize before)) = .error f) :
    Program.parse (String.ofList (before ++ digits ++ after)) pedantic = .error f := by
  obtain ⟨-, hsettles⟩ := h.settles hne hdigits hafter
  unfold Parse.Settles at hsettles
  rw [hf] at hsettles
  unfold Program.parse
  rw [String.toList_ofList, hsettles]
  rfl

theorem Program.WantsNumber.accepted (h : WantsNumber pedantic before) (hne : digits ≠ [])
    (hdigits : ∀ c ∈ digits, isDigit c = true) {n : Nat}
    (hn : Parse.literal digits (Position.start.afterAll (normalize before)) = .ok n) :
    (∃ p, Program.parse (String.ofList (before ++ digits)) pedantic = .ok p) ∨
      (∃ what, Program.parse (String.ofList (before ++ digits)) pedantic =
        .error (.malformed (.expected what) ((Position.start.afterAll (normalize before)).afterAll digits))) ∨
      ∃ name pos, Program.parse (String.ofList (before ++ digits)) pedantic = .error (.undefinedLabel name pos) := by
  have hnone : ∀ c ∈ ([] : List Char).head?, isDigit c = false := by simp
  obtain ⟨-, hsettles⟩ := h.settles hne hdigits hnone
  unfold Parse.Settles at hsettles
  rw [hn, Source.normalize, Cursor.lexemes_nil, List.append_nil] at hsettles
  unfold Program.parse
  rw [String.toList_ofList]
  rcases hsettles rfl with ⟨d, hd, -⟩ | ⟨what, hwhat⟩
  · rw [hd]
    cases hclose : d.close with
    | ok p => exact .inl ⟨p, hclose⟩
    | error f =>
      obtain ⟨name, pos, rfl⟩ := Parse.Draft.close_eq_undefined hclose
      exact .inr (.inr ⟨name, pos, hclose⟩)
  · rw [hwhat]
    exact .inr (.inl ⟨what, rfl⟩)

theorem Program.WantsNumber.numbers (h : WantsNumber pedantic before) (hne : digits ≠ [])
    (hdigits : ∀ c ∈ digits, isDigit c = true) (hafter : ∀ c ∈ after.head?, isDigit c = false) {p : Program}
    (hp : Program.parse (String.ofList (before ++ digits ++ after)) pedantic = .ok p) :
    ∃ later, p.numbers = numbersOf (Lexemes.ofText before).items ++ (valueOf digits : Int) :: later := by
  obtain ⟨⟨att, htext⟩, -⟩ := h.settles hne hdigits hafter
  rw [numbers_of_parse hp, htext, Lexemes.before, numbersOf_append]
  exact ⟨_, rfl⟩

end

/-! ## Runs of a text that is no program -/

namespace Application

open Config (Settings)

/-- An invocation that runs a text. -/
structure Runs (i : Invocation) (settings : Settings) (log : Log) (files : Files) (pedantic : Bool) (text : List Char) :
    Prop where
  read : readSettings i.arguments i.userConfig i.files = (.ok settings, log, files)
  noVersion : settings.flag .version = false
  noHelp : settings.flag .help = false
  named : settings.programFile ≠ ""
  mode : settings.pedantic = pedantic
  source : ∃ bytes, files.read settings.programFile = .ok bytes ∧ (Source.bytes bytes).decode.1 = String.ofList text

variable {i : Invocation} {settings : Settings} {log : Log} {files : Files} {pedantic : Bool} {text : List Char}

theorem Runs.unparsable (h : Runs i settings log files pedantic text) {f : ParseFault}
    (hf : Program.parse (String.ofList text) pedantic = .error f) (fuel : Nat) :
    (run i fuel).status = (endingOf settings.programFile (.unparsable f) (run i fuel).world).status ∧
      (run i fuel).stderr = (deliverLog i.stamp settings (run i fuel).world.log files).1 ++
        (endingOf settings.programFile (.unparsable f) (run i fuel).world).lastWords := by
  obtain ⟨bytes, hread, htext⟩ := h.source
  have hparse : (Source.bytes bytes).parse settings.pedantic = (.error f, (Source.bytes bytes).decode.2) := by
    rw [← htext, ← h.mode] at hf
    simp only [Source.parse, hf]
  have hending : ∃ world, runProgram settings files fuel { i.world with log } =
      endingOf settings.programFile (.unparsable f) world := by
    simp only [runProgram, Session.loadFile, hread, Session.load, hparse]
    exact ⟨_, rfl⟩
  obtain ⟨world, hending⟩ := hending
  have hkeeps : (endingOf settings.programFile (.unparsable f) world).world = world := by
    cases f <;> rfl
  obtain ⟨hstatus, hworld, hstderr⟩ := run_eq_runProgram h.read h.noVersion h.noHelp h.named fuel hending
  rw [hkeeps] at hworld hstderr
  rw [hworld]
  exact ⟨hstatus, hstderr⟩

end Application

open Application in
/-- Integer literals up to 4300 digits are read exactly or refused at their place, and longer ones stop the run. -/
theorem Program.parse_numeral {pedantic : Bool} {before digits after : List Char}
    (hbefore : WantsNumber pedantic before) (hne : digits ≠ []) (hdigits : ∀ c ∈ digits, isDigit c = true)
    (hafter : ∀ c ∈ after.head?, isDigit c = false) :
    let place := Position.start.afterAll (normalize before)
    let text := before ++ digits ++ after
    (digits.length ≤ 4300 → valueOf digits ≤ 2 ^ 63 - 1 →
      (∀ p, Program.parse (String.ofList text) pedantic = .ok p →
        ∃ later, p.numbers = numbersOf (Lexemes.ofText before).items ++ (valueOf digits : Int) :: later) ∧
      ((∃ p, Program.parse (String.ofList (before ++ digits)) pedantic = .ok p) ∨
        (∃ what, Program.parse (String.ofList (before ++ digits)) pedantic =
          .error (.malformed (.expected what) (place.afterAll digits))) ∨
        ∃ name pos, Program.parse (String.ofList (before ++ digits)) pedantic = .error (.undefinedLabel name pos))) ∧
    (digits.length ≤ 4300 → 2 ^ 63 - 1 < valueOf digits →
      Program.parse (String.ofList text) pedantic = .error (.malformed (.integerTooLarge (String.ofList digits)) place) ∧
      ∀ i settings log files, Runs i settings log files pedantic text → ∀ fuel, (run i fuel).status = .ok 1 ∧
        (run i fuel).stderr = (deliverLog i.stamp settings (run i fuel).world.log files).1 ++
          (settings.programFile ++ ":" ++ (place.render ++ ": " ++
            ("Syntax error: failed to parse integer '" ++ String.ofList digits ++ "'")) ++ "\n")) ∧
    (4300 < digits.length →
      Program.parse (String.ofList text) pedantic = .error (.longNumeral digits.length) ∧
      ∀ i settings log files, Runs i settings log files pedantic text → ∀ fuel,
        (run i fuel).status = .error (.session (.unparsable (.longNumeral digits.length)))) := by
  intro place text
  have hlit : Parse.literal digits place =
      if 4300 < digits.length then _ else if 2 ^ 63 - 1 < valueOf digits then _ else _ := Parse.literal_eq digits place
  refine ⟨fun hlength hvalue => ?_, fun hlength hvalue => ?_, fun hlength => ?_⟩
  · rw [if_neg (Nat.not_lt.mpr hlength), if_neg (Nat.not_lt.mpr hvalue)] at hlit
    exact ⟨fun p hp => hbefore.numbers hne hdigits hafter hp, hbefore.accepted hne hdigits hlit⟩
  · rw [if_neg (Nat.not_lt.mpr hlength), if_pos hvalue] at hlit
    have hparse := hbefore.refused hne hdigits hafter hlit
    exact ⟨hparse, fun i settings log files hruns fuel => hruns.unparsable hparse fuel⟩
  · rw [if_pos hlength] at hlit
    have hparse := hbefore.refused hne hdigits hafter hlit
    exact ⟨hparse, fun i settings log files hruns fuel => (hruns.unparsable hparse fuel).1⟩

/-- A comparison that lacks its second operand. -/
def halfCondition : List Char := "If 1<".toList

theorem halfCondition_wantsNumber : Program.WantsNumber false halfCondition where
  wants := by
    have hmap : (Program.parse (String.ofList halfCondition) false).map (·.statements) =
        .error (.malformed (.expected "integer or variable") ⟨1, 6⟩) := by decide +kernel
    refine ⟨.malformed (.expected "integer or variable") ⟨1, 6⟩, ?_, .inl (by decide +kernel)⟩
    cases hparse : Program.parse (String.ofList halfCondition) false with
    | ok p =>
      rw [hparse] at hmap
      cases hmap
    | error f =>
      rw [hparse] at hmap
      cases hmap
      rfl
  apart := by
    have hlast : halfCondition.getLast? = some '<' := by decide +kernel
    rw [hlast]
    rintro c ⟨⟩
    rfl

/-- The largest number is read, the next one is refused, and a long row of zeros is no literal. -/
theorem Program.parse_numeral_halfCondition :
    (∃ p later, Program.parse (String.ofList (halfCondition ++ "009223372036854775807".toList ++ "Then Return".toList)) false =
      .ok p ∧ p.numbers = [1, 9223372036854775807] ++ later) ∧
    Program.parse (String.ofList (halfCondition ++ "9223372036854775808".toList ++ "Then Return".toList)) false =
      .error (.malformed (.integerTooLarge "9223372036854775808") ⟨1, 6⟩) ∧
    Program.parse (String.ofList (halfCondition ++ List.replicate 4301 '0' ++ "Then Return".toList)) false =
      .error (.longNumeral 4301) := by
  have hthen : ∀ c ∈ ("Then Return".toList).head?, isDigit c = false := by
    have hhead : ("Then Return".toList).head? = some 'T' := by decide +kernel
    rw [hhead]
    rintro c ⟨⟩
    rfl
  have hplace : Position.start.afterAll (normalize halfCondition) = ⟨1, 6⟩ := by decide +kernel
  have hnumbers : numbersOf (Lexemes.ofText halfCondition).items = [1] := by decide +kernel
  refine ⟨?_, ?_, ?_⟩
  · have hok : (Program.parse (String.ofList (halfCondition ++ "009223372036854775807".toList ++ "Then Return".toList))
        false).toOption.isSome = true := by decide +kernel
    cases hp : Program.parse (String.ofList (halfCondition ++ "009223372036854775807".toList ++ "Then Return".toList)) false with
    | error f =>
      rw [hp] at hok
      cases hok
    | ok p =>
      have hdigits : ∀ c ∈ "009223372036854775807".toList, isDigit c = true := List.all_eq_true.mp (by decide +kernel)
      obtain ⟨hread, -⟩ := (parse_numeral halfCondition_wantsNumber (by decide +kernel) hdigits hthen).1
        (by decide +kernel) (by decide +kernel)
      obtain ⟨later, hlater⟩ := hread p hp
      rw [hnumbers] at hlater
      exact ⟨p, later, rfl, hlater⟩
  · have hdigits : ∀ c ∈ "9223372036854775808".toList, isDigit c = true := List.all_eq_true.mp (by decide +kernel)
    obtain ⟨hlarge, -⟩ := (parse_numeral halfCondition_wantsNumber (by decide +kernel) hdigits hthen).2.1
      (by decide +kernel) (by decide +kernel)
    rw [hplace] at hlarge
    exact hlarge
  · have hlength : (List.replicate 4301 '0').length = 4301 := List.length_replicate
    have hne : List.replicate 4301 '0' ≠ [] := List.ne_nil_of_length_pos (by omega)
    have hzeros : ∀ c ∈ List.replicate 4301 '0', isDigit c = true := by
      intro c hc
      rw [List.eq_of_mem_replicate hc]
      rfl
    obtain ⟨hlong, -⟩ := (parse_numeral halfCondition_wantsNumber hne hzeros hthen).2.2 (by omega)
    rw [hlength] at hlong
    exact hlong

end GraphicsBatch
