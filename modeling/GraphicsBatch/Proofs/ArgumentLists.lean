import GraphicsBatch.Proofs.Proper

/-!
# The languages of argument lists

Every command has a language of argument lists, put together from the slots that it declares. The check accepts this
language and nothing else, and where it refuses a list is said in terms of the language, too.
-/

namespace GraphicsBatch

/-! ## Slots -/

/-- What a slot makes of an argument. -/
inductive Slot.Reads (slot : Slot) : Raw → Value → Prop where
  | token {s : String} : slot.kind ≠ .string → Text.upper s ∈ slot.choices →
      Reads slot (.name s) (.token (Text.upper s))
  | text {s : String} : slot.kind = .string → Reads slot (.text s) (.text s)
  | integer {n : Text.Numeral} : slot.kind = .integer ∨ slot.kind = .key → Reads slot (.integer n) (.int n.value)
  | key {k : PhysicalKey} : slot.kind = .key → k.IsVisible → Reads slot (.text k.text) (.key k)
  | var {s : String} : slot.kind = .integer ∨ slot.kind = .key ∨ slot.kind = .variable → Text.upper s ∉ slot.choices →
      isReserved s = false → Reads slot (.name s) (.var s)
  | label {s : String} : slot.kind = .label → Text.upper s ∉ slot.choices → isReserved s = false →
      Reads slot (.name s) (.label s)

theorem readPhysicalKey_eq_some {s : String} {k : PhysicalKey} :
    readPhysicalKey s = some k ↔ s = k.text ∧ k.IsVisible := by
  constructor
  · intro h
    refine ⟨?_, (readPhysicalKey_visible h).1⟩
    unfold readPhysicalKey at h
    dsimp only at h
    apply String.toList_inj.mp
    split at h
    · rename_i c hs
      split at h
      · cases h
        simp [hs, PhysicalKey.text]
      · cases h
    · rename_i c hs
      split at h
      · cases h
        simp [hs, PhysicalKey.text]
      · cases h
    · cases h
  · rintro ⟨rfl, hk⟩
    exact readPhysicalKey_text hk

namespace Slot

variable {slot : Slot} {arg : RawArg} {v : Value}

theorem reads_of_convert (h : slot.convert arg = .ok v) : slot.Reads arg.raw v := by
  obtain ⟨raw, pos⟩ := arg
  obtain ⟨kind, choices⟩ := slot
  cases raw with
  | integer n =>
    cases kind <;> cases h
    · exact .integer (.inl rfl)
    · exact .integer (.inr rfl)
  | text s =>
    cases kind with
    | string =>
      cases h
      exact .text rfl
    | key =>
      simp only [convert] at h
      cases hk : readPhysicalKey s with
      | none => simp [hk] at h
      | some k =>
        simp only [hk, Except.ok.injEq] at h
        subst h
        obtain ⟨rfl, hvisible⟩ := readPhysicalKey_eq_some.mp hk
        exact .key rfl hvisible
    | _ => cases h
  | name s =>
    -- A name that is one of the choices is read as a token wherever the slot may hold one.
    by_cases hmem : Text.upper s ∈ choices
    · have htoken : kind ≠ .string → Reads ⟨kind, choices⟩ (.name s) (.token (Text.upper s)) :=
        fun hkind => .token hkind hmem
      cases kind <;> simp_all [convert]
    · obtain ⟨hkind, ⟨-, hmem'⟩ | ⟨htoken, hname, rfl⟩⟩ := convert_name h
      · exact absurd hmem' hmem
      · split
        · rename_i hlabel
          exact .label hlabel hmem hname
        · refine .var ?_ hmem hname
          cases kind <;> simp_all

theorem convert_of_reads (h : slot.Reads arg.raw v) : slot.convert arg = .ok v := by
  obtain ⟨raw, pos⟩ := arg
  obtain ⟨kind, choices⟩ := slot
  cases h with
  | token hkind hmem => cases kind <;> simp_all [convert]
  | text hkind =>
    subst hkind
    rfl
  | integer hkind => rcases hkind with rfl | rfl <;> rfl
  | key hkind hvisible =>
    subst hkind
    simp [convert, readPhysicalKey_text hvisible]
  | var hkind hmem hname => rcases hkind with rfl | rfl | rfl <;> simp_all [convert]
  | label hkind hmem hname =>
    subst hkind
    simp_all [convert]

theorem convert_eq_ok : slot.convert arg = .ok v ↔ slot.Reads arg.raw v := ⟨reads_of_convert, convert_of_reads⟩

theorem convert_error_pos {e : Malformed × Position} (h : slot.convert arg = .error e) : e.2 = arg.pos := by
  obtain ⟨raw, pos⟩ := arg
  obtain ⟨kind, choices⟩ := slot
  unfold convert at h
  dsimp only at h
  repeat' split at h
  all_goals cases h
  all_goals rfl

end Slot

/-- Fits one argument to its slot and then the others. -/
def takeThen (slot : Slot) (arg : RawArg) (others : Fit (List Argument)) : Fit (List Argument) := do
  let value ← slot.convert arg
  let rest ← others
  return ⟨slot.kind, value⟩ :: rest

theorem takeThen_eq_ok {slot : Slot} {arg : RawArg} {others : Fit (List Argument)} {out : List Argument} :
    takeThen slot arg others = .ok out ↔
      ∃ v rest, slot.Reads arg.raw v ∧ others = .ok rest ∧ out = ⟨slot.kind, v⟩ :: rest := by
  simp only [takeThen, Except.bind_eq_ok, Slot.convert_eq_ok]
  constructor
  · rintro ⟨v, hv, rest, hrest, h⟩
    cases h
    exact ⟨v, rest, hv, hrest, rfl⟩
  · rintro ⟨v, rest, hv, hrest, rfl⟩
    exact ⟨v, hv, rest, hrest, rfl⟩

theorem takeThen_eq_error {slot : Slot} {arg : RawArg} {others : Fit (List Argument)} {pos : Position} :
    (∃ cause, takeThen slot arg others = .error (cause, pos)) ↔
      (∀ v, ¬ slot.Reads arg.raw v) ∧ pos = arg.pos ∨
        (∃ v, slot.Reads arg.raw v) ∧ ∃ cause, others = .error (cause, pos) := by
  unfold takeThen
  cases h : slot.convert arg with
  | ok v =>
    have hsome : ∃ v, slot.Reads arg.raw v := ⟨v, Slot.convert_eq_ok.mp h⟩
    have hnot : ¬ ∀ v, ¬ slot.Reads arg.raw v := fun hnone => hnone v (Slot.convert_eq_ok.mp h)
    simp only [hsome, hnot, false_and, false_or, true_and]
    cases others with
    | ok rest => simp [bind, Except.bind, pure, Except.pure]
    | error e => simp [bind, Except.bind]
  | error e =>
    obtain ⟨cause, pos'⟩ := e
    obtain rfl : pos' = arg.pos := Slot.convert_error_pos h
    have hnone : ∀ v, ¬ slot.Reads arg.raw v := by
      intro v hv
      rw [Slot.convert_eq_ok.mpr hv] at h
      cases h
    simp [bind, Except.bind, hnone, eq_comm]

/-! ## Rows of slots -/

/-- A language of argument lists, together with what is made of each list. -/
abbrev Translation := List RawArg → List Argument → Prop

/-- Each slot takes its argument, and there are as many arguments as slots. -/
inductive Row : List Slot → List RawArg → List Argument → Prop where
  | nil : Row [] [] []
  | cons {slot : Slot} {slots : List Slot} {arg : RawArg} {args : List RawArg} {v : Value} {out : List Argument} :
      slot.Reads arg.raw v → Row slots args out → Row (slot :: slots) (arg :: args) (⟨slot.kind, v⟩ :: out)

/-- The first argument that its slot does not take stands at a place. -/
inductive FirstMisfit : List Slot → List RawArg → Position → Prop where
  | here {slot : Slot} {slots : List Slot} {arg : RawArg} {args : List RawArg} :
      (∀ v, ¬ slot.Reads arg.raw v) → FirstMisfit (slot :: slots) (arg :: args) arg.pos
  | later {slot : Slot} {slots : List Slot} {arg : RawArg} {args : List RawArg} {v : Value} {pos : Position} :
      slot.Reads arg.raw v → FirstMisfit slots args pos → FirstMisfit (slot :: slots) (arg :: args) pos

section

variable {slots slots' : List Slot} {args args' : List RawArg} {out out' : List Argument}

theorem Row.length_eq (h : Row slots args out) : args.length = slots.length ∧ out.length = args.length := by
  induction h with
  | nil => exact ⟨rfl, rfl⟩
  | cons _ _ ih => simp [ih.1, ih.2]

theorem Row.append (h : Row slots args out) (h' : Row slots' args' out') :
    Row (slots ++ slots') (args ++ args') (out ++ out') := by
  induction h with
  | nil => exact h'
  | cons hreads _ ih => exact .cons hreads ih

theorem Row.of_append (h : Row (slots ++ slots') args out) : ∃ xs ys as bs,
    args = xs ++ ys ∧ out = as ++ bs ∧ Row slots xs as ∧ Row slots' ys bs := by
  induction slots generalizing args out with
  | nil => exact ⟨[], args, [], out, rfl, rfl, .nil, h⟩
  | cons slot slots ih =>
    cases h with
    | cons hreads hrest =>
      obtain ⟨xs, ys, as, bs, rfl, rfl, hxs, hys⟩ := ih hrest
      exact ⟨_ :: xs, ys, _ :: as, bs, rfl, rfl, .cons hreads hxs, hys⟩

theorem convertAll_nil : convertAll slots [] = .ok [] := by
  cases slots <;> rfl

theorem convertAll_cons {slot : Slot} {arg : RawArg} :
    convertAll (slot :: slots) (arg :: args) = takeThen slot arg (convertAll slots args) := rfl

theorem convertAll_eq_ok (hlen : args.length ≤ slots.length) :
    convertAll slots args = .ok out ↔ Row (slots.take args.length) args out := by
  induction args generalizing slots out with
  | nil =>
    rw [convertAll_nil, List.length_nil, List.take_zero]
    constructor
    · intro h
      cases h
      exact .nil
    · intro h
      cases h
      rfl
  | cons arg args ih =>
    cases slots with
    | nil => simp at hlen
    | cons slot slots =>
      have hlen' : args.length ≤ slots.length := Nat.le_of_succ_le_succ hlen
      rw [convertAll_cons, takeThen_eq_ok, List.length_cons, List.take_succ_cons]
      constructor
      · rintro ⟨v, rest, hv, hrest, rfl⟩
        exact .cons hv ((ih hlen').mp hrest)
      · intro h
        cases h with
        | cons hv hrest => exact ⟨_, _, hv, (ih hlen').mpr hrest, rfl⟩

theorem convertAll_eq_error {pos : Position} :
    (∃ cause, convertAll slots args = .error (cause, pos)) ↔ FirstMisfit slots args pos := by
  induction slots generalizing args with
  | nil =>
    constructor
    · rintro ⟨cause, h⟩
      cases h
    · intro h
      cases h
  | cons slot slots ih =>
    cases args with
    | nil =>
      constructor
      · rintro ⟨cause, h⟩
        cases h
      · intro h
        cases h
    | cons arg args =>
      rw [convertAll_cons, takeThen_eq_error, ih]
      constructor
      · rintro (⟨hnone, rfl⟩ | ⟨⟨v, hv⟩, hrest⟩)
        · exact .here hnone
        · exact .later hv hrest
      · intro h
        cases h with
        | here hnone => exact .inl ⟨hnone, rfl⟩
        | later hv hrest => exact .inr ⟨⟨_, hv⟩, hrest⟩

end

/-! ## Repetitions -/

/-- Some number of lists of a language, one behind the other. -/
inductive Repeats (R : Translation) : List RawArg → List Argument → Prop where
  | nil : Repeats R [] []
  | cons {xs ys : List RawArg} {as bs : List Argument} : R xs as → Repeats R ys bs → Repeats R (xs ++ ys) (as ++ bs)

theorem repeats_row_iff {group : List Slot} {args : List RawArg} {out : List Argument} :
    Repeats (Row group) args out ↔ ∃ n, Row (List.replicate n group).flatten args out := by
  constructor
  · intro h
    induction h with
    | nil => exact ⟨0, .nil⟩
    | cons hrow _ ih =>
      obtain ⟨n, hn⟩ := ih
      exact ⟨n + 1, hrow.append hn⟩
  · rintro ⟨n, h⟩
    induction n generalizing args out with
    | zero =>
      cases h
      exact .nil
    | succ n ih =>
      obtain ⟨xs, ys, as, bs, rfl, rfl, hxs, hys⟩ := Row.of_append h
      exact .cons hxs (ih hys)

/-! ## Menus -/

/-- Lists of one language before lists of another. -/
inductive Before (R S : Translation) : List RawArg → List Argument → Prop where
  | intro {xs ys : List RawArg} {as bs : List Argument} : R xs as → S ys bs → Before R S (xs ++ ys) (as ++ bs)

theorem Row.single {slot : Slot} {arg : RawArg} {v : Value} (h : slot.Reads arg.raw v) :
    Row [slot] [arg] [⟨slot.kind, v⟩] := .cons h .nil

theorem Row.before {slot : Slot} {arg : RawArg} {v : Value} {S : Translation} {args : List RawArg} {out : List Argument}
    (h : slot.Reads arg.raw v) (hS : S args out) : Before (Row [slot]) S (arg :: args) (⟨slot.kind, v⟩ :: out) :=
  .intro (Row.single h) hS

/-- A name and a label, or `IGNORE` in its place. -/
def menuEntry : Translation := Row [.str, .menuLabel]

def menuMember : Translation := fun args out => Row [.token ["SEPARATOR"]] args out ∨ menuEntry args out

def menuPopup : Translation := Before menuEntry (Before (Repeats menuMember) (Row [.token ["ENDPOPUP"]]))

/-- A menu is read from some stage on. -/
inductive MenuStage.Reading : MenuStage → List RawArg → List Argument → Prop where
  | done : Reading .header [] []
  | take {stage : MenuStage} {arg : RawArg} {args : List RawArg} {v : Value} {out : List Argument} :
      (stage.slot arg).Reads arg.raw v → Reading (stage.next arg) args out →
      Reading stage (arg :: args) (⟨(stage.slot arg).kind, v⟩ :: out)

namespace MenuStage

variable {stage : MenuStage} {arg : RawArg} {args xs ys : List RawArg} {out as bs : List Argument} {endPos : Position}

theorem checkMenu_cons : checkMenu endPos stage (arg :: args) =
    takeThen (stage.slot arg) arg (checkMenu endPos (stage.next arg) args) := by
  cases stage <;> rfl

theorem checkMenu_eq_ok : checkMenu endPos stage args = .ok out ↔ stage.Reading args out := by
  induction args generalizing stage out with
  | nil =>
    constructor
    · intro h
      cases stage <;> cases h
      exact .done
    · intro h
      cases h
      rfl
  | cons arg args ih =>
    rw [checkMenu_cons, takeThen_eq_ok]
    constructor
    · rintro ⟨v, rest, hv, hrest, rfl⟩
      exact .take hv (ih.mp hrest)
    · intro h
      cases h with
      | take hv hrest => exact ⟨_, _, hv, ih.mpr hrest, rfl⟩

/-- What has to follow at a stage. -/
def Rest : MenuStage → Translation
  | .header => Repeats menuPopup
  | .headerLabel | .memberLabel =>
    Before (Row [.menuLabel]) (Before (Repeats menuMember) (Before (Row [.token ["ENDPOPUP"]]) (Repeats menuPopup)))
  | .member => Before (Repeats menuMember) (Before (Row [.token ["ENDPOPUP"]]) (Repeats menuPopup))

theorem reads_token {t : String} {raw : Raw} {v : Value} (h : (Slot.token [t]).Reads raw v) :
    ∃ s, raw = .name s ∧ Text.upper s = t := by
  cases h with
  | token _ hmem => exact ⟨_, rfl, by simpa [Slot.token] using hmem⟩
  | text hkind => cases hkind
  | integer hkind => simp [Slot.token] at hkind
  | key hkind => cases hkind
  | var hkind => simp [Slot.token] at hkind
  | label hkind => cases hkind

theorem reads_str {raw : Raw} {v : Value} (h : Slot.str.Reads raw v) : ∃ s, raw = .text s := by
  cases h with
  | token hkind => exact absurd rfl hkind
  | text => exact ⟨_, rfl⟩
  | integer hkind => simp [Slot.str] at hkind
  | key hkind => cases hkind
  | var hkind => simp [Slot.str] at hkind
  | label hkind => cases hkind

theorem Reading.rest (h : stage.Reading args out) : stage.Rest args out := by
  induction h with
  | done => exact .nil
  | @take stage arg args v out hv hrest ih =>
    cases stage with
    | header =>
      obtain ⟨hlabel, ⟨hmembers, ⟨hclose, hpopups⟩⟩⟩ := ih
      have hpopup : menuPopup _ _ := .intro (Row.cons hv hlabel) (.intro hmembers hclose)
      simpa [Rest, slot] using Repeats.cons hpopup hpopups
    | headerLabel => exact Row.before hv ih
    | memberLabel => exact Row.before hv ih
    | member =>
      simp only [slot, next] at hv ih ⊢
      cases ht : menuToken? arg.raw with
      | none =>
        simp only [ht] at hv ih ⊢
        obtain ⟨hlabel, ⟨hmembers, hmore⟩⟩ := ih
        have hmember : menuMember _ _ := .inr (Row.cons hv hlabel)
        simpa [Rest] using Before.intro (Repeats.cons hmember hmembers) hmore
      | some t =>
        simp only [ht] at hv ih ⊢
        -- A separator is a member by itself, and the end token closes the popup.
        obtain rfl | rfl := menuToken?_eq_some ht
        · obtain ⟨hmembers, hmore⟩ := ih
          have hmember : menuMember _ _ := .inl (.single hv)
          simpa [Rest] using Before.intro (Repeats.cons hmember hmembers) hmore
        · exact Before.intro Repeats.nil (Row.before hv ih)

/-! What the stages make of the parts of a menu. -/

theorem reading_entry (h : menuEntry xs as) (hrest : Reading .member ys bs) :
    Reading .header (xs ++ ys) (as ++ bs) ∧ Reading .member (xs ++ ys) (as ++ bs) := by
  obtain _ | ⟨hname, hlabel⟩ := h
  obtain _ | ⟨hlabel, hnone⟩ := hlabel
  cases hnone
  rename_i name v label v'
  obtain ⟨s, hs⟩ := reads_str hname
  have hslot : MenuStage.member.slot name = .str := by simp [slot, hs, menuToken?]
  have hnext : MenuStage.member.next name = .memberLabel := by simp [next, hs, menuToken?]
  constructor
  · have hread : Reading .headerLabel (label :: ys) (⟨Slot.menuLabel.kind, v'⟩ :: bs) := .take hlabel hrest
    exact .take hname hread
  · have hread : Reading (MenuStage.member.next name) (label :: ys) (⟨Slot.menuLabel.kind, v'⟩ :: bs) := by
      rw [hnext]
      exact .take hlabel hrest
    rw [← hslot] at hname ⊢
    exact .take hname hread

theorem reading_token {t : String} (ht : t = "SEPARATOR" ∨ t = "ENDPOPUP") (h : Row [.token [t]] xs as)
    (hrest : Reading (if t = "ENDPOPUP" then .header else .member) ys bs) : Reading .member (xs ++ ys) (as ++ bs) := by
  obtain _ | ⟨hread, hnone⟩ := h
  cases hnone
  rename_i arg v
  obtain ⟨s, hs, hupper⟩ := reads_token hread
  have htoken : menuToken? arg.raw = some t := by rcases ht with rfl | rfl <;> simp [menuToken?, hs, hupper]
  have hslot : MenuStage.member.slot arg = .token [t] := by simp [slot, htoken]
  have hnext : MenuStage.member.next arg = if t = "ENDPOPUP" then .header else .member := by simp [next, htoken]
  rw [← hnext] at hrest
  rw [← hslot] at hread ⊢
  exact .take hread hrest

theorem reading_members (h : Repeats menuMember xs as) (hrest : Reading .member ys bs) :
    Reading .member (xs ++ ys) (as ++ bs) := by
  induction h with
  | nil => exact hrest
  | cons hmember _ ih =>
    rw [List.append_assoc, List.append_assoc]
    rcases hmember with hseparator | hentry
    · exact reading_token (.inl rfl) hseparator ih
    · exact (reading_entry hentry ih).2

theorem reading_popups (h : Repeats menuPopup args out) : Reading .header args out := by
  induction h with
  | nil => exact .done
  | cons hpopup _ ih =>
    obtain ⟨hentry, ⟨hmembers, hclose⟩⟩ := hpopup
    rw [List.append_assoc, List.append_assoc, List.append_assoc, List.append_assoc]
    exact (reading_entry hentry (reading_members hmembers (reading_token (.inr rfl) hclose ih))).1

theorem reading_header_iff : Reading .header args out ↔ Repeats menuPopup args out := ⟨Reading.rest, reading_popups⟩

/-! ### Beginnings of menus -/

end MenuStage

/-- More arguments could make a list of the language of these. -/
def Viable (R : Translation) (args : List RawArg) : Prop := ∃ more out, R (args ++ more) out

/-- Where a list goes wrong from left to right: at its end, or at the first argument that rules the language out. -/
inductive Breaks (R : Translation) (args : List RawArg) (endPos : Position) : Position → Prop where
  | short : Viable R args → (∀ out, ¬ R args out) → Breaks R args endPos endPos
  | wrong (before : List RawArg) {rest : List RawArg} {arg : RawArg} : args = before ++ arg :: rest → Viable R before →
      ¬ Viable R (before ++ [arg]) → Breaks R args endPos arg.pos

namespace MenuStage

variable {stage : MenuStage} {arg : RawArg} {args : List RawArg} {endPos pos : Position}

/-- Every stage can be completed: a label may be `IGNORE`, and then the popup may end. -/
theorem viable_nil (stage : MenuStage) : Viable stage.Reading [] := by
  have hupper : ∀ t ∈ bareTokens, Text.upper t = t := fun t ht => (bareTokens_spec t ht).1
  have hclose : (Slot.token ["ENDPOPUP"]).Reads (.name "ENDPOPUP") (.token (Text.upper "ENDPOPUP")) :=
    .token (by decide) (by simp [Slot.token, hupper "ENDPOPUP" (by decide)])
  have hignore : Slot.menuLabel.Reads (.name "IGNORE") (.token (Text.upper "IGNORE")) :=
    .token (by decide) (by simp [Slot.menuLabel, hupper "IGNORE" (by decide)])
  have hrow : Row [.token ["ENDPOPUP"]] [⟨.name "ENDPOPUP", default⟩] _ := .single hclose
  have hmember := reading_token (.inr rfl) hrow .done
  cases stage with
  | header => exact ⟨[], [], .done⟩
  | member => exact ⟨_, _, hmember⟩
  | headerLabel => exact ⟨⟨.name "IGNORE", default⟩ :: _, _, .take hignore hmember⟩
  | memberLabel => exact ⟨⟨.name "IGNORE", default⟩ :: _, _, .take hignore hmember⟩

theorem viable_cons : Viable stage.Reading (arg :: args) ↔
    (∃ v, (stage.slot arg).Reads arg.raw v) ∧ Viable (stage.next arg).Reading args := by
  constructor
  · rintro ⟨more, out, h⟩
    cases h with
    | take hv hrest => exact ⟨⟨_, hv⟩, more, _, hrest⟩
  · rintro ⟨⟨v, hv⟩, more, out, hrest⟩
    exact ⟨more, _, .take hv hrest⟩

theorem breaks_nil : Breaks stage.Reading [] endPos pos ↔ stage ≠ .header ∧ pos = endPos := by
  constructor
  · intro h
    cases h with
    | short _ hnone =>
      refine ⟨?_, rfl⟩
      rintro rfl
      exact hnone [] .done
    | wrong _ heq => simp at heq
  · rintro ⟨hstage, rfl⟩
    refine .short (viable_nil stage) fun out h => ?_
    cases h
    exact hstage rfl

theorem breaks_cons : Breaks stage.Reading (arg :: args) endPos pos ↔
    (∀ v, ¬ (stage.slot arg).Reads arg.raw v) ∧ pos = arg.pos ∨
      (∃ v, (stage.slot arg).Reads arg.raw v) ∧ Breaks (stage.next arg).Reading args endPos pos := by
  constructor
  · intro h
    cases h with
    | short hviable hnone =>
      obtain ⟨⟨v, hv⟩, hrest⟩ := viable_cons.mp hviable
      exact .inr ⟨⟨v, hv⟩, .short hrest fun out h => hnone _ (.take hv h)⟩
    | wrong before heq hbefore hbad =>
      -- The first argument is the wrong one, or it is among those before it.
      cases before with
      | nil =>
        obtain ⟨rfl, rfl⟩ := List.cons.inj heq
        exact .inl ⟨fun v hv => hbad (viable_cons.mpr ⟨⟨v, hv⟩, viable_nil _⟩), rfl⟩
      | cons first before =>
        obtain ⟨rfl, rfl⟩ := List.cons.inj heq
        obtain ⟨hv, hrest⟩ := viable_cons.mp hbefore
        exact .inr ⟨hv, .wrong before rfl hrest fun h => hbad (viable_cons.mpr ⟨hv, h⟩)⟩
  · rintro (⟨hnone, rfl⟩ | ⟨⟨v, hv⟩, hrest⟩)
    · refine .wrong [] rfl (viable_nil stage) fun h => ?_
      obtain ⟨⟨v, hv⟩, -⟩ := viable_cons.mp h
      exact hnone v hv
    · cases hrest with
      | short hviable hnone =>
        refine .short (viable_cons.mpr ⟨⟨v, hv⟩, hviable⟩) fun out h => ?_
        cases h with
        | take _ h => exact hnone _ h
      | wrong before heq hbefore hbad =>
        refine .wrong (arg :: before) (congrArg _ heq) (viable_cons.mpr ⟨⟨v, hv⟩, hbefore⟩) fun h => ?_
        exact hbad (viable_cons.mp h).2

theorem checkMenu_eq_error :
    (∃ cause, checkMenu endPos stage args = .error (cause, pos)) ↔ Breaks stage.Reading args endPos pos := by
  induction args generalizing stage with
  | nil =>
    rw [breaks_nil]
    cases stage <;> simp [checkMenu, eq_comm]
  | cons arg args ih => rw [checkMenu_cons, takeThen_eq_error, ih, breaks_cons]

end MenuStage

/-! ## Signatures -/

/-- The argument lists that a signature declares. -/
def Signature.Language : Signature → Translation
  | .fixed slots => Row slots
  | .optional slots => fun args out => ∃ n, Row (slots.take n) args out
  | .repeating group => Repeats (Row group)
  | .menu => Repeats menuPopup
  | .plain => fun _ _ => False

/-- Where an argument list is at fault. Its length comes first; only menus are read from left to right. -/
inductive Signature.FaultAt (args : List RawArg) (endPos : Position) : Signature → Position → Prop where
  | plain : FaultAt args endPos .plain endPos
  | surplus {slots : List Slot} {arg : RawArg} : args[slots.length]? = some arg →
      FaultAt args endPos (.fixed slots) arg.pos
  | missing {slots : List Slot} : args.length < slots.length → FaultAt args endPos (.fixed slots) endPos
  | misfit {slots : List Slot} {pos : Position} : args.length = slots.length → FirstMisfit slots args pos →
      FaultAt args endPos (.fixed slots) pos
  | optionalSurplus {slots : List Slot} {arg : RawArg} : args[slots.length]? = some arg →
      FaultAt args endPos (.optional slots) arg.pos
  | optionalMisfit {slots : List Slot} {pos : Position} : args.length ≤ slots.length → FirstMisfit slots args pos →
      FaultAt args endPos (.optional slots) pos
  | incomplete {group : List Slot} : ¬ group.length ∣ args.length → FaultAt args endPos (.repeating group) endPos
  | groupMisfit {group : List Slot} {n : Nat} {pos : Position} : args.length = n * group.length →
      FirstMisfit (List.replicate n group).flatten args pos → FaultAt args endPos (.repeating group) pos
  | menu {pos : Position} : Breaks (Repeats menuPopup) args endPos pos → FaultAt args endPos .menu pos

/-- A check accepts what it should and fails where it should. -/
structure Decides (r : Fit (List Argument)) (accepts : List Argument → Prop) (fails : Position → Prop) : Prop where
  ok (out : List Argument) : r = .ok out ↔ accepts out
  error (pos : Position) : (∃ cause, r = .error (cause, pos)) ↔ fails pos

section

variable {c : Command} {slots group : List Slot} {args : List RawArg} {endPos : Position}

theorem decides_error {cause : Malformed} {pos : Position} {accepts : List Argument → Prop} {fails : Position → Prop}
    (hnone : ∀ out, ¬ accepts out) (hpos : ∀ pos', fails pos' ↔ pos' = pos) :
    Decides (.error (cause, pos)) accepts fails where
  ok out := by simp [hnone]
  error pos' := by simp [hpos, eq_comm]

theorem decides_fixed (hsig : c.signature = .fixed slots) :
    Decides (c.checkArguments args endPos) (Signature.Language (.fixed slots) args)
      (Signature.FaultAt args endPos (.fixed slots)) := by
  simp only [Command.checkArguments, hsig]
  cases harg : args[slots.length]? with
  | some arg =>
    obtain ⟨hmany, -⟩ := List.getElem?_eq_some_iff.mp harg
    refine decides_error (fun out h => ?_) (fun pos => ⟨fun h => ?_, ?_⟩)
    · have := (Row.length_eq h).1
      omega
    · cases h with
      | surplus harg' => rw [Option.some.inj (harg.symm.trans harg')]
      | missing hfew => omega
      | misfit hlen => omega
    · rintro rfl
      exact .surplus harg
  | none =>
    have hle := List.getElem?_eq_none_iff.mp harg
    dsimp only [Option.map]
    split
    · rename_i hfew
      refine decides_error (fun out h => ?_) (fun pos => ⟨fun h => ?_, ?_⟩)
      · have := (Row.length_eq h).1
        omega
      · cases h with
        | surplus harg' => simp [harg] at harg'
        | missing => rfl
        | misfit hlen => omega
      · rintro rfl
        exact .missing hfew
    · rename_i hfew
      have hlen : args.length = slots.length := by omega
      refine ⟨fun out => ?_, fun pos => ?_⟩
      · rw [convertAll_eq_ok hle, List.take_of_length_le (Nat.le_of_eq hlen.symm)]
        rfl
      · rw [convertAll_eq_error]
        refine ⟨fun h => .misfit hlen h, fun h => ?_⟩
        cases h with
        | surplus harg' => simp [harg] at harg'
        | missing hfew' => exact absurd hfew' hfew
        | misfit _ h => exact h

theorem decides_optional (hsig : c.signature = .optional slots) :
    Decides (c.checkArguments args endPos) (Signature.Language (.optional slots) args)
      (Signature.FaultAt args endPos (.optional slots)) := by
  simp only [Command.checkArguments, hsig]
  cases harg : args[slots.length]? with
  | some arg =>
    obtain ⟨hmany, -⟩ := List.getElem?_eq_some_iff.mp harg
    refine decides_error (fun out h => ?_) (fun pos => ⟨fun h => ?_, ?_⟩)
    · obtain ⟨n, hn⟩ := h
      have := hn.length_eq.1
      rw [List.length_take] at this
      omega
    · cases h with
      | optionalSurplus harg' => rw [Option.some.inj (harg.symm.trans harg')]
      | optionalMisfit hlen => omega
    · rintro rfl
      exact .optionalSurplus harg
  | none =>
    have hle := List.getElem?_eq_none_iff.mp harg
    refine ⟨fun out => ?_, fun pos => ?_⟩
    · rw [Option.map, convertAll_eq_ok hle]
      refine ⟨fun h => ⟨_, h⟩, ?_⟩
      rintro ⟨n, hn⟩
      have hlen := hn.length_eq.1
      rwa [hlen, List.length_take, ← List.take_eq_take_min]
    · rw [Option.map, convertAll_eq_error]
      refine ⟨fun h => .optionalMisfit hle h, fun h => ?_⟩
      cases h with
      | optionalSurplus harg' => simp [harg] at harg'
      | optionalMisfit _ h => exact h

theorem flatten_replicate_eq {n k : Nat} (h : n * group.length = k * group.length) :
    (List.replicate n group).flatten = (List.replicate k group).flatten := by
  rcases Nat.eq_zero_or_pos group.length with hzero | hpos
  · simp [List.eq_nil_of_length_eq_zero hzero]
  · rw [Nat.eq_of_mul_eq_mul_right hpos h]

theorem decides_repeating (hsig : c.signature = .repeating group) :
    Decides (c.checkArguments args endPos) (Signature.Language (.repeating group) args)
      (Signature.FaultAt args endPos (.repeating group)) := by
  have hlength : ∀ n, (List.replicate n group).flatten.length = n * group.length := by simp
  simp only [Command.checkArguments, hsig]
  split
  · rename_i hmod
    rw [ne_eq, ← Nat.dvd_iff_mod_eq_zero] at hmod
    refine decides_error (fun out h => ?_) (fun pos => ⟨fun h => ?_, ?_⟩)
    · obtain ⟨n, hn⟩ := repeats_row_iff.mp h
      exact hmod ⟨n, by rw [hn.length_eq.1, hlength, Nat.mul_comm]⟩
    · cases h with
      | incomplete => rfl
      | groupMisfit hlen => exact absurd ⟨_, hlen.trans (Nat.mul_comm _ _)⟩ hmod
    · rintro rfl
      exact .incomplete hmod
  · rename_i hmod
    rw [ne_eq, not_not, ← Nat.dvd_iff_mod_eq_zero] at hmod
    have hlen : args.length = args.length / group.length * group.length := (Nat.div_mul_cancel hmod).symm
    -- However often the group is thought to be repeated, the slots are the same.
    have hslots : ∀ {n}, args.length = n * group.length →
        (List.replicate n group).flatten = (List.replicate (args.length / group.length) group).flatten :=
      fun hn => flatten_replicate_eq (hn.symm.trans hlen)
    refine ⟨fun out => ?_, fun pos => ?_⟩
    · rw [convertAll_eq_ok (by rw [hlength, ← hlen]), List.take_of_length_le (by rw [hlength, ← hlen])]
      refine ⟨fun h => repeats_row_iff.mpr ⟨_, h⟩, fun h => ?_⟩
      obtain ⟨n, hn⟩ := repeats_row_iff.mp h
      rwa [← hslots (hn.length_eq.1.trans (hlength n))]
    · rw [convertAll_eq_error]
      refine ⟨fun h => .groupMisfit hlen h, fun h => ?_⟩
      cases h with
      | incomplete h => exact absurd hmod h
      | groupMisfit hn h => rwa [← hslots hn]

theorem decides_menu (hsig : c.signature = .menu) :
    Decides (c.checkArguments args endPos) (Signature.Language .menu args) (Signature.FaultAt args endPos .menu) := by
  have hread : MenuStage.header.Reading = Repeats menuPopup :=
    funext₂ fun _ _ => propext MenuStage.reading_header_iff
  simp only [Command.checkArguments, hsig]
  refine ⟨fun out => ?_, fun pos => ?_⟩
  · rw [MenuStage.checkMenu_eq_ok, hread]
    rfl
  · rw [MenuStage.checkMenu_eq_error, hread]
    refine ⟨.menu, fun h => ?_⟩
    cases h with
    | menu h => exact h

theorem Command.decides (c : Command) (args : List RawArg) (endPos : Position) :
    Decides (c.checkArguments args endPos) (c.signature.Language args) (c.signature.FaultAt args endPos) := by
  cases hsig : c.signature with
  | fixed slots => exact decides_fixed hsig
  | optional slots => exact decides_optional hsig
  | repeating group => exact decides_repeating hsig
  | menu => exact decides_menu hsig
  | plain =>
    simp only [checkArguments, hsig]
    refine decides_error (fun _ h => h) (fun pos => ⟨fun h => ?_, ?_⟩)
    · cases h
      rfl
    · rintro rfl
      exact .plain

end

/-! ## Lengths -/

theorem Repeats.length_eq {R : Translation} (hR : ∀ {xs as}, R xs as → as.length = xs.length) {args : List RawArg}
    {out : List Argument} (h : Repeats R args out) : out.length = args.length := by
  induction h with
  | nil => rfl
  | cons hfirst _ ih => simp [hR hfirst, ih]

theorem menuPopup_length_eq {args : List RawArg} {out : List Argument} (h : menuPopup args out) :
    out.length = args.length := by
  obtain ⟨hentry, ⟨hmembers, hclose⟩⟩ := h
  have hlength := hmembers.length_eq fun hmember => hmember.elim (fun h => h.length_eq.2) (fun h => h.length_eq.2)
  simp [hentry.length_eq.2, hlength, hclose.length_eq.2]

theorem Signature.Language.length_eq {sig : Signature} {args : List RawArg} {out : List Argument}
    (h : sig.Language args out) : out.length = args.length := by
  cases sig with
  | fixed slots => exact (Row.length_eq h).2
  | optional slots =>
    obtain ⟨n, hn⟩ := h
    exact hn.length_eq.2
  | repeating group => exact Repeats.length_eq (fun h => h.length_eq.2) h
  | menu => exact Repeats.length_eq menuPopup_length_eq h
  | plain => exact h.elim

/-- The check of an argument list accepts the language of the command, and otherwise fails where the list is at fault. -/
theorem checkArguments_decides_language (name : String) (args : List RawArg) (endPos : Position) :
    (∀ out, checkArguments name args endPos = .ok out ↔
      ∃ c, Command.ofName? name = some c ∧ c.signature.Language args out) ∧
    (∀ out, checkArguments name args endPos = .ok out → out.length = args.length) ∧
    ∀ pos, (∃ cause, checkArguments name args endPos = .error (cause, pos)) ↔
      Command.ofName? name = none ∧ pos = endPos ∨
        ∃ c, Command.ofName? name = some c ∧ c.signature.FaultAt args endPos pos := by
  unfold checkArguments
  cases Command.ofName? name with
  | none => simp [eq_comm]
  | some c =>
    have hdecides := c.decides args endPos
    refine ⟨fun out => ?_, fun out hout => ((hdecides.ok out).mp hout).length_eq, fun pos => ?_⟩
    · simpa using hdecides.ok out
    · simpa using hdecides.error pos

end GraphicsBatch
