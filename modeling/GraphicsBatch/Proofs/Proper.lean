import Mathlib.Algebra.Ring.Int.Defs
import Mathlib.Data.List.Forall2
import GraphicsBatch.Language.Parse

/-!
# What may stand in a program

Names, literals, texts and argument lists, said without the reader. The last two parts show that the
argument lists that pass the check are exactly such lists.
-/

namespace GraphicsBatch

open Source

theorem Except.bind_eq_ok {ε α β : Type} {x : Except ε α} {f : α → Except ε β} {b : β} :
    (x >>= f) = .ok b ↔ ∃ a, x = .ok a ∧ f a = .ok b := by
  cases x with
  | error e => simp [Bind.bind, Except.bind]
  | ok a => simp [Bind.bind, Except.bind]

theorem Except.exists_of_map_toOption {ε α β : Type} {x : Except ε α} {f : α → β} {b : β}
    (h : x.toOption.map f = some b) : ∃ a, x = .ok a ∧ f a = b := by
  cases x with
  | error e => cases h
  | ok a => exact ⟨a, rfl, Option.some.inj h⟩

/-! ## Names, texts and keys -/

/-- A letter or underscore first, then letters, underscores and digits. -/
def isIdentifier (s : String) : Bool :=
  match s.toList with
  | c :: cs => isNameStart c && cs.all isNameChar
  | [] => false

def IsName (s : String) : Prop := isIdentifier s = true ∧ isReserved s = false

instance : DecidablePred IsName := fun s =>
  inferInstanceAs (Decidable (isIdentifier s = true ∧ isReserved s = false))

/-- A text that can be written between quotes. -/
def IsQuotable (s : String) : Prop := '"' ∉ s.toList ∧ '\n' ∉ s.toList

instance : DecidablePred IsQuotable := fun s =>
  inferInstanceAs (Decidable ('"' ∉ s.toList ∧ '\n' ∉ s.toList))

/-- A key of a visible ASCII character. -/
def PhysicalKey.IsVisible (k : PhysicalKey) : Prop := '!' ≤ k.char ∧ k.char ≤ '~'

instance : DecidablePred PhysicalKey.IsVisible := fun k =>
  inferInstanceAs (Decidable ('!' ≤ k.char ∧ k.char ≤ '~'))

/-! ## Argument lists -/

/-- The values that a slot takes. -/
def Slot.Takes (slot : Slot) : Value → Prop
  | .nothing => False
  | .int n => (slot.kind = .integer ∨ slot.kind = .key) ∧ 0 ≤ n ∧ n ≤ Parse.maxLiteral
  | .text s => slot.kind = .string ∧ IsQuotable s
  | .var x => (slot.kind = .integer ∨ slot.kind = .key ∨ slot.kind = .variable) ∧ IsName x
  | .token t => slot.kind ≠ .string ∧ t ∈ slot.choices
  | .label l => slot.kind = .label ∧ IsName l
  | .key k => slot.kind = .key ∧ k.IsVisible ∧ k.char ≠ '"'

instance (slot : Slot) : DecidablePred slot.Takes := fun v => by
  cases v <;> dsimp only [Slot.Takes] <;> infer_instance

def Slot.Holds (slot : Slot) (a : Argument) : Prop := a.kind = slot.kind ∧ slot.Takes a.value

instance (slot : Slot) : DecidablePred slot.Holds := fun a =>
  inferInstanceAs (Decidable (a.kind = slot.kind ∧ slot.Takes a.value))

/-- What is left of the arguments of a menu at some stage of its reading. -/
inductive MenuArgs : MenuStage → List Argument → Prop where
  | done : MenuArgs .header []
  | header {a : Argument} {as : List Argument} :
      Slot.str.Holds a → MenuArgs .headerLabel as → MenuArgs .header (a :: as)
  | headerLabel {a : Argument} {as : List Argument} :
      Slot.menuLabel.Holds a → MenuArgs .member as → MenuArgs .headerLabel (a :: as)
  | member {a : Argument} {as : List Argument} :
      Slot.str.Holds a → MenuArgs .memberLabel as → MenuArgs .member (a :: as)
  | memberLabel {a : Argument} {as : List Argument} :
      Slot.menuLabel.Holds a → MenuArgs .member as → MenuArgs .memberLabel (a :: as)
  | separator {as : List Argument} :
      MenuArgs .member as → MenuArgs .member (⟨.token, .token "SEPARATOR"⟩ :: as)
  | close {as : List Argument} :
      MenuArgs .header as → MenuArgs .member (⟨.token, .token "ENDPOPUP"⟩ :: as)

/-- The argument lists of a signature. -/
def Signature.Admits : Signature → List Argument → Prop
  | .fixed slots, args => List.Forall₂ Slot.Holds slots args
  | .optional slots, args => ∃ n, List.Forall₂ Slot.Holds (slots.take n) args
  | .repeating group, args => ∃ n, List.Forall₂ Slot.Holds (List.replicate n group).flatten args
  | .menu, args => MenuArgs .header args
  | .plain, _ => False

/-- All slots that a signature has. -/
def Signature.slots : Signature → List Slot
  | .fixed slots | .optional slots => slots
  | .repeating group => group
  | .menu => [.str, .menuLabel, .token ["SEPARATOR"], .token ["ENDPOPUP"]]
  | .plain => []

theorem forall₂_exists_mem {α β : Type} {R : α → β → Prop} {as : List α} {bs : List β} {b : β}
    (h : List.Forall₂ R as bs) (hb : b ∈ bs) : ∃ a ∈ as, R a b := by
  induction h with
  | nil => simp at hb
  | cons hab _ ih =>
    rcases List.mem_cons.mp hb with rfl | hb
    · exact ⟨_, List.mem_cons_self, hab⟩
    · obtain ⟨a, ha, hR⟩ := ih hb
      exact ⟨a, List.mem_cons_of_mem _ ha, hR⟩

theorem MenuArgs.exists_slot {stage : MenuStage} {args : List Argument} {a : Argument}
    (h : MenuArgs stage args) (ha : a ∈ args) : ∃ slot ∈ Signature.menu.slots, slot.Holds a := by
  induction h with
  | done => simp at ha
  | header hs _ ih | member hs _ ih =>
    rcases List.mem_cons.mp ha with rfl | ha
    · exact ⟨.str, by simp [Signature.slots], hs⟩
    · exact ih ha
  | headerLabel hs _ ih | memberLabel hs _ ih =>
    rcases List.mem_cons.mp ha with rfl | ha
    · exact ⟨.menuLabel, by simp [Signature.slots], hs⟩
    · exact ih ha
  | separator _ ih =>
    rcases List.mem_cons.mp ha with rfl | ha
    · exact ⟨.token ["SEPARATOR"], by simp [Signature.slots], by decide⟩
    · exact ih ha
  | close _ ih =>
    rcases List.mem_cons.mp ha with rfl | ha
    · exact ⟨.token ["ENDPOPUP"], by simp [Signature.slots], by decide⟩
    · exact ih ha

theorem Signature.Admits.exists_slot {sig : Signature} {args : List Argument} {a : Argument}
    (h : sig.Admits args) (ha : a ∈ args) : ∃ slot ∈ sig.slots, slot.Holds a := by
  cases sig with
  | fixed slots => exact forall₂_exists_mem h ha
  | optional slots =>
    obtain ⟨n, h⟩ := h
    obtain ⟨slot, hslot, hold⟩ := forall₂_exists_mem h ha
    exact ⟨slot, List.mem_of_mem_take hslot, hold⟩
  | repeating group =>
    obtain ⟨n, h⟩ := h
    obtain ⟨slot, hslot, hold⟩ := forall₂_exists_mem h ha
    obtain ⟨g, hg, hmem⟩ := List.mem_flatten.mp hslot
    rw [List.eq_of_mem_replicate hg] at hmem
    exact ⟨slot, hmem, hold⟩
  | menu => exact MenuArgs.exists_slot h ha
  | plain => exact h.elim

/-- Bare tokens are chosen in token slots; the label of a menu entry may be `IGNORE`. -/
def Slot.choicesFit (c : Command) (slot : Slot) : Bool :=
  match slot.kind with
  | .token => slot.choices.all bareTokens.contains
  | .label => slot.choices = [] || (c = .setMenu && slot.choices = ["IGNORE"])
  | _ => slot.choices = []

theorem Command.slots_choicesFit (c : Command) : c.signature.slots.all (Slot.choicesFit c) = true := by
  cases c <;> decide

/-! ## The forms of an argument -/

def Value.IsNumber (v : Value) : Prop :=
  (∃ n : Int, v = .int n ∧ 0 ≤ n ∧ n ≤ 2 ^ 63 - 1) ∨ ∃ x, v = .var x

/-- The forms that an argument of some kind can have in the list of a command. -/
def Kind.Allows (c : Command) : Kind → Value → Prop
  | .integer, v => v.IsNumber
  | .key, v => v.IsNumber ∨ ∃ k, v = .key k ∧ k.IsVisible
  | .string, v => ∃ s, v = .text s
  | .variable, v => ∃ x, v = .var x
  | .label, v => (∃ l, v = .label l) ∨ c = .setMenu ∧ v = .token "IGNORE"
  | .token, v => ∃ t ∈ bareTokens, v = .token t

theorem Slot.Takes.allows {c : Command} {slot : Slot} {v : Value} (hfit : slot.choicesFit c = true)
    (h : slot.Takes v) : slot.kind.Allows c v := by
  obtain ⟨kind, choices⟩ := slot
  cases v with
  | nothing => exact h.elim
  | int n =>
    obtain ⟨rfl | rfl, hn⟩ := h
    · exact .inl ⟨n, rfl, hn⟩
    · exact .inl (.inl ⟨n, rfl, hn⟩)
  | text s =>
    obtain ⟨rfl, -⟩ := h
    exact ⟨s, rfl⟩
  | var x =>
    obtain ⟨rfl | rfl | rfl, -⟩ := h
    · exact .inr ⟨x, rfl⟩
    · exact .inl (.inr ⟨x, rfl⟩)
    · exact ⟨x, rfl⟩
  | label l =>
    obtain ⟨rfl, -⟩ := h
    exact .inl ⟨l, rfl⟩
  | key k =>
    obtain ⟨rfl, hk, -⟩ := h
    exact .inr ⟨k, rfl, hk⟩
  | token t =>
    -- A bare token stands in a token slot, or it is the `IGNORE` of a menu entry.
    obtain ⟨hstr, ht⟩ := h
    simp only [Slot.choicesFit] at hfit
    cases kind with
    | token => exact ⟨t, by simpa using List.all_eq_true.mp hfit t ht, rfl⟩
    | label =>
      simp only [Bool.or_eq_true, Bool.and_eq_true, decide_eq_true_eq] at hfit
      rcases hfit with rfl | ⟨hc, rfl⟩
      · simp at ht
      · exact .inr ⟨hc, by rw [List.mem_singleton.mp ht]⟩
    | _ => simp_all

theorem Command.allows_of_admits {c : Command} {args : List Argument} {a : Argument}
    (h : c.signature.Admits args) (ha : a ∈ args) : a.kind.Allows c a.value := by
  obtain ⟨slot, hslot, hkind, htakes⟩ := h.exists_slot ha
  rw [hkind]
  exact htakes.allows (List.all_eq_true.mp c.slots_choicesFit slot hslot)

/-! ## Statements and lines -/

def Operand.Proper : Operand → Prop
  | .literal n => n ≤ Parse.maxLiteral
  | .var x => IsName x

def Expr.Proper (e : Expr) : Prop :=
  e.first.Proper ∧ ∀ op second, e.more = some (op, second) → second.Proper

def Action.Proper : Action → Prop
  | .label name => IsName name
  | .call c args => c.signature.Admits args
  | .plain c => c.isPlain = true
  | .goto l | .gosub l => IsName l
  | .back | .finish => True
  | .cond lhs _ rhs _ => lhs.Proper ∧ rhs.Proper
  | .assign v e => IsName v ∧ e.Proper

/-- The labels that a statement leads to. -/
def Action.mentions : Action → List String
  | .goto l | .gosub l => [l]
  | .call _ args => args.filterMap fun a => match a.value with
    | .label l => some l
    | _ => none
  | _ => []

/-- The upper-case name of the label that a statement is. -/
def Action.labelKey? : Action → Option String
  | .label name => some (Text.upper name)
  | _ => none

def labelKeys (sts : List Statement) : List String := sts.filterMap (·.action.labelKey?)

/-- Lines of statements that make a program. -/
structure ProperLines (lines : List (List Statement)) : Prop where
  proper : ∀ st ∈ lines.flatten, st.action.Proper
  unique : (labelKeys lines.flatten).Nodup
  defined : ∀ st ∈ lines.flatten, ∀ l ∈ st.action.mentions, Text.upper l ∈ labelKeys lines.flatten

/-! ## The check accepts nothing else -/

/-- An argument that the reader can come across. -/
def Raw.Readable : Raw → Prop
  | .integer n => 0 ≤ n.value ∧ n.value ≤ Parse.maxLiteral
  | .text s => IsQuotable s
  | .name s => isIdentifier s = true

theorem readPhysicalKey_visible {s : String} {k : PhysicalKey} (h : readPhysicalKey s = some k) :
    k.IsVisible ∧ k.char ∈ s.toList := by
  unfold readPhysicalKey at h
  dsimp only at h
  split at h
  · rename_i c hs
    split at h
    · rename_i hc
      cases h
      exact ⟨by simpa [PhysicalKey.IsVisible] using hc, by simp [hs]⟩
    · cases h
  · rename_i c hs
    split at h
    · rename_i hc
      cases h
      exact ⟨by simpa [PhysicalKey.IsVisible] using hc, by simp [hs]⟩
    · cases h
  · cases h

theorem Slot.convert_name {slot : Slot} {s : String} {pos : Position} {v : Value}
    (h : slot.convert ⟨.name s, pos⟩ = .ok v) :
    slot.kind ≠ .string ∧
      (v = .token (Text.upper s) ∧ Text.upper s ∈ slot.choices ∨
        slot.kind ≠ .token ∧ isReserved s = false ∧ v = if slot.kind = .label then .label s else .var s) := by
  obtain ⟨kind, choices⟩ := slot
  cases kind with
  | string => cases h
  | token =>
    simp only [Slot.convert] at h
    split at h
    · rename_i hc
      cases h
      exact ⟨by simp, .inl ⟨rfl, by simpa using hc⟩⟩
    · cases h
  | _ =>
    simp only [Slot.convert] at h
    split at h
    · rename_i hc
      cases h
      exact ⟨by simp, .inl ⟨rfl, by simpa using hc⟩⟩
    · split at h
      · cases h
      · rename_i hr
        cases h
        exact ⟨by simp, .inr ⟨by simp, by simpa using hr, rfl⟩⟩

theorem Slot.convert_takes {slot : Slot} {arg : RawArg} {v : Value} (hraw : arg.raw.Readable)
    (h : slot.convert arg = .ok v) : slot.Takes v := by
  obtain ⟨raw, pos⟩ := arg
  cases raw with
  | integer n =>
    obtain ⟨kind, choices⟩ := slot
    cases kind <;> cases h
    · exact ⟨.inl rfl, hraw⟩
    · exact ⟨.inr rfl, hraw⟩
  | text s =>
    obtain ⟨kind, choices⟩ := slot
    cases kind with
    | string =>
      cases h
      exact ⟨rfl, hraw⟩
    | key =>
      simp only [Slot.convert] at h
      cases hk : readPhysicalKey s with
      | none => simp [hk] at h
      | some k =>
        simp only [hk, Except.ok.injEq] at h
        subst h
        -- The character of a key is one of its text, and a quoted text has no quote in it.
        obtain ⟨hv, hmem⟩ := readPhysicalKey_visible hk
        exact ⟨rfl, hv, fun hq => hraw.1 (hq ▸ hmem)⟩
    | _ => cases h
  | name s =>
    obtain ⟨hstr, ⟨rfl, hc⟩ | ⟨htok, hres, rfl⟩⟩ := Slot.convert_name h
    · exact ⟨hstr, hc⟩
    · split
      · rename_i hl
        exact ⟨hl, hraw, hres⟩
      · refine ⟨?_, hraw, hres⟩
        obtain ⟨kind, choices⟩ := slot
        cases kind <;> simp_all

theorem convertAll_holds {slots : List Slot} {args : List RawArg} {out : List Argument}
    (hraw : ∀ a ∈ args, a.raw.Readable) (hlen : args.length ≤ slots.length)
    (h : convertAll slots args = .ok out) : List.Forall₂ Slot.Holds (slots.take args.length) out := by
  induction slots generalizing args out with
  | nil =>
    obtain rfl : args = [] := List.eq_nil_of_length_eq_zero (by simpa using hlen)
    cases h
    exact .nil
  | cons slot slots ih =>
    cases args with
    | nil =>
      cases h
      exact .nil
    | cons arg args =>
      simp only [convertAll, Except.bind_eq_ok] at h
      obtain ⟨v, hv, rest, hrest, h⟩ := h
      cases h
      have htake := ih (fun a ha => hraw a (List.mem_cons_of_mem _ ha)) (by simpa using hlen) hrest
      exact .cons ⟨rfl, Slot.convert_takes (hraw arg List.mem_cons_self) hv⟩ htake

theorem menuToken?_eq_some {raw : Raw} {t : String} (h : menuToken? raw = some t) :
    t = "SEPARATOR" ∨ t = "ENDPOPUP" := by
  unfold menuToken? at h
  split at h
  · dsimp only at h
    split at h
    · rename_i ht
      cases h
      simpa using ht
    · cases h
  · cases h

theorem checkMenu_menuArgs {endPos : Position} {stage : MenuStage} {args : List RawArg}
    {out : List Argument} (hraw : ∀ a ∈ args, a.raw.Readable)
    (h : checkMenu endPos stage args = .ok out) : MenuArgs stage out := by
  induction args generalizing stage out with
  | nil =>
    cases stage <;> cases h
    exact .done
  | cons arg args ih =>
    have hrest : ∀ a ∈ args, a.raw.Readable := fun a ha => hraw a (List.mem_cons_of_mem _ ha)
    simp only [checkMenu, Except.bind_eq_ok] at h
    obtain ⟨v, hv, rest, hr, h⟩ := h
    cases h
    have htakes := Slot.convert_takes (hraw arg List.mem_cons_self) hv
    have ih := ih hrest hr
    cases stage with
    | header => exact .header ⟨rfl, htakes⟩ ih
    | headerLabel => exact .headerLabel ⟨rfl, htakes⟩ ih
    | memberLabel => exact .memberLabel ⟨rfl, htakes⟩ ih
    | member =>
      simp only [MenuStage.slot, MenuStage.next] at htakes ih ⊢
      cases ht : menuToken? arg.raw with
      | none =>
        simp only [ht] at htakes ih ⊢
        exact .member ⟨rfl, htakes⟩ ih
      | some t =>
        simp only [ht] at htakes ih ⊢
        -- A slot of a single token can only hold that token.
        have hv : v = .token t := by
          cases v <;> simp_all [Slot.Takes, Slot.token]
        subst hv
        obtain rfl | rfl := menuToken?_eq_some ht
        · exact .separator ih
        · exact .close ih

/-- Argument lists that pass the check fit the signature of their command. -/
theorem Command.checkArguments_admits {c : Command} {args : List RawArg} {endPos : Position}
    {out : List Argument} (hraw : ∀ a ∈ args, a.raw.Readable)
    (h : c.checkArguments args endPos = .ok out) : c.signature.Admits out := by
  unfold Command.checkArguments at h
  dsimp only at h
  cases hsig : c.signature with
  | plain => simp [hsig] at h
  | menu =>
    rw [hsig] at h
    exact checkMenu_menuArgs hraw h
  | repeating group =>
    simp only [hsig] at h
    split at h
    · cases h
    · rename_i hmod
      refine ⟨args.length / group.length, ?_⟩
      -- All groups are complete, so there are as many slots as arguments.
      have hlen : (List.replicate (args.length / group.length) group).flatten.length = args.length := by
        rw [List.length_flatten, List.map_replicate, List.sum_replicate_nat]
        exact Nat.div_mul_cancel (Nat.dvd_of_mod_eq_zero (by simpa using hmod))
      have := convertAll_holds hraw (Nat.le_of_eq hlen.symm) h
      rwa [List.take_of_length_le (Nat.le_of_eq hlen)] at this
  | fixed slots =>
    simp only [hsig] at h
    split at h
    · cases h
    · rename_i hmany
      have hle : args.length ≤ slots.length := by simpa using hmany
      split at h
      · cases h
      · rename_i hfew
        have := convertAll_holds hraw hle h
        rwa [List.take_of_length_le (by omega)] at this
  | optional slots =>
    simp only [hsig] at h
    split at h
    · cases h
    · rename_i hmany
      exact ⟨args.length, convertAll_holds hraw (by simpa using hmany) h⟩

/-! ## The check accepts all of them -/

def PhysicalKey.text (k : PhysicalKey) : String := (if k.ctrl then "^" else "") ++ k.char.toString

/-- An argument as it stands in the source. The lack of a value is not written, and neither is an integer that is too
long. -/
def Value.raw : Value → Raw
  | .nothing => .name ""
  | .int n => (Text.Numeral.ofInt? n).elim (.name "") .integer
  | .text s => .text s
  | .var x | .token x | .label x => .name x
  | .key k => .text k.text

theorem Text.Numeral.ofInt?_natCast {n : Nat} (h : (toString n).length ≤ digitLimit) : ofInt? n = some (ofNat n h) := by
  unfold ofInt?
  split
  · rename_i text htext
    rw [writeInt_ofNat h] at htext
    cases htext
    rfl
  · rename_i hf
    rw [writeInt_ofNat h] at hf
    cases hf

theorem Value.raw_int {n : Nat} (h : n ≤ Parse.maxLiteral) :
    (Value.int n).raw = .integer (.ofNat n (Parse.length_le_of_le_maxLiteral h)) := by
  rw [Value.raw, Text.Numeral.ofInt?_natCast (Parse.length_le_of_le_maxLiteral h)]
  rfl

theorem readPhysicalKey_text {k : PhysicalKey} (h : k.IsVisible) : readPhysicalKey k.text = some k := by
  obtain ⟨c, ctrl⟩ := k
  obtain ⟨h1, h2⟩ := h
  dsimp only at h1 h2
  cases ctrl with
  | false =>
    have hl : (PhysicalKey.text ⟨c, false⟩).toList = [c] := by simp [PhysicalKey.text]
    simp [readPhysicalKey, hl, h1, h2]
  | true =>
    have hl : (PhysicalKey.text ⟨c, true⟩).toList = ['^', c] := by simp [PhysicalKey.text]
    simp [readPhysicalKey, hl, h1, h2]

theorem bareTokens_spec : ∀ t ∈ bareTokens, Text.upper t = t ∧ isIdentifier t = true := by decide +kernel

theorem upper_ne_bareToken {s t : String} (hs : isReserved s = false) (ht : t ∈ bareTokens) :
    Text.upper s ≠ t := by
  rintro rfl
  have : isReserved s = true := by simp [isReserved, reservedWords, ht]
  rw [hs] at this
  cases this

theorem Slot.Takes.mem_bareTokens {c : Command} {slot : Slot} {t : String} (hfit : slot.choicesFit c = true)
    (h : slot.Takes (.token t)) : t ∈ bareTokens := by
  obtain ⟨kind, choices⟩ := slot
  obtain ⟨hstr, ht⟩ := h
  cases kind with
  | token => simpa using List.all_eq_true.mp hfit t ht
  | label =>
    simp only [Slot.choicesFit, Bool.or_eq_true, Bool.and_eq_true, decide_eq_true_eq] at hfit
    rcases hfit with rfl | ⟨-, rfl⟩
    · simp at ht
    · rw [List.mem_singleton.mp ht]
      decide
  | _ => simp_all [Slot.choicesFit]

theorem Slot.convert_raw {c : Command} {slot : Slot} {v : Value} {pos : Position}
    (hfit : slot.choicesFit c = true) (h : slot.Takes v) : slot.convert ⟨v.raw, pos⟩ = .ok v := by
  obtain ⟨kind, choices⟩ := slot
  cases v with
  | nothing => exact h.elim
  | int n =>
    obtain ⟨hkind, h0, hmax⟩ := h
    obtain ⟨m, rfl⟩ := Int.eq_ofNat_of_zero_le h0
    rw [Value.raw_int (Int.ofNat_le.mp hmax)]
    rcases hkind with rfl | rfl <;> rfl
  | text s =>
    obtain ⟨rfl, -⟩ := h
    rfl
  | var x =>
    obtain ⟨rfl | rfl | rfl, -, hres⟩ := h <;>
    · have hnone : choices = [] := by simpa [Slot.choicesFit] using hfit
      simp [Slot.convert, Value.raw, hnone, hres]
  | label l =>
    obtain ⟨rfl, -, hres⟩ := h
    have hnot : Text.upper l ∉ choices := by
      simp only [Slot.choicesFit, Bool.or_eq_true, Bool.and_eq_true, decide_eq_true_eq] at hfit
      rcases hfit with rfl | ⟨-, rfl⟩
      · simp
      · rw [List.mem_singleton]
        exact upper_ne_bareToken hres (by decide)
    simp [Slot.convert, Value.raw, hnot, hres]
  | key k =>
    obtain ⟨rfl, hk, -⟩ := h
    simp [Slot.convert, Value.raw, readPhysicalKey_text hk]
  | token t =>
    -- A bare token is its own upper case, so the slot finds it again.
    have hup := (bareTokens_spec t (Slot.Takes.mem_bareTokens hfit h)).1
    obtain ⟨hstr, ht⟩ := h
    have hup' : choices.contains (Text.upper t) = true := by simpa [hup] using ht
    cases kind <;> simp_all [Slot.convert, Value.raw]

theorem convertAll_of_holds {c : Command} {slots : List Slot} {args : List Argument} {raws : List RawArg}
    (more : List Slot) (hfit : ∀ slot ∈ slots, slot.choicesFit c = true)
    (h : List.Forall₂ Slot.Holds slots args) (hraws : raws.map (·.raw) = args.map (·.value.raw)) :
    convertAll (slots ++ more) raws = .ok args := by
  induction h generalizing raws with
  | nil =>
    obtain rfl : raws = [] := by simpa using hraws
    cases more <;> rfl
  | @cons slot a slots args hold _ ih =>
    cases raws with
    | nil => simp at hraws
    | cons r raws =>
      obtain ⟨raw, pos⟩ := r
      simp only [List.map_cons, List.cons.injEq] at hraws
      obtain ⟨rfl, hraws⟩ := hraws
      obtain ⟨hkind, htakes⟩ := hold
      obtain ⟨kind, value⟩ := a
      dsimp only at hkind
      subst hkind
      have hv : slot.convert ⟨value.raw, pos⟩ = .ok value := Slot.convert_raw (hfit slot List.mem_cons_self) htakes
      have hrest := ih (fun s hs => hfit s (List.mem_cons_of_mem _ hs)) hraws
      exact Except.bind_eq_ok.mpr ⟨value, hv, Except.bind_eq_ok.mpr ⟨args, hrest, rfl⟩⟩

theorem menuToken?_raw_of_holds {a : Argument} (h : Slot.str.Holds a) : menuToken? a.value.raw = none := by
  obtain ⟨-, htakes⟩ := h
  cases hv : a.value with
  | text s => rfl
  | _ => simp_all [Slot.Takes, Slot.str]

theorem checkMenu_cons {endPos : Position} {stage : MenuStage} {slot : Slot} {a : Argument}
    {as : List Argument} {r : RawArg} {rs : List RawArg} (hslot : stage.slot r = slot)
    (hfit : slot.choicesFit .setMenu = true) (hold : slot.Holds a) (hr : r.raw = a.value.raw)
    (hrest : checkMenu endPos (stage.next r) rs = .ok as) :
    checkMenu endPos stage (r :: rs) = .ok (a :: as) := by
  obtain ⟨raw, pos⟩ := r
  obtain ⟨kind, value⟩ := a
  obtain ⟨hkind, htakes⟩ := hold
  dsimp only at hr hkind
  subst hr hkind hslot
  simp only [checkMenu, Except.bind_eq_ok]
  exact ⟨value, Slot.convert_raw hfit htakes, as, hrest, rfl⟩

theorem checkMenu_of_menuArgs {endPos : Position} {stage : MenuStage} {args : List Argument}
    {raws : List RawArg} (h : MenuArgs stage args) (hraws : raws.map (·.raw) = args.map (·.value.raw)) :
    checkMenu endPos stage raws = .ok args := by
  induction h generalizing raws with
  | done =>
    obtain rfl : raws = [] := by simpa using hraws
    rfl
  | header hold _ ih | headerLabel hold _ ih | memberLabel hold _ ih =>
    obtain ⟨r, rs, rfl, hr, hrs⟩ := List.map_eq_cons_iff.mp hraws
    exact checkMenu_cons rfl rfl hold hr (ih hrs)
  | member hold _ ih =>
    obtain ⟨r, rs, rfl, hr, hrs⟩ := List.map_eq_cons_iff.mp hraws
    have hnone : menuToken? r.raw = none := hr ▸ menuToken?_raw_of_holds hold
    have hslot : MenuStage.member.slot r = .str := by simp [MenuStage.slot, hnone]
    have hnext : MenuStage.member.next r = .memberLabel := by simp [MenuStage.next, hnone]
    exact checkMenu_cons hslot rfl hold hr (by rw [hnext]; exact ih hrs)
  | separator _ ih =>
    obtain ⟨r, rs, rfl, hr, hrs⟩ := List.map_eq_cons_iff.mp hraws
    have hsome : menuToken? r.raw = some "SEPARATOR" := hr ▸ (by decide +kernel)
    have hslot : MenuStage.member.slot r = .token ["SEPARATOR"] := by simp [MenuStage.slot, hsome]
    have hnext : MenuStage.member.next r = .member := by simp [MenuStage.next, hsome]
    exact checkMenu_cons hslot (by decide) (by decide) hr (by rw [hnext]; exact ih hrs)
  | close _ ih =>
    obtain ⟨r, rs, rfl, hr, hrs⟩ := List.map_eq_cons_iff.mp hraws
    have hsome : menuToken? r.raw = some "ENDPOPUP" := hr ▸ (by decide +kernel)
    have hslot : MenuStage.member.slot r = .token ["ENDPOPUP"] := by simp [MenuStage.slot, hsome]
    have hnext : MenuStage.member.next r = .header := by simp [MenuStage.next, hsome]
    exact checkMenu_cons hslot (by decide) (by decide) hr (by rw [hnext]; exact ih hrs)

/-- Argument lists that fit a signature pass the check. -/
theorem Command.checkArguments_of_admits {c : Command} {args : List Argument} {raws : List RawArg}
    {endPos : Position} (h : c.signature.Admits args) (hraws : raws.map (·.raw) = args.map (·.value.raw)) :
    c.checkArguments raws endPos = .ok args := by
  have hlen : raws.length = args.length := by simpa using congrArg List.length hraws
  have hfit : ∀ slot ∈ c.signature.slots, slot.choicesFit c = true := List.all_eq_true.mp c.slots_choicesFit
  unfold Command.checkArguments
  cases hsig : c.signature with
  | plain =>
    rw [hsig] at h
    exact h.elim
  | menu =>
    rw [hsig] at h
    exact checkMenu_of_menuArgs h hraws
  | fixed slots =>
    rw [hsig] at h hfit
    have hslots : slots.length = args.length := List.Forall₂.length_eq h
    have hconv : convertAll (slots ++ []) raws = .ok args := convertAll_of_holds [] hfit h hraws
    rw [List.append_nil] at hconv
    simp [hconv, hslots, hlen]
  | optional slots =>
    rw [hsig] at h hfit
    obtain ⟨n, h⟩ := h
    have hslots : raws.length ≤ slots.length := by
      have : (slots.take n).length = args.length := List.Forall₂.length_eq h
      rw [List.length_take] at this
      omega
    have hconv : convertAll (slots.take n ++ slots.drop n) raws = .ok args :=
      convertAll_of_holds _ (fun s hs => hfit s (List.mem_of_mem_take hs)) h hraws
    rw [List.take_append_drop] at hconv
    simp [hslots, hconv]
  | repeating group =>
    rw [hsig] at h hfit
    obtain ⟨n, h⟩ := h
    have hmem : ∀ slot ∈ (List.replicate n group).flatten, slot.choicesFit c = true := by
      intro slot hslot
      obtain ⟨g, hg, hmem⟩ := List.mem_flatten.mp hslot
      exact hfit slot (List.eq_of_mem_replicate hg ▸ hmem)
    have hconv : convertAll ((List.replicate n group).flatten ++ []) raws = .ok args :=
      convertAll_of_holds [] hmem h hraws
    rw [List.append_nil] at hconv
    have hslots : raws.length = n * group.length := by
      rw [hlen, ← List.Forall₂.length_eq h, List.length_flatten, List.map_replicate, List.sum_replicate_nat]
    -- The number of groups is read off the number of arguments, except for an empty group.
    have hsame : (List.replicate (raws.length / group.length) group).flatten = (List.replicate n group).flatten := by
      cases group with
      | nil => simp
      | cons g gs => rw [hslots, Nat.mul_div_cancel _ (by simp)]
    have hmod : raws.length % group.length = 0 := by rw [hslots, Nat.mul_mod_left]
    simp [hmod, hsame, hconv]

end GraphicsBatch
