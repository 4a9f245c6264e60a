import GraphicsBatch.Proofs.Scan

/-!
# Reading what is printed

Each reader, put on the printed form of a piece, takes exactly that piece. What may stand behind it
without being taken for a part of it is a condition on the rest of the text.
-/

namespace GraphicsBatch

open Source

/-! ## Numerals -/

theorem Text.ofDigits_concat (ds : List Nat) (d : Nat) :
    Text.ofDigits (ds ++ [d]) = 10 * Text.ofDigits ds + d := by
  simp [Text.ofDigits]

theorem Text.ofDigits_toDigits (n : Nat) :
    Text.ofDigits ((Nat.toDigits 10 n).map fun c => c.toNat - '0'.toNat) = n := by
  induction n using Nat.strongRecOn with
  | _ n ih =>
    by_cases h : n < 10
    · have hd : (Nat.digitChar n).toNat - '0'.toNat = n := Nat.toNat_digitChar_sub_48_of_lt_ten h
      simpa [Nat.toDigits_of_lt_base h, Text.ofDigits] using hd
    · have hd : (Nat.digitChar (n % 10)).toNat - '0'.toNat = n % 10 :=
        Nat.toNat_digitChar_sub_48_of_lt_ten (Nat.mod_lt _ (by decide))
      rw [Nat.toDigits_of_base_le (by decide) (by omega), List.map_append, List.map_singleton,
        Text.ofDigits_concat, ih (n / 10) (by omega), hd]
      omega

theorem isDigit_of_mem_toDigits {n : Nat} {c : Char} (h : c ∈ Nat.toDigits 10 n) : isDigit c = true := by
  have := Nat.isDigit_of_mem_toDigits (by decide) (by decide) h
  simpa [isDigit, Char.isDigit, Char.le_def] using this

theorem Value.toList_render_int (n : Nat) : (Value.int n).render.toList = Nat.toDigits 10 n := by
  show (toString (n : Int)).toList = _
  exact Nat.toList_repr

theorem Operand.Proper.isNameChar_render {o : Operand} (h : o.Proper) :
    ∀ c ∈ o.toValue.render.toList, isNameChar c = true := by
  cases o with
  | literal n =>
    intro c hc
    rw [Operand.toValue, Value.toList_render_int] at hc
    simp [isNameChar, isDigit_of_mem_toDigits hc]
  | var x =>
    obtain ⟨c, cs, hcs, -, hall⟩ := toList_of_isIdentifier h.1
    rw [← hcs] at hall
    exact hall

theorem Operand.Proper.render_cons {o : Operand} (h : o.Proper) :
    ∃ c cs, o.toValue.render.toList = c :: cs ∧ isNameChar c = true := by
  have hne : o.toValue.render.toList ≠ [] := by
    cases o with
    | literal n =>
      rw [Operand.toValue, Value.toList_render_int]
      exact Nat.toDigits_ne_nil
    | var x =>
      obtain ⟨c, cs, hcs, -⟩ := toList_of_isIdentifier h.1
      simp [Operand.toValue, Value.render, hcs]
  obtain ⟨c, cs, hcs⟩ := List.exists_cons_of_ne_nil hne
  exact ⟨c, cs, hcs, h.isNameChar_render c (by simp [hcs])⟩

namespace Parse

theorem literal_toDigits {n : Nat} (pos : Position) (h : n ≤ maxLiteral) :
    literal (Nat.toDigits 10 n) pos = .ok n := by
  -- A literal has at most 19 digits, far less than what is refused for its length.
  have hlen : (Nat.toDigits 10 n).length ≤ 19 := by
    rw [Nat.length_toDigits_le_iff (by decide) (by decide)]
    exact Nat.lt_of_le_of_lt h (by decide)
  have hlimit : ¬ Text.digitLimit < (Nat.toDigits 10 n).length := by
    unfold Text.digitLimit
    omega
  unfold literal
  rw [Text.ofDigits_toDigits, if_neg hlimit, if_neg (by omega)]

/-! ## Readers on a text -/

/-- The reader takes exactly this text, wherever it stands, if the rest behind it meets `stop`. -/
def Consumes {α : Type} (r : Reads α) (text : List Char) (stop : List Char → Prop) (P : α → Prop) : Prop :=
  ∀ p rest, stop rest →
    ∃ a q, r (Cursor.lexemes ⟨p, text ++ rest⟩) = .ok (a, Cursor.lexemes ⟨q, rest⟩) ∧ P a

namespace Consumes

variable {α β : Type} {stop : List Char → Prop}

theorem pure {a : α} {P : α → Prop} (h : P a) : Consumes (Pure.pure a : Reads α) [] stop P :=
  fun p _ _ => ⟨a, p, rfl, h⟩

theorem lift {e : Except ParseFault α} {a : α} {P : α → Prop} (he : e = .ok a) (h : P a) :
    Consumes (monadLift e : Reads α) [] stop P := by
  subst he
  exact fun p _ _ => ⟨a, p, rfl, h⟩

theorem bind {r : Reads α} {f : α → Reads β} {text front back : List Char} {between : List Char → Prop}
    {P : α → Prop} {Q : β → Prop} (htext : text = front ++ back) (hr : Consumes r front between P)
    (hf : ∀ a, P a → Consumes (f a) back stop Q) (hback : ∀ rest, stop rest → between (back ++ rest)) :
    Consumes (r >>= f) text stop Q := by
  intro p rest hrest
  obtain ⟨a, q, ha, hP⟩ := hr p (back ++ rest) (hback rest hrest)
  obtain ⟨b, q', hb, hQ⟩ := hf a hP q rest hrest
  refine ⟨b, q', ?_, hQ⟩
  rw [htext, List.append_assoc]
  show (r _ >>= fun s => f s.1 s.2) = _
  rw [ha]
  exact hb

theorem mono {r : Reads α} {text : List Char} {P Q : α → Prop} (h : Consumes r text stop P)
    (hPQ : ∀ a, P a → Q a) : Consumes r text stop Q := by
  intro p rest hrest
  obtain ⟨a, q, ha, hP⟩ := h p rest hrest
  exact ⟨a, q, ha, hPQ a hP⟩

end Consumes

/-! ## Marks and names -/

variable {l : Lexeme} {s : Lexemes} {pos : Position} {att : Bool}

@[simp] theorem peek_cons (h : l.token ≠ .openComment) : peek (.cons l s) = .ok (some l, .cons l s) := by
  simp [peek, Lexemes.cons, h]

@[simp] theorem drop_cons : drop (.cons l s) = .ok ((), s) := rfl

theorem attached_cons (c : Char) : attached c (.cons ⟨.mark c, pos, true⟩ s) = .ok (true, s) := by
  simp [attached, Lexemes.cons]

theorem token_eq_mark {c : Cursor} {d e : Char} (h : (c.token d).1 = .mark e) : d = e := by
  unfold Cursor.token at h
  split at h
  · cases h
  split at h
  · cases h
  split at h
  · cases h
  split at h
  · split at h <;> cases h
  · cases h
    rfl

theorem attached_of_head? {p : Position} {c : Char} {rest : List Char} (h : rest.head? ≠ some c) :
    attached c (Cursor.lexemes ⟨p, rest⟩) = .ok (false, Cursor.lexemes ⟨p, rest⟩) := by
  unfold attached
  split
  · rename_i l ls hl
    split
    · rename_i hc
      simp only [Bool.and_eq_true, decide_eq_true_eq] at hc
      obtain ⟨d, ds, rfl, ht⟩ := Cursor.lexemes_attached hl hc.1
      rw [hc.2] at ht
      exact absurd (congrArg some (token_eq_mark ht.symm)) h
    · rfl
  · rfl

theorem pure_apply {α : Type} (a : α) : (pure a : Reads α) s = .ok (a, s) := rfl

theorem liftM_apply {α : Type} {x : Except ParseFault α} {a : α} (h : x = .ok a) :
    (liftM x : Reads α) s = .ok (a, s) := by
  rw [h]
  rfl

theorem mark_cons (c : Char) : mark c (.cons ⟨.mark c, pos, att⟩ s) = .ok ((), s) := by
  simp [mark, Bind.bind, StateT.bind, Except.bind]

theorem plainName_cons {w : String} (what : String) (h : isReserved w = false) :
    plainName what (.cons ⟨.word w, pos, att⟩ s) = .ok ((w, pos), s) := by
  simp [plainName, Bind.bind, StateT.bind, Except.bind, h, pure_apply]

theorem operand_cons_numeral {n : Nat} {digits : List Char} (h : literal digits pos = .ok n) :
    operand (.cons ⟨.numeral digits, pos, att⟩ s) = .ok (.literal n, s) := by
  simp [operand, Bind.bind, StateT.bind, Except.bind, liftM_apply h, pure_apply]

theorem operand_cons_word {w : String} (h : isReserved w = false) :
    operand (.cons ⟨.word w, pos, att⟩ s) = .ok (.var w, s) := by
  simp [operand, Bind.bind, StateT.bind, Except.bind, plainName_cons, h, pure_apply]

namespace Consumes

variable {gap : List Char}

theorem mark {c : Char} (hc : isMark c = true) : Consumes (Parse.mark c) [c] (fun _ => True) fun _ => True := by
  intro p rest _
  rw [List.singleton_append, Cursor.lexemes_mark hc]
  exact ⟨_, _, mark_cons c, trivial⟩

theorem plainName {w : String} (what : String) (hgap : ∀ c ∈ gap, isBlank c = true) (hw : IsName w) :
    Consumes (Parse.plainName what) (gap ++ w.toList) EndsName (·.1 = w) := by
  intro p rest hrest
  rw [List.append_assoc, Cursor.lexemes_word hgap hw.1 hrest]
  exact ⟨_, _, plainName_cons what hw.2, rfl⟩

theorem operand {o : Operand} (hgap : ∀ c ∈ gap, isBlank c = true) (ho : o.Proper) :
    Consumes Parse.operand (gap ++ o.toValue.render.toList) EndsName (· = o) := by
  intro p rest hrest
  rw [List.append_assoc]
  cases o with
  | literal n =>
    have htext : (Operand.literal n).toValue.render.toList = Nat.toDigits 10 n := Value.toList_render_int n
    have hlit := fun pos => literal_toDigits pos ho
    have hdigits : ∀ c ∈ Nat.toDigits 10 n, isDigit c = true := fun c hc => isDigit_of_mem_toDigits hc
    rw [htext]
    obtain ⟨d, ds, hd⟩ := List.exists_cons_of_ne_nil (@Nat.toDigits_ne_nil n 10)
    rw [hd] at hlit hdigits ⊢
    rw [Cursor.lexemes_numeral hgap hdigits hrest.not_digit]
    exact ⟨_, _, operand_cons_numeral (hlit _), rfl⟩
  | var x =>
    have htext : (Operand.var x).toValue.render.toList = x.toList := rfl
    rw [htext, Cursor.lexemes_word hgap ho.1 hrest]
    exact ⟨_, _, operand_cons_word ho.2, rfl⟩

theorem labelName {w : String} (hgap : ∀ c ∈ gap, isBlank c = true) (hw : IsName w) :
    Consumes Parse.labelName (gap ++ w.toList) (fun rest => EndsName rest ∧ rest.head? ≠ some ':') (·.1 = w) := by
  have hatt : Consumes (Parse.attached ':') [] (fun rest => EndsName rest ∧ rest.head? ≠ some ':') fun _ => True :=
    fun p rest hrest => ⟨_, p, attached_of_head? hrest.2, trivial⟩
  refine bind (List.append_nil _).symm (plainName "label" hgap hw) (fun found hfound => ?_) fun rest hrest => hrest.1
  exact bind rfl hatt (fun _ _ => pure hfound) fun rest hrest => hrest

/-! ## Signs -/

theorem comparison (op : Comparison) :
    Consumes Parse.comparison op.sign.toList (fun rest => rest.head? ≠ some '=' ∧ rest.head? ≠ some '>') (· = op) := by
  intro p rest hrest
  -- A sign of one character stands alone because no second one follows it.
  have hge := fun q => @attached_of_head? q '=' rest hrest.1
  have hgt := fun q => @attached_of_head? q '>' rest hrest.2
  cases op with
  | eq =>
    show ∃ a q, Parse.comparison (Cursor.lexemes ⟨p, '=' :: rest⟩) = _ ∧ _
    rw [Cursor.lexemes_mark (by decide)]
    exact ⟨_, _, rfl, rfl⟩
  | ne =>
    show ∃ a q, Parse.comparison (Cursor.lexemes ⟨p, '<' :: '>' :: rest⟩) = _ ∧ _
    rw [Cursor.lexemes_mark (by decide), Cursor.lexemes_mark (by decide)]
    exact ⟨_, _, rfl, rfl⟩
  | le =>
    show ∃ a q, Parse.comparison (Cursor.lexemes ⟨p, '<' :: '=' :: rest⟩) = _ ∧ _
    rw [Cursor.lexemes_mark (by decide), Cursor.lexemes_mark (by decide)]
    exact ⟨_, _, rfl, rfl⟩
  | ge =>
    show ∃ a q, Parse.comparison (Cursor.lexemes ⟨p, '>' :: '=' :: rest⟩) = _ ∧ _
    rw [Cursor.lexemes_mark (by decide), Cursor.lexemes_mark (by decide)]
    exact ⟨_, _, rfl, rfl⟩
  | lt =>
    show ∃ a q, Parse.comparison (Cursor.lexemes ⟨p, '<' :: rest⟩) = _ ∧ _
    rw [Cursor.lexemes_mark (by decide)]
    refine ⟨.lt, p.after '<', ?_, rfl⟩
    simp [Parse.comparison, Bind.bind, StateT.bind, Except.bind, hge, hgt, pure_apply]
  | gt =>
    show ∃ a q, Parse.comparison (Cursor.lexemes ⟨p, '>' :: rest⟩) = _ ∧ _
    rw [Cursor.lexemes_mark (by decide)]
    refine ⟨.gt, p.after '>', ?_, rfl⟩
    simp [Parse.comparison, Bind.bind, StateT.bind, Except.bind, hge, pure_apply]

theorem operator (op : Operator) : Consumes Parse.operator [op.sign] (fun _ => True) (· = some op) := by
  intro p rest _
  rw [List.singleton_append, Cursor.lexemes_mark (by cases op <;> decide)]
  refine ⟨some op, p.after op.sign, ?_, rfl⟩
  cases op <;> rfl

end Consumes

/-- What can stand behind a statement: the end of the text, the end of the line, or the next statement. -/
def Ends (rest : List Char) : Prop :=
  rest = [] ∨ (∃ cs, rest = '\n' :: cs) ∨ ∃ c cs, rest = ' ' :: c :: cs ∧ isNameStart c = true

namespace Ends

variable {rest : List Char}

theorem endsName (h : Ends rest) : EndsName rest := by
  rcases h with rfl | ⟨cs, rfl⟩ | ⟨c, cs, rfl, -⟩
  · simp [EndsName]
  · simp [EndsName]
    decide
  · simp [EndsName]
    decide

theorem head?_ne_colon (h : Ends rest) : rest.head? ≠ some ':' := by
  rcases h with rfl | ⟨cs, rfl⟩ | ⟨c, cs, rfl, -⟩ <;> simp

end Ends

theorem Consumes.operator_none : Consumes Parse.operator [] Ends (· = none) := by
  rintro p rest hrest
  refine ⟨none, p, ?_, rfl⟩
  rw [List.nil_append]
  rcases hrest with rfl | ⟨cs, rfl⟩ | ⟨c, cs, rfl, hc⟩
  · rw [Cursor.lexemes_nil]
    rfl
  · rw [Cursor.lexemes_lineFeed]
    rfl
  · obtain ⟨hlf, hbrace, hblank⟩ := isNameStart_ne hc
    have hlex := @Cursor.lexemes_gap p [' '] c cs isBlank_of_mem_space hblank hbrace
    rw [List.singleton_append] at hlex
    have htok : (Cursor.token ⟨p.afterAll [' '], c :: cs⟩ c).1 =
        .word (String.ofList ((c :: cs).takeWhile isNameChar)) := by
      unfold Cursor.token
      rw [if_neg hlf, if_pos hc]
      rfl
    rw [hlex, htok]
    rfl

/-! ## Argument lists -/

end Parse

/-- A value that can stand in an argument list. -/
def Value.Writable : Value → Prop
  | .nothing => False
  | .int n => 0 ≤ n ∧ n ≤ Parse.maxLiteral
  | .text s => IsQuotable s
  | .var x | .token x | .label x => isIdentifier x = true
  | .key k => IsQuotable k.text

theorem PhysicalKey.isQuotable_text {k : PhysicalKey} (hk : k.IsVisible) (hq : k.char ≠ '"') : IsQuotable k.text := by
  obtain ⟨c, ctrl⟩ := k
  have hlf : c ≠ '\n' := by
    rintro rfl
    have : '!' ≤ '\n' := hk.1
    exact absurd this (by decide)
  cases ctrl <;> simp [IsQuotable, PhysicalKey.text, Ne.symm hlf, Ne.symm hq]

theorem Slot.Takes.writable {c : Command} {slot : Slot} {v : Value} (hfit : slot.choicesFit c = true)
    (h : slot.Takes v) : v.Writable := by
  cases v with
  | nothing => exact h
  | int n => exact h.2
  | text s => exact h.2
  | var x | label x => exact h.2.1
  | key k => exact PhysicalKey.isQuotable_text h.2.1 h.2.2
  | token t => exact (bareTokens_spec t (h.mem_bareTokens hfit)).2

theorem Command.writable_of_admits {c : Command} {args : List Argument} (h : c.signature.Admits args) :
    ∀ a ∈ args, a.value.Writable := by
  intro a ha
  obtain ⟨slot, hslot, -, htakes⟩ := h.exists_slot ha
  exact htakes.writable (List.all_eq_true.mp c.slots_choicesFit slot hslot)

theorem Value.toList_render_key (k : PhysicalKey) :
    (Value.key k).render.toList = '"' :: (k.text.toList ++ ['"']) := by
  simp [Value.render, PhysicalKey.text]

namespace Parse

/-- A written value is one lexeme, which reads as the value. -/
theorem argument_render {v : Value} {p : Position} {rest : List Char} (hv : v.Writable) (hrest : EndsName rest) :
    ∃ l q, Cursor.lexemes ⟨p, v.render.toList ++ rest⟩ = .cons l (Cursor.lexemes ⟨q, rest⟩) ∧
      argument l = .ok ⟨v.raw, l.pos⟩ := by
  have hword : ∀ {w : String}, isIdentifier w = true → Cursor.lexemes ⟨p, w.toList ++ rest⟩ =
      .cons ⟨.word w, p, true⟩ (Cursor.lexemes ⟨p.afterAll w.toList, rest⟩) :=
    fun {w} hw => @Cursor.lexemes_word p [] rest w (by simp) hw hrest
  have htext : ∀ {s : String}, IsQuotable s → Cursor.lexemes ⟨p, '"' :: (s.toList ++ '"' :: rest)⟩ =
      .cons ⟨.text s, p, true⟩ (Cursor.lexemes ⟨p.afterAll ('"' :: (s.toList ++ ['"'])), rest⟩) :=
    fun {s} hs => @Cursor.lexemes_text p [] rest s (by simp) hs
  cases v with
  | nothing => exact hv.elim
  | int n =>
    obtain ⟨m, rfl⟩ := Int.eq_ofNat_of_zero_le hv.1
    have hm : m ≤ maxLiteral := by exact_mod_cast hv.2
    have hlit := fun pos => literal_toDigits pos hm
    have hdigits : ∀ c ∈ Nat.toDigits 10 m, isDigit c = true := fun c hc => isDigit_of_mem_toDigits hc
    rw [Value.toList_render_int]
    obtain ⟨d, ds, hd⟩ := List.exists_cons_of_ne_nil (@Nat.toDigits_ne_nil m 10)
    rw [hd] at hlit hdigits ⊢
    have := @Cursor.lexemes_numeral p [] rest d ds (by simp) hdigits hrest.not_digit
    rw [List.nil_append] at this
    refine ⟨_, _, this, ?_⟩
    rw [argument_of_literal (hlit _), Value.raw_int hm]
  | text s =>
    have hr : (Value.text s).render.toList ++ rest = '"' :: (s.toList ++ '"' :: rest) := by simp [Value.render]
    rw [hr, htext hv]
    exact ⟨_, _, rfl, rfl⟩
  | key k =>
    have hr : (Value.key k).render.toList ++ rest = '"' :: (k.text.toList ++ '"' :: rest) := by
      simp [Value.toList_render_key]
    rw [hr, htext hv]
    exact ⟨_, _, rfl, rfl⟩
  | var x | token x | label x =>
    simp only [Value.render]
    rw [hword hv]
    exact ⟨_, _, rfl, rfl⟩

/-- `argumentList` at any point of a list. -/
def argumentsFrom (want : Want) : Reads (List RawArg × Position) := fun s =>
  match arguments s.finish want s.items with
  | .ok (args, endPos, rest) => .ok ((args, endPos), { s with items := rest })
  | .error e => .error e

theorem argumentsFrom_cons {want : Want} {l : Lexeme} {a : RawArg} {as : List RawArg} {endPos : Position}
    {s s' : Lexemes} (hwant : want ≠ .separator) (ha : argument l = .ok a)
    (hs : argumentsFrom .separator s = .ok ((as, endPos), s')) :
    argumentsFrom want (.cons l s) = .ok ((a :: as, endPos), s') := by
  have hlf : l.token ≠ .lineEnd := by
    intro h
    simp [argument, h] at ha
  have hclose : l.token ≠ .mark ')' := by
    intro h
    simp [argument, h] at ha
  unfold argumentsFrom at hs
  split at hs
  · rename_i args e rest hargs
    cases hs
    cases want with
    | separator => exact absurd rfl hwant
    | _ => simp [argumentsFrom, Lexemes.cons, arguments, hlf, hclose, ha, hargs, Bind.bind, Except.bind, Pure.pure,
        Except.pure]
  · cases hs

theorem intercalate_cons {α : Type} (sep x : List α) (xs : List (List α)) :
    List.intercalate sep (x :: xs) = x ++ xs.flatMap (sep ++ ·) := by
  induction xs generalizing x with
  | nil => simp [List.intercalate]
  | cons y ys ih =>
    have := ih y
    simp only [List.intercalate, List.intersperse_cons_cons] at this ⊢
    simp [this]

theorem endsName_cons {c : Char} {cs : List Char} (h : isNameChar c = false) : EndsName (c :: cs) := by
  intro d hd
  cases hd
  exact h

/-- The arguments behind the first one, each after its comma, and the end of the list. -/
def moreText (vs : List Value) : List Char := vs.flatMap (fun v => ',' :: v.render.toList) ++ [')']

theorem moreText_endsName (vs : List Value) (rest : List Char) : EndsName (moreText vs ++ rest) := by
  cases vs with
  | nil => exact endsName_cons (by decide)
  | cons v vs => exact endsName_cons (by decide)

namespace Consumes

variable {stop : List Char → Prop}

theorem moreArguments {vs : List Value} (hvs : ∀ v ∈ vs, v.Writable) :
    Consumes (argumentsFrom .separator) (moreText vs) stop fun r => r.1.map (·.raw) = vs.map Value.raw := by
  intro p rest hrest
  induction vs generalizing p with
  | nil =>
    show ∃ a q, argumentsFrom .separator (Cursor.lexemes ⟨p, ')' :: rest⟩) = _ ∧ _
    rw [Cursor.lexemes_mark (by decide)]
    exact ⟨_, _, rfl, rfl⟩
  | cons v vs ih =>
    obtain ⟨l, q, hl, harg⟩ :=
      @argument_render v (p.after ',') _ (hvs v List.mem_cons_self) (moreText_endsName vs rest)
    obtain ⟨⟨as, e⟩, q', has, hraws⟩ := ih (fun w hw => hvs w (List.mem_cons_of_mem _ hw)) q
    have htext : moreText (v :: vs) ++ rest = ',' :: (v.render.toList ++ (moreText vs ++ rest)) := by
      simp [moreText]
    refine ⟨(⟨v.raw, l.pos⟩ :: as, e), q', ?_, by simpa using hraws⟩
    rw [htext, Cursor.lexemes_mark (by decide), hl]
    show argumentsFrom .argument (.cons l _) = _
    exact argumentsFrom_cons (by decide) harg has

theorem argumentList {vs : List Value} (hvs : ∀ v ∈ vs, v.Writable) :
    Consumes Parse.argumentList ((String.intercalate "," (vs.map Value.render)).toList ++ [')']) stop
      fun r => r.1.map (·.raw) = vs.map Value.raw := by
  intro p rest hrest
  cases vs with
  | nil =>
    show ∃ a q, Parse.argumentList (Cursor.lexemes ⟨p, ')' :: rest⟩) = _ ∧ _
    rw [Cursor.lexemes_mark (by decide)]
    exact ⟨_, _, rfl, rfl⟩
  | cons v vs =>
    obtain ⟨l, q, hl, harg⟩ := @argument_render v p _ (hvs v List.mem_cons_self) (moreText_endsName vs rest)
    obtain ⟨⟨as, e⟩, q', has, hraws⟩ :=
      @moreArguments stop vs (fun w hw => hvs w (List.mem_cons_of_mem _ hw)) q rest hrest
    have htext : (String.intercalate "," ((v :: vs).map Value.render)).toList ++ [')'] ++ rest =
        v.render.toList ++ (moreText vs ++ rest) := by
      rw [String.toList_intercalate, List.map_map, List.map_cons, intercalate_cons]
      simp [moreText, List.flatMap_map]
    refine ⟨(⟨v.raw, l.pos⟩ :: as, e), q', ?_, by simpa using hraws⟩
    rw [htext, hl]
    show argumentsFrom .first (.cons l _) = _
    exact argumentsFrom_cons (by decide) harg has

theorem call {c : Command} {args : List Argument} (pos : Position) (hargs : c.signature.Admits args) :
    Consumes (Parse.call c pos) ('(' :: ((String.intercalate "," (args.map (·.value.render))).toList ++ [')'])) stop
      (· = (.call c args, references args pos)) := by
  have hvs : ∀ v ∈ args.map (·.value), v.Writable := by
    intro v hv
    obtain ⟨a, ha, rfl⟩ := List.mem_map.mp hv
    exact Command.writable_of_admits hargs a ha
  have hlist := @argumentList stop _ hvs
  rw [List.map_map, List.map_map] at hlist
  refine bind rfl (mark (by decide)) (fun _ _ => ?_) fun _ _ => trivial
  refine bind (List.append_nil _).symm hlist (fun r hr => ?_) fun rest hrest => hrest
  obtain ⟨raws, endPos⟩ := r
  dsimp only
  rw [Command.checkArguments_of_admits hargs hr]
  exact pure rfl

/-! ## Statements -/

theorem condition {lhs rhs : Operand} (op : Comparison) (hl : lhs.Proper) (hr : rhs.Proper) :
    Consumes Parse.condition
      ([' '] ++ lhs.toValue.render.toList ++
        (op.sign.toList ++ (rhs.toValue.render.toList ++ [' ', 'T', 'h', 'e', 'n'])))
      Ends (· = .cond lhs op rhs 0) := by
  refine bind rfl (operand isBlank_of_mem_space hl) (fun a ha => ?_) fun rest _ => ?_
  · refine bind rfl (comparison op) (fun b hb => ?_) fun rest _ => ?_
    · refine bind rfl (@operand [] rhs (by simp) hr) (fun c hc => ?_) fun rest _ => endsName_cons (by decide)
      subst ha hb hc
      intro p rest hrest
      have hlex : Cursor.lexemes ⟨p, [' ', 'T', 'h', 'e', 'n'] ++ rest⟩ =
          .cons ⟨.word "Then", p.after ' ', false⟩ (Cursor.lexemes ⟨(p.after ' ').afterAll "Then".toList, rest⟩) :=
        @Cursor.lexemes_word p [' '] rest "Then" isBlank_of_mem_space (by decide) hrest.endsName
      rw [hlex]
      exact ⟨_, _, rfl, rfl⟩
    · obtain ⟨c, cs, hcs, hc⟩ := hr.render_cons
      simp only [hcs, List.cons_append, List.head?_cons, ne_eq, Option.some.injEq]
      constructor <;> rintro rfl <;> exact absurd hc (by decide)
  · cases op <;> exact endsName_cons (by decide)

theorem assignment {v : String} {e : Expr} (hv : IsName v) (he : e.Proper) :
    Consumes Parse.assignment ([' '] ++ v.toList ++ ('=' :: e.render.toList)) Ends (· = .assign v e) := by
  obtain ⟨first, more⟩ := e
  refine bind rfl (plainName "variable" isBlank_of_mem_space hv) (fun r hr => ?_)
    fun rest _ => endsName_cons (by decide)
  obtain ⟨v', pos⟩ := r
  obtain rfl : v' = v := hr
  refine bind rfl (mark (by decide)) (fun _ _ => ?_) fun _ _ => trivial
  cases more with
  | none =>
    refine bind (List.append_nil _).symm (@operand [] first (by simp) he.1) (fun a ha => ?_)
      fun rest hrest => hrest.endsName
    refine bind (List.append_nil []).symm operator_none (fun o ho => ?_) fun rest hrest => hrest
    subst ha ho
    exact pure rfl
  | some m =>
    obtain ⟨op, second⟩ := m
    have htext : (Expr.render ⟨first, some (op, second)⟩).toList =
        [] ++ first.toValue.render.toList ++ ([op.sign] ++ ([] ++ second.toValue.render.toList)) := by
      simp [Expr.render]
    refine bind htext (operand (by simp) he.1) (fun a ha => ?_) fun rest _ => ?_
    · refine bind rfl (operator op) (fun o ho => ?_) fun _ _ => trivial
      subst ha ho
      refine bind (List.append_nil _).symm (operand (by simp) (he.2 op second rfl)) (fun b hb => ?_)
        fun rest hrest => hrest.endsName
      subst hb
      exact pure rfl
    · cases op <;> exact endsName_cons (by decide)

end Consumes

end Parse

/-! ### From the keyword on -/

/-- The action with no target set. -/
def Action.unplaced : Action → Action
  | .cond lhs op rhs _ => .cond lhs op rhs 0
  | a => a

/-- The word that a statement starts with, if it is no label. -/
def Action.keyword? : Action → Option Keyword
  | .label _ => none
  | .call c _ | .plain c => some (.command c)
  | .goto _ => some .goto
  | .gosub _ => some .gosub
  | .back => some .back
  | .finish => some .finish
  | .cond .. => some .cond
  | .assign .. => some .assign

namespace Parse

/-- A statement is its keyword and a text from which the reader gets the rest of it. -/
theorem statement_consumes {a : Action} {k : Keyword} (ha : a.Proper) (hk : a.keyword? = some k) :
    ∃ text, a.render.toList = k.spelling.toList ++ text ∧
      (∀ rest, Ends rest → EndsName (text ++ rest) ∧ (text ++ rest).head? ≠ some ':') ∧
      ∀ name pos, Consumes (statement k name pos) text Ends fun r => r.1 = a.unplaced := by
  have hsep : ∀ (c : Char) (cs rest : List Char), isNameChar c = false → c ≠ ':' → EndsName (c :: cs ++ rest) ∧
      (c :: cs ++ rest).head? ≠ some ':' :=
    fun c cs rest hc hcolon => ⟨endsName_cons hc, by simpa using hcolon⟩
  cases a with
  | label name => cases hk
  | goto l | gosub l =>
    cases hk
    refine ⟨[' '] ++ l.toList, by simp [Action.render, Keyword.spelling],
      fun rest _ => hsep ' ' _ rest (by decide) (by decide), fun name pos => ?_⟩
    refine Consumes.bind (List.append_nil _).symm (Consumes.labelName isBlank_of_mem_space ha) (fun r hr => ?_)
      fun rest hrest => ⟨hrest.endsName, hrest.head?_ne_colon⟩
    exact Consumes.pure (by rw [hr]; rfl)
  | back | finish =>
    cases hk
    exact ⟨[], rfl, fun rest hrest => ⟨hrest.endsName, hrest.head?_ne_colon⟩, fun _ _ => Consumes.pure rfl⟩
  | plain c =>
    cases hk
    refine ⟨[], by simp [Action.render, Keyword.spelling],
      fun rest hrest => ⟨hrest.endsName, hrest.head?_ne_colon⟩, fun name pos => ?_⟩
    have hc : c.isPlain = true := ha
    simp only [statement, hc, if_true]
    exact Consumes.pure rfl
  | call c args =>
    cases hk
    have hc : c.isPlain = false := by
      cases c <;> first | rfl | exact ha.elim
    refine ⟨'(' :: ((String.intercalate "," (args.map (·.value.render))).toList ++ [')']), ?_,
      fun rest _ => hsep '(' _ rest (by decide) (by decide), fun name pos => ?_⟩
    · simp [Action.render, Keyword.spelling]
    simp only [statement, hc]
    refine Consumes.mono (Consumes.call pos ha) ?_
    rintro _ rfl
    rfl
  | cond lhs op rhs skipTo =>
    cases hk
    refine ⟨_, ?_, fun rest _ => hsep ' ' _ rest (by decide) (by decide), fun name pos =>
      Consumes.bind (List.append_nil _).symm (Consumes.condition op ha.1 ha.2) (fun b hb => ?_) fun rest hrest => hrest⟩
    · simp [Action.render, Keyword.spelling]
    · exact Consumes.pure (by rw [hb]; rfl)
  | assign v e =>
    cases hk
    refine ⟨_, ?_, fun rest _ => hsep ' ' _ rest (by decide) (by decide), fun name pos =>
      Consumes.bind (List.append_nil _).symm (Consumes.assignment ha.1 ha.2) (fun b hb => ?_) fun rest hrest => hrest⟩
    · simp [Action.render, Keyword.spelling]
    · exact Consumes.pure (by rw [hb]; rfl)

end Parse

theorem Keyword.ofName?_spelling (k : Keyword) : Keyword.ofName? k.spelling = some k := by
  have h : ∀ k ∈ Keyword.all, Keyword.ofName? k.spelling = some k := by decide +kernel
  exact h k k.mem_all

theorem Keyword.isIdentifier_spelling (k : Keyword) : isIdentifier k.spelling = true := by
  have h : ∀ k ∈ Keyword.all, isIdentifier k.spelling = true := by decide +kernel
  exact h k k.mem_all

namespace Parse

theorem afterWord_consumes {d : Draft} {a : Action} (ha : a.Proper)
    (hnew : ∀ K, a.labelKey? = some K → K ∉ d.labels) :
    ∃ w text, isIdentifier w = true ∧ a.render.toList = w.toList ++ text ∧
      (∀ rest, Ends rest → EndsName (text ++ rest)) ∧
      ∀ pos, Consumes (afterWord false d w pos) text Ends fun d' =>
        d'.lines = d.lines ∧ d'.line = ⟨a.unplaced, pos⟩ :: d.line := by
  cases hk : a.keyword? with
  | none =>
    obtain ⟨w, rfl⟩ : ∃ w, a = .label w := by
      cases a <;> cases hk
      exact ⟨_, rfl⟩
    refine ⟨w, [':'], ha.1, by simp [Action.render], fun rest _ => endsName_cons (by decide), fun pos => ?_⟩
    have hkey : d.labels.contains (Text.upper w) = false := by simpa using hnew _ rfl
    have hadd : d.addLabel false w pos = .ok { d.push (.label w) pos with labels := Text.upper w :: d.labels } := by
      simp only [Draft.addLabel, ha.2, hkey, Bool.false_and, Bool.false_eq_true, if_false]
    have hatt : Consumes (attached ':') [':'] (fun _ => True) (· = true) := by
      intro p rest _
      rw [List.singleton_append, Cursor.lexemes_mark (by decide)]
      exact ⟨true, _, attached_cons ':', rfl⟩
    refine Consumes.bind (List.append_nil _).symm hatt (fun b hb => ?_) fun _ _ => trivial
    subst hb
    exact Consumes.lift hadd ⟨rfl, rfl⟩
  | some k =>
    obtain ⟨text, htext, hends, hreads⟩ := statement_consumes ha hk
    refine ⟨k.spelling, text, k.isIdentifier_spelling, htext, fun rest hrest => (hends rest hrest).1, fun pos => ?_⟩
    have hatt : Consumes (attached ':') [] (fun rest => rest.head? ≠ some ':') (· = false) :=
      fun p rest hrest => ⟨_, p, attached_of_head? hrest, rfl⟩
    refine Consumes.bind rfl hatt (fun b hb => ?_) fun rest hrest => (hends rest hrest).2
    subst hb
    rw [Keyword.ofName?_spelling]
    refine Consumes.bind (List.append_nil _).symm (hreads _ pos) (fun r hr => ?_) fun rest hrest => hrest
    obtain ⟨action, refs⟩ := r
    obtain rfl : action = a.unplaced := hr
    exact Consumes.pure ⟨rfl, rfl⟩

end Parse

end GraphicsBatch
