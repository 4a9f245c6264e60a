import GraphicsBatch.Proofs.Revised
import GraphicsBatch.Proofs.Simulation

/-!
# Upper and lower case

Outside quoted texts the case of a letter does not matter. A source with other cases is read at the same places or
refused at the same place, and its program runs in step with the first one.
-/

namespace GraphicsBatch

open Source

/-! ## Letters -/

/-- The same character, or the same ASCII letter in another case. -/
def SameLetter (c d : Char) : Prop := c.toUpper = d.toUpper

instance : DecidableRel SameLetter := fun c d => inferInstanceAs (Decidable (c.toUpper = d.toUpper))

theorem SameLetter.refl (c : Char) : SameLetter c c := rfl

theorem letters_refl (cs : List Char) : List.Forall₂ SameLetter cs cs := List.forall₂_same.mpr fun c _ => .refl c

namespace SameLetter

theorem toNat_toUpper (c : Char) :
    c.toUpper.toNat = if 97 ≤ c.toNat ∧ c.toNat ≤ 122 then c.toNat - 32 else c.toNat := by
  have hlower : ('a'.val ≤ c.val ∧ c.val ≤ 'z'.val) ↔ (97 ≤ c.toNat ∧ c.toNat ≤ 122) := Iff.rfl
  unfold Char.toUpper
  by_cases h : 97 ≤ c.toNat ∧ c.toNat ≤ 122
  · rw [dif_pos (hlower.mpr h), if_pos h]
    change (c.val + ('A'.val - 'a'.val)).toNat = c.toNat - 32
    rw [UInt32.toNat_add, show c.val.toNat = c.toNat from rfl, show ('A'.val - 'a'.val).toNat = 4294967264 by decide]
    omega
  · rw [dif_neg (mt hlower.mp h), if_neg h]

theorem cases {c d : Char} (h : SameLetter c d) : c = d ∨ isNameStart c = true ∧ isNameStart d = true := by
  have hstart : ∀ {x : Char}, (65 ≤ x.toNat ∧ x.toNat ≤ 90) ∨ (97 ≤ x.toNat ∧ x.toNat ≤ 122) → isNameStart x = true := by
    intro x hx
    simp only [isNameStart, Bool.or_eq_true, Bool.and_eq_true, decide_eq_true_eq]
    exact .inl hx
  have hnat := congrArg Char.toNat h
  rw [toNat_toUpper, toNat_toUpper] at hnat
  by_cases heq : c.toNat = d.toNat
  · exact .inl (Char.toNat_inj.mp heq)
  · refine .inr ⟨hstart ?_, hstart ?_⟩ <;> split at hnat <;> split at hnat <;> omega

theorem after_eq {c d : Char} (h : SameLetter c d) (p : Position) : p.after c = p.after d := by
  rcases h.cases with rfl | ⟨hc, hd⟩
  · rfl
  · unfold Position.after
    rw [if_neg (isNameStart_ne hc).1, if_neg (isNameStart_ne hd).1]

theorem upperChar_eq {c d : Char} (h : SameLetter c d) : Text.upperChar c = Text.upperChar d := by
  have hascii : ∀ {x : Char}, isNameStart x = true → x.toNat < 128 := by
    intro x hx
    simp only [isNameStart, Bool.or_eq_true, Bool.and_eq_true, decide_eq_true_eq] at hx
    rcases hx with (⟨-, hx⟩ | ⟨-, hx⟩) | rfl
    · exact Nat.lt_of_le_of_lt hx (by decide)
    · exact Nat.lt_of_le_of_lt hx (by decide)
    · decide
  rcases h.cases with rfl | ⟨hc, hd⟩
  · rfl
  · unfold Text.upperChar
    rw [if_pos (hascii hc), if_pos (hascii hd), h]

end SameLetter

/-- The same words but for the case of letters, at the same places. -/
def Likeness.recased : Likeness where
  word a b := List.Forall₂ SameLetter a.toList b.toList
  place := Eq
  upper_eq {a b} h := by
    have hflat : ∀ {cs ds : List Char}, List.Forall₂ SameLetter cs ds →
        cs.flatMap Text.upperChar = ds.flatMap Text.upperChar := by
      intro cs ds h
      induction h with
      | nil => rfl
      | cons hc _ ih => rw [List.flatMap_cons, List.flatMap_cons, hc.upperChar_eq, ih]
    exact congrArg String.ofList (hflat h)
  place_after c h := congrArg (Position.after · c) h

theorem Likeness.recased_allows : Likeness.recased.Allows (List.Forall₂ SameLetter) SameLetter where
  place_gap {g g' p q} h hpos := by
    induction h generalizing p q with
    | nil => exact hpos
    | cons hc _ ih =>
      obtain rfl : p = q := hpos
      exact ih (hc.after_eq p)
  char_cases h := h.cases
  word h := by simpa [Likeness.recased] using h

/-! ## Line ends -/

/-- A text and the same text with other cases of letters outside quoted texts. -/
abbrev Source.Recased : List Char → List Char → Prop := Revised (List.Forall₂ SameLetter) SameLetter

namespace Source

variable {cs cs' rest rest' : List Char}

theorem normalize_cons_eq (c : Char) (cs : List Char) :
    normalize (c :: cs) = if c = '\r' ∧ cs.head? = some '\n' then normalize cs else c :: normalize cs := by
  split
  · rename_i h
    obtain ⟨rfl, hhead⟩ := h
    obtain ⟨ds, rfl⟩ := List.head?_eq_some_iff.mp hhead
    rw [normalize, normalize_lineFeed]
  · rename_i h
    exact normalize_cons h

theorem normalize_append {c : Char} (hc : c ≠ '\n') (cs ds : List Char) :
    normalize (cs ++ c :: ds) = normalize cs ++ normalize (c :: ds) := by
  induction cs with
  | nil => rfl
  | cons d cs ih =>
    have hhead : (cs ++ c :: ds).head? = some '\n' ↔ cs.head? = some '\n' := by
      cases cs with
      | nil => simp [hc]
      | cons => rfl
    simp only [List.cons_append, normalize_cons_eq d, ih, hhead]
    split <;> rfl

theorem normalize_comment (body more : List Char) :
    normalize ('{' :: (body ++ '}' :: more)) = '{' :: (normalize body ++ ['}']) ++ normalize more := by
  rw [normalize_cons (by simp), normalize_append (by decide), normalize_cons (c := '}') (by simp)]
  simp

theorem mem_of_mem_normalize {c : Char} (h : c ∈ normalize cs) : c ∈ cs := by
  induction cs with
  | nil => exact h
  | cons d cs ih =>
    rw [normalize_cons_eq] at h
    split at h
    · exact List.mem_cons_of_mem _ (ih h)
    · rcases List.mem_cons.mp h with rfl | h
      · exact List.mem_cons_self
      · exact List.mem_cons_of_mem _ (ih h)

theorem unpaired_normalize : Unpaired (normalize rest) ↔ Unpaired rest := by
  unfold Unpaired
  induction rest with
  | nil => rfl
  | cons c cs ih =>
    rw [normalize_cons_eq]
    split
    · rename_i h
      rw [ih, List.dropWhile_cons_of_pos (by simp [h.1])]
    · rw [List.dropWhile_cons, List.dropWhile_cons]
      split
      · exact ih
      · rfl

theorem letters_head? (h : List.Forall₂ SameLetter cs cs') : cs.head? = some '\n' ↔ cs'.head? = some '\n' := by
  cases h with
  | nil => rfl
  | cons hc _ => simpa using Likeness.recased_allows.eq_iff hc (by decide : isNameStart '\n' = false)

theorem not_mem_of_letters (h : List.Forall₂ SameLetter cs cs') {d : Char} (hmem : d ∉ cs) (hd : isNameStart d = false) :
    d ∉ cs' := by
  intro hmem'
  obtain ⟨c, hc, hcd⟩ := forall₂_exists_mem h hmem'
  obtain rfl := (Likeness.recased_allows.eq_iff hcd hd).mpr rfl
  exact hmem hc

theorem letters_break {c c' : Char} (hc : SameLetter c c') (h : List.Forall₂ SameLetter cs cs') :
    (c = '\r' ∧ cs.head? = some '\n') ↔ (c' = '\r' ∧ cs'.head? = some '\n') := by
  rw [Likeness.recased_allows.eq_iff hc (by decide : isNameStart '\r' = false), letters_head? h]

theorem letters_normalize (h : List.Forall₂ SameLetter cs cs') :
    List.Forall₂ SameLetter (normalize cs) (normalize cs') := by
  induction h with
  | nil => exact .nil
  | cons hc htail ih =>
    simp only [normalize_cons_eq, letters_break hc htail]
    split
    · exact ih
    · exact .cons hc ih

theorem forall₂_append_left {α β : Type} {R : α → β → Prop} {xs ys : List α} {zs : List β}
    (h : List.Forall₂ R (xs ++ ys) zs) : ∃ xs' ys', zs = xs' ++ ys' ∧ List.Forall₂ R xs xs' ∧ List.Forall₂ R ys ys' := by
  induction xs generalizing zs with
  | nil => exact ⟨[], zs, rfl, .nil, h⟩
  | cons x xs ih =>
    obtain _ | ⟨hx, htail⟩ := h
    obtain ⟨xs', ys', rfl, hxs, hys⟩ := ih htail
    exact ⟨_ :: xs', ys', rfl, .cons hx hxs, hys⟩

namespace Recased

theorem letters (h : Recased cs cs') : List.Forall₂ SameLetter cs cs' := by
  induction h with
  | nil => exact .nil
  | gap _ _ _ _ hrel _ ih => exact List.rel_append hrel ih
  | char _ _ hc _ ih => exact .cons hc ih
  | text _ _ ih => exact .cons rfl (List.rel_append (letters_refl _) (.cons rfl ih))
  | openText _ _ _ ih => exact .cons rfl ih
  | openComment _ _ hrel => exact .cons rfl hrel

theorem normalize_gap {g g' : List Char} (hg : IsGap g) (hrel : List.Forall₂ SameLetter g g')
    (hrest : List.Forall₂ SameLetter rest rest') (h : Recased (normalize rest) (normalize rest')) :
    Recased (normalize (g ++ rest)) (normalize (g' ++ rest')) := by
  induction hg generalizing g' with
  | nil =>
    cases hrel
    exact h
  | @blank c g hblank _ ih =>
    obtain _ | ⟨hc, htail⟩ := hrel
    -- A carriage return before a line feed is dropped in both texts or in none.
    simp only [List.cons_append, normalize_cons_eq, letters_break hc (List.rel_append htail hrest)]
    split
    · exact ih htail
    · have hquote : c ≠ '"' := by
        rintro rfl
        exact absurd hblank (by decide)
      exact .char hquote (isBlank_ne hblank).1 hc (ih htail)
  | @comment body g hbody _ ih =>
    obtain _ | ⟨hopen, htail⟩ := hrel
    obtain ⟨body', _, rfl, hletters, _ | ⟨hclose, hmore⟩⟩ := forall₂_append_left htail
    -- The braces are no letters, so they are the same in both.
    obtain rfl := (Likeness.recased_allows.eq_iff hopen (by decide : isNameStart '{' = false)).mp rfl
    obtain rfl := (Likeness.recased_allows.eq_iff hclose (by decide : isNameStart '}' = false)).mp rfl
    have hbody' : '}' ∉ body' := not_mem_of_letters hletters hbody (by decide)
    have hgap : ∀ {cs : List Char}, '}' ∉ cs → IsGap ('{' :: (normalize cs ++ ['}'])) := fun hcs =>
      .comment (fun hmem => hcs (mem_of_mem_normalize hmem)) .nil
    rw [List.cons_append, List.cons_append, List.append_assoc, List.append_assoc, List.cons_append, List.cons_append,
      normalize_comment, normalize_comment]
    refine .gap (hgap hbody) (hgap hbody') (by simp) (by simp) (.cons rfl ?_) (ih hmore)
    exact List.rel_append (letters_normalize hletters) (.cons rfl .nil)

theorem normalized (h : Recased cs cs') : Recased (normalize cs) (normalize cs') := by
  induction h with
  | nil => exact .nil
  | gap hg _ _ _ hrel hrest ih => exact normalize_gap hg hrel (letters hrest) ih
  | char hquote hbrace hc hrest ih =>
    simp only [normalize_cons_eq, letters_break hc (letters hrest)]
    split
    · exact ih
    · exact .char hquote hbrace hc ih
  | @text body rest rest' hbody hrest ih =>
    -- There is no line feed in a quoted text, so no carriage return is dropped there.
    have hsplit : ∀ more, normalize ('"' :: (body ++ '"' :: more)) = '"' :: (body ++ '"' :: normalize more) := by
      intro more
      rw [normalize_cons (by simp), normalize_append (by decide), normalize_cons (c := '"') (by simp),
        normalize_eq_self fun hinside => (hbody '\n' (hinside.subset (by simp))).2 rfl]
    rw [hsplit, hsplit]
    exact .text hbody ih
  | openText hr hr' hrest ih =>
    rw [normalize_cons (by simp), normalize_cons (by simp)]
    exact .openText (unpaired_normalize.mpr hr) (unpaired_normalize.mpr hr') ih
  | openComment hr hr' hrel =>
    rw [normalize_cons (by simp), normalize_cons (by simp)]
    exact .openComment (fun hmem => hr (mem_of_mem_normalize hmem)) (fun hmem => hr' (mem_of_mem_normalize hmem))
      (letters_normalize hrel)

end Recased

end Source

/-! ## Sources in other cases -/

/-- Both sources are read to programs that run the same, or both are refused for the same fault. -/
theorem Program.parse_recased {s s' : String} (pedantic : Bool) (h : Recased s.toList s'.toList) :
    Agree True Likeness.recased.FaultLike
      (fun p p' => Likeness.recased.ProgramLike p p' ∧ Likeness.recased.RunsAlike p p')
      (Program.parse s pedantic) (Program.parse s' pedantic) := by
  have hlexemes : Likeness.recased.LexemesLike (.ofText s.toList) (.ofText s'.toList) :=
    Likeness.recased_allows.lexemes_revised ⟨rfl, h.normalized⟩
  have hagree : Agree True _ _ (Program.parse s pedantic) (Program.parse s' pedantic) :=
    Likeness.parse_agree hlexemes fun p q hpq _ => congrArg Position.col hpq
  have hword : ∀ a, Likeness.recased.word a a := fun a => letters_refl a.toList
  rcases hagree.cases with ⟨p, p', hp, hp', hlike⟩ | ⟨e, e', he, he', hfault⟩ | ⟨_, _, _, _, hstrict⟩
  · obtain ⟨lines, hlines, rfl⟩ := Program.parse_eq_ofLines hp
    rw [hp, hp']
    exact ⟨hlike, Likeness.runsAlike hword (Program.ofLines_wellFormed hlines) hlike⟩
  · rw [he, he']
    exact hfault
  · exact absurd trivial hstrict

/-- The case of words and names changes, that of the quoted text does not. -/
theorem Program.parse_recased_loop :
    Recased "Loop: If n<2 Then Set n=n+1 Goto loop DrawText(1,n,\"Ab\")".toList
      "LOOP: iF N<2 THEN sET n=N+1 goto Loop DRAWTEXT(1,N,\"Ab\")".toList ∧
    Likeness.recased.HostLike Eq (Host.silent fun _ (w : Unit) => w) (Host.silent fun _ w => w) ∧
    ∃ p p', Program.parse "Loop: If n<2 Then Set n=n+1 Goto loop DrawText(1,n,\"Ab\")" true = .ok p ∧
      Program.parse "LOOP: iF N<2 THEN sET n=N+1 goto Loop DRAWTEXT(1,N,\"Ab\")" true = .ok p' ∧
      Likeness.recased.ProgramLike p p' ∧ Likeness.recased.RunsAlike p p' := by
  have h : Recased "Loop: If n<2 Then Set n=n+1 Goto loop DrawText(1,n,\"Ab\")".toList
      "LOOP: iF N<2 THEN sET n=N+1 goto Loop DRAWTEXT(1,N,\"Ab\")".toList := by
    have htext : Recased "\"Ab\")".toList "\"Ab\")".toList := Revised.refl letters_refl SameLetter.refl _
    have hrun : List.Forall₂ SameLetter "Loop: If n<2 Then Set n=n+1 Goto loop DrawText(1,n,".toList
      "LOOP: iF N<2 THEN sET n=N+1 goto Loop DRAWTEXT(1,N,".toList := by decide +kernel
    simpa only [String.reduceToList, List.cons_append, List.nil_append] using Revised.chars hrun (by simp) htext
  have hhost : Likeness.recased.HostLike Eq (Host.silent fun _ (w : Unit) => w) (Host.silent fun _ w => w) :=
    ⟨fun _ _ => rfl, fun _ _ => rfl, fun _ _ => rfl⟩
  have hp : (Program.parse "Loop: If n<2 Then Set n=n+1 Goto loop DrawText(1,n,\"Ab\")" true).toOption.map (·.labels) =
      some [("LOOP", 1)] := by decide +kernel
  obtain ⟨p, hp, -⟩ := Except.exists_of_map_toOption hp
  have hread := parse_recased true h
  rw [hp] at hread
  obtain ⟨p', hp', hlike, hruns⟩ := hread.of_ok
  exact ⟨h, hhost, p, p', hp, hp', hlike, hruns⟩

end GraphicsBatch
