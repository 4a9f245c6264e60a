import GraphicsBatch.Proofs.Reachable

/-!
# Where errors come from

A program that was read never fails on an undefined label by itself. If such an error leaves an operation,
the host raised it.
-/

namespace GraphicsBatch

namespace Engine

variable {g : Engine} {s : State} {st : Statement}

/-! ## Errors of a statement -/

theorem refuse_kind {kind : ErrorKind} {n : Int} {pos : Position} {e : ProgramError}
    (h : refuse kind n pos = .error e) : e.kind = kind := by
  unfold refuse at h
  split at h
  · cases h
    rfl
  · cases h

theorem plan_error {e : ProgramError} (wf : g.program.WellFormed) (hst : g.program.statements[s.pc]? = some st)
    (h : plan g.program g.maxStack s st = .error (.error e)) : e.kind ≠ .undefinedLabel := by
  have hrefused := refused_of_plan h
  have hdefined := fun l => wf.lookup_ne_none (l := l) hst
  generalize st.action = a at hrefused hdefined
  generalize hhalt : Halt.error e = halt at hrefused
  cases hrefused with
  | goto hnone => exact absurd hnone (hdefined _ (List.mem_singleton.mpr rfl))
  | gosub _ hnone => exact absurd hnone (hdefined _ (List.mem_singleton.mpr rfl))
  | overflow _ | badKey _ _ =>
    rw [refuse_kind hhalt.symm]
    decide
  | _ =>
    cases hhalt
    simp

end Engine

/-! ## Errors of the host -/

namespace Host

variable {σ : Type}

/-- States that the host comes to when it is asked and told things. -/
inductive Follows (h : Host σ) (w : σ) : σ → Prop where
  | refl : Follows h w w
  | call {w' : σ} (r : Request) : Follows h w w' → Follows h w (h.call r w').2
  | note {w' : σ} (record : Record) : Follows h w w' → Follows h w (h.note record w')

/-- Starting from `w`, the host came to answer a request with an error, and is in the state `w'` now. -/
def Raised (h : Host σ) (w w' : σ) (e : ProgramError) : Prop :=
  ∃ r w₀, h.Follows w w₀ ∧ h.call r w₀ = (.error (.error e), w')

variable {h : Host σ} {w w' w'' : σ} {e : ProgramError}

theorem Follows.trans (h₁ : h.Follows w w') (h₂ : h.Follows w' w'') : h.Follows w w'' := by
  induction h₂ with
  | refl => exact h₁
  | call r _ ih => exact ih.call r
  | note record _ ih => exact ih.note record

theorem Raised.of_follows (h₁ : h.Follows w w') (h₂ : h.Raised w' w'' e) : h.Raised w w'' e := by
  obtain ⟨r, w₀, hfollows, hcall⟩ := h₂
  exact ⟨r, w₀, h₁.trans hfollows, hcall⟩

theorem follows_ask (r : Request) (w : σ) : h.Follows w (h.ask r w).2 := by
  rw [ask_snd]
  exact Follows.refl.call r

theorem ask_error {r : Request} (ha : h.ask r w = (.error (.error e), w')) (he : e.kind = .undefinedLabel) :
    h.Raised w w' e := by
  unfold ask at ha
  split at ha
  · cases ha
  · rename_i sig w₁ hcall
    cases sig with
    | error e' =>
      cases ha
      exact ⟨r, w, .refl, hcall⟩
    | failure f =>
      cases ha
      cases he
    | exit => cases ha
    | interrupt => cases ha

theorem follows_askAll (rs : List Request) (w : σ) : h.Follows w (h.askAll rs w).2 := by
  induction rs generalizing w with
  | nil => exact .refl
  | cons r rs ih =>
    have hfirst := @follows_ask σ h r w
    unfold askAll
    split
    · rename_i w₁ heq
      rw [heq] at hfirst
      exact hfirst
    · rename_i reply w₁ heq
      rw [heq] at hfirst
      have hrest := ih w₁
      split
      · rename_i w₂ heq'
        rw [heq'] at hrest
        exact hfirst.trans hrest
      · rename_i w₂ heq'
        rw [heq'] at hrest
        exact hfirst.trans hrest

theorem askAll_error {rs : List Request} (ha : h.askAll rs w = (.error (.error e), w'))
    (he : e.kind = .undefinedLabel) : h.Raised w w' e := by
  induction rs generalizing w with
  | nil => cases ha
  | cons r rs ih =>
    unfold askAll at ha
    split at ha
    · rename_i heq
      cases ha
      exact ask_error heq he
    · rename_i reply w₁ heq
      have hfirst : h.Follows w w₁ := by
        have := @follows_ask σ h r w
        rwa [heq] at this
      split at ha
      · rename_i heq'
        cases ha
        exact (ih heq').of_follows hfirst
      · cases ha

end Host

namespace Engine

variable {σ : Type} {g : Engine} {h : Host σ} {m m' : Machine σ} {st : Statement} {e : ProgramError}

/-! ### Errors of an operation -/

theorem follows_perform : h.Follows m.world (g.perform h st m).1.world :=
  perform_keeps (fun _ hw => hw.call .checkEvents) (fun pl w _ hw => hw.trans (Host.follows_askAll pl.requests w)) .refl

theorem preserves_follows (g : Engine) (h : Host σ) (w : σ) : g.Preserves h fun m => h.Follows w m.world where
  place _ hm := hm
  note r hm := hm.note r
  terminate hm := hm
  perform _ _ hm := hm.trans follows_perform
  react _ hm := hm

theorem follows_entering : h.Follows m.world (g.entering h st m).world :=
  (preserves_follows g h m.world).entering .refl

theorem follows_step : h.Follows m.world (g.step h m).1.world := (preserves_follows g h m.world).step .refl

section

variable (wf : g.program.WellFormed)

include wf

theorem perform_raised (hst : g.program.statements[m.state.pc]? = some st)
    (hp : g.perform h st m = (m', some (.error e))) (he : e.kind = .undefinedLabel) :
    h.Raised m.world m'.world e := by
  have hperformed := performed g h st m
  rw [hp] at hperformed
  cases hperformed with
  | unchecked hask => exact Host.ask_error hask he
  | refused _ hplan => exact absurd he (plan_error wf hst hplan)
  | denied hask _ hall =>
    have hfollows := Host.follows_ask (h := h) .checkEvents m.world
    rw [hask] at hfollows
    exact (Host.askAll_error hall he).of_follows hfollows

theorem step_raised (hstep : g.step h m = (m', .error (.error e))) (he : e.kind = .undefinedLabel) :
    ∃ e' pos, h.Raised m.world m'.world e' ∧ e = e'.locate pos := by
  obtain ⟨st, m₁, e', hst, hp, rfl, rfl⟩ := step_eq_error hstep
  have hraised := perform_raised wf (m := g.entering h st m) hst hp he
  exact ⟨e', st.pos, hraised.of_follows follows_entering, rfl⟩

theorem run_raised {fuel : Nat} (hrun : g.run h fuel m = (m', .error (.error e))) (he : e.kind = .undefinedLabel) :
    ∃ e' pos, h.Raised m.world m'.world e' ∧ e = e'.locate pos := by
  induction fuel generalizing m with
  | zero => cases hrun
  | succ fuel ih =>
    unfold run at hrun
    split at hrun
    · cases hrun
    · split at hrun
      · rename_i m₁ heq
        have hfollows := @follows_step σ g h m
        rw [heq] at hfollows
        obtain ⟨e', pos, hraised, rfl⟩ := ih hrun
        exact ⟨e', pos, hraised.of_follows hfollows, rfl⟩
      · rename_i heq
        cases hrun
        exact step_raised wf heq he

theorem resume_raised {fuel : Nat} {ev : Event} (hs : g.Sound m.state)
    (hres : g.resume h fuel ev m = (m', .error (.error e))) (he : e.kind = .undefinedLabel) :
    ∃ e' pos, h.Raised m.world m'.world e' ∧ e = e'.locate pos := by
  have hresumed := resumed g h fuel ev m
  generalize g.resume h fuel ev m = r at hresumed hres
  cases hresumed with
  | @woken _ s _ _ _ => exact run_raised (m := ⟨s, m.world⟩) wf hres he
  | refused hwait _ hreact =>
    cases hres
    rcases react_sound wf hs hwait _ with ⟨r, hr, -⟩ | hr
    · rw [hreact] at hr
      cases hr
    · rw [hreact] at hr
      cases hr
  | _ => cases hres

theorem apply_raised {op : Op} (hs : g.Sound m.state) (hop : g.apply h m op = (m', .error (.error e)))
    (he : e.kind = .undefinedLabel) : ∃ e' pos, h.Raised m.world m'.world e' ∧ e = e'.locate pos := by
  cases op with
  | step => exact step_raised wf hop he
  | run fuel => exact run_raised wf hop he
  | resume fuel ev => exact resume_raised wf hs hop he
  | assign name value => cases hop

end

/-- Every operation keeps the invariant, and an undefined label that leaves it was raised by the host. -/
theorem after_sound_of_parse {source : String} {pedantic : Bool} {p : Program}
    (hp : Program.parse source pedantic = .ok p) (maxStack : Int) (trace : Bool) (h : Host σ) (w : σ) (ops : List Op) :
    Sound ⟨p, maxStack, trace⟩ (after ⟨p, maxStack, trace⟩ h ⟨{}, w⟩ ops).state ∧
    ∀ (op : Op) (m' : Machine σ) (e : ProgramError),
      apply ⟨p, maxStack, trace⟩ h (after ⟨p, maxStack, trace⟩ h ⟨{}, w⟩ ops) op = (m', .error (.error e)) →
      e.kind = .undefinedLabel →
      ∃ e' pos, h.Raised (after ⟨p, maxStack, trace⟩ h ⟨{}, w⟩ ops).world m'.world e' ∧ e = e'.locate pos := by
  obtain ⟨lines, hl, rfl⟩ := Program.parse_eq_ofLines hp
  have wf := Program.ofLines_wellFormed hl
  have hs := after_sound (g := ⟨.ofLines lines, maxStack, trace⟩) (h := h) (m := ⟨{}, w⟩) wf (sound_init _) ops
  exact ⟨hs, fun op m' e hop he => apply_raised wf hs hop he⟩

theorem after_sound_of_parse_wait : ∃ p,
    Program.parse "SetMouse(0,0,9,9,Go,x,y) SetKeyboard(13,go,\"^q\",GO)\nGo: WaitInput(n) Gosub go" false = .ok p ∧
      Sound ⟨p, 3, true⟩ (after ⟨p, 3, true⟩ (.silent fun _ w => w) ⟨{}, ()⟩
        [.run 9, .assign "n" (-5), .resume 9 ⟨.keyDown, [.int 13]⟩ rfl, .resume 2 ⟨.timeout, []⟩ rfl, .step]).state := by
  cases h : Program.parse
      "SetMouse(0,0,9,9,Go,x,y) SetKeyboard(13,go,\"^q\",GO)\nGo: WaitInput(n) Gosub go" false with
  | error e =>
    have hok : (Program.parse
        "SetMouse(0,0,9,9,Go,x,y) SetKeyboard(13,go,\"^q\",GO)\nGo: WaitInput(n) Gosub go"
        false).toOption.isSome = true := by decide +kernel
    rw [h] at hok
    cases hok
  | ok p => exact ⟨p, rfl, (after_sound_of_parse h 3 true _ () _).1⟩

end Engine

end GraphicsBatch
