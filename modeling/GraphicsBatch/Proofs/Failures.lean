import GraphicsBatch.Proofs.Errors
import GraphicsBatch.Proofs.Planned

/-!
# Steps that fail

A step that fails ends the run where it stands: nothing is pushed, popped, assigned or skipped. What the host
signals on the way decides how the step ends, and a run that has ended stays as it is.
-/

namespace GraphicsBatch

/-! ## What the host signals -/

namespace Host

variable {σ : Type} {h : Host σ} {rs : List Request} {w w' : σ} {sig : Signal}

/-- Asked for one thing after the other from a state on, the host comes to signal, and is in another state then. -/
inductive Signals (h : Host σ) : List Request → σ → Signal → σ → Prop where
  | here {r : Request} {rs : List Request} {w w' : σ} {sig : Signal} :
      h.call r w = (.error sig, w') → Signals h (r :: rs) w sig w'
  | later {r : Request} {rs : List Request} {w w₁ w' : σ} {reply : Datum} {sig : Signal} :
      h.call r w = (.ok reply, w₁) → Signals h rs w₁ sig w' → Signals h (r :: rs) w sig w'

theorem ask_eq_ok {r : Request} {reply : Datum} : h.ask r w = (.ok reply, w') ↔ h.call r w = (.ok reply, w') := by
  unfold ask
  split
  · rename_i hcall
    rw [hcall]
    simp
  · rename_i hcall
    rw [hcall]
    simp

theorem askAll_singleton_eq_ok {r : Request} {reply : Datum} (hask : h.askAll [r] w = (.ok reply, w')) :
    h.call r w = (.ok reply, w') := by
  simp only [askAll] at hask
  split at hask
  · cases hask
  · rename_i hr
    cases hask
    exact ask_eq_ok.mp hr

theorem ask_eq_error {r : Request} {halt : Halt} :
    h.ask r w = (.error halt, w') ↔ ∃ sig, h.call r w = (.error sig, w') ∧ halt = .ofSignal sig := by
  unfold ask
  split
  · rename_i hcall
    rw [hcall]
    simp
  · rename_i sig w₁ hcall
    rw [hcall]
    constructor
    · intro heq
      cases heq
      exact ⟨sig, rfl, rfl⟩
    · rintro ⟨sig', heq, rfl⟩
      cases heq
      rfl

theorem askAll_eq_error {halt : Halt} :
    h.askAll rs w = (.error halt, w') ↔ ∃ sig, h.Signals rs w sig w' ∧ halt = .ofSignal sig := by
  induction rs generalizing w with
  | nil =>
    constructor
    · intro heq
      cases heq
    · rintro ⟨sig, hsig, -⟩
      cases hsig
  | cons r rs ih =>
    unfold askAll
    cases hfirst : h.ask r w with
    | mk answer w₁ =>
      cases answer with
      | error halt₁ =>
        obtain ⟨sig₁, hcall, rfl⟩ := ask_eq_error.mp hfirst
        constructor
        · intro heq
          cases heq
          exact ⟨sig₁, .here hcall, rfl⟩
        · rintro ⟨sig, hsig, rfl⟩
          cases hsig with
          | here hcall' =>
            rw [hcall] at hcall'
            cases hcall'
            rfl
          | later hcall' _ =>
            rw [hcall] at hcall'
            cases hcall'
      | ok reply =>
        have hcall := ask_eq_ok.mp hfirst
        have hrest : (∃ sig, h.Signals (r :: rs) w sig w' ∧ halt = .ofSignal sig) ↔
            h.askAll rs w₁ = (.error halt, w') := by
          rw [ih]
          constructor
          · rintro ⟨sig, hsig, heq⟩
            cases hsig with
            | here hcall' =>
              rw [hcall] at hcall'
              cases hcall'
            | later hcall' hlater =>
              rw [hcall] at hcall'
              cases hcall'
              exact ⟨sig, hlater, heq⟩
          · rintro ⟨sig, hsig, heq⟩
            exact ⟨sig, .later hcall hsig, heq⟩
        rw [hrest]
        dsimp only
        cases hall : h.askAll rs w₁ with
        | mk answers w₂ => cases answers <;> simp

theorem askAll_cons_snd {r : Request} {reply : Datum} (hr : h.ask r w = (.ok reply, w')) :
    (h.askAll (r :: rs) w).2 = (h.askAll rs w').2 := by
  simp only [askAll, hr]
  rcases h.askAll rs w' with ⟨_ | _, w''⟩ <;> rfl

theorem askAll_keeps {P : σ → Prop} (hrs : ∀ r ∈ rs, ∀ w, P w → P (h.call r w).2) (hw : P w) : P (h.askAll rs w).2 := by
  induction rs generalizing w with
  | nil => exact hw
  | cons r rs ih =>
    have hfirst : P (h.ask r w).2 := by
      rw [ask_snd]
      exact hrs r List.mem_cons_self w hw
    rcases hr : h.ask r w with ⟨_ | reply, w₁⟩ <;> rw [hr] at hfirst
    · simpa only [askAll, hr] using hfirst
    · rw [askAll_cons_snd hr]
      exact ih (fun r' hr' => hrs r' (List.mem_cons_of_mem _ hr')) hfirst

end Host

/-! ## Keys that do not exist -/

theorem keysOfArgs_mem {vs : List Value} {keys : List (Value × String)} {n : Int}
    (hkeys : keysOfArgs vs = .ok keys) (hn : .int n ∈ vs) : ∃ l, (.int n, l) ∈ keys := by
  fun_induction keysOfArgs vs generalizing keys with
  | case1 => cases hn
  | case2 => cases hkeys
  | case3 key label rest ih =>
    simp only [Except.bind_eq_ok] at hkeys
    obtain ⟨name, hname, keys', hkeys', heq⟩ := hkeys
    cases heq
    rcases List.mem_cons.mp hn with rfl | hn
    · exact ⟨name, List.mem_cons_self⟩
    · rcases List.mem_cons.mp hn with rfl | hn
      · cases hname
      · obtain ⟨l, hl⟩ := ih hkeys' hn
        exact ⟨l, List.mem_cons_of_mem _ hl⟩

theorem planCall_unknownKey {s : State} {args : List Argument} {n : Int} (pos : Position)
    (hn : .int n ∈ args.map s.resolve) (hbad : isVirtualKey n = false) :
    ∃ halt, planCall s .setKeyboard args pos = .error halt := by
  simp only [planCall]
  split
  · rename_i keys hkeys
    obtain ⟨l, hl⟩ := keysOfArgs_mem hkeys hn
    split
    · exact ⟨_, rfl⟩
    · rename_i hnone
      have := List.findSome?_eq_none_iff.mp hnone _ hl
      simp [hbad] at this
  · exact ⟨_, rfl⟩

/-! ## One statement -/

namespace Engine

variable {σ : Type} {g : Engine} {h : Host σ} {m m' : Machine σ} {st : Statement}

/-- All that a step asks of the host, in this order, as long as it answers. -/
def requests (g : Engine) (st : Statement) (s : State) : List Request :=
  .checkEvents :: match plan g.program g.maxStack s st with
    | .ok pl => pl.requests
    | .error _ => []

theorem perform_of_signals {sig : Signal} {w' : σ} (hsig : h.Signals (g.requests st m.state) m.world sig w') :
    ∃ s', g.perform h st m = (⟨s', w'⟩, some (.ofSignal sig)) ∧ Spares st.action m.state s' ∧
      s'.lastPos = m.state.lastPos := by
  unfold requests at hsig
  unfold perform
  cases hsig with
  | here hcall =>
    rw [Host.ask_eq_error.mpr ⟨sig, hcall, rfl⟩]
    exact ⟨m.state, rfl, .refl _ _, rfl⟩
  | later hcall hlater =>
    rw [Host.ask_eq_ok.mpr hcall]
    dsimp only
    split at hlater
    · rename_i pl hplan
      rw [hplan]
      dsimp only
      rw [Host.askAll_eq_error.mpr ⟨sig, hlater, rfl⟩]
      have hpl := planned_of_plan hplan
      exact ⟨pl.prepared, rfl, hpl.spares_prepared, hpl.prepared_status.2⟩
    · cases hlater

theorem perform_halted {halt : Halt} (hp : g.perform h st m = (m', some halt)) :
    Spares st.action m.state m'.state ∧ m'.state.lastPos = m.state.lastPos ∧
      ((∃ sig, h.Signals (g.requests st m.state) m.world sig m'.world ∧ halt = .ofSignal sig) ∨
        Refused g.program g.maxStack m.state st.pos st.action halt ∨ ∃ f, halt = .conversion f) := by
  have hperformed := performed g h st m
  rw [hp] at hperformed
  unfold requests
  cases hperformed with
  | unchecked hask =>
    obtain ⟨sig, hcall, rfl⟩ := Host.ask_eq_error.mp hask
    exact ⟨.refl _ _, rfl, .inl ⟨sig, .here hcall, rfl⟩⟩
  | refused _ hplan => exact ⟨.refl _ _, rfl, .inr (.inl (refused_of_plan hplan))⟩
  | denied hask hplan hall =>
    obtain ⟨sig, hsig, rfl⟩ := Host.askAll_eq_error.mp hall
    have hpl := planned_of_plan hplan
    rw [hplan]
    exact ⟨hpl.spares_prepared, hpl.prepared_status.2, .inl ⟨sig, .later (Host.ask_eq_ok.mp hask) hsig, rfl⟩⟩
  | unread _ hplan _ _ =>
    have hpl := planned_of_plan hplan
    exact ⟨hpl.spares_prepared, hpl.prepared_status.2, .inr (.inr ⟨_, rfl⟩)⟩

/-! ## Runs that have ended -/

/-- The statement has ended the run and left all else as it was. -/
structure Ended (st : Statement) (s s' : State) : Prop extends Spares st.action s s' where
  status : s'.status = .terminated
  timeout : s'.timeout = none
  lastPos : s'.lastPos = some st.pos

theorem ended_terminate {s' : State} (hs : Spares st.action (g.entering h st m).state s')
    (hlast : s'.lastPos = (g.entering h st m).state.lastPos) : Ended st m.state s'.terminate :=
  ⟨⟨hs.pc, hs.callStack, hs.vars, hs.mouse, hs.keyboard, hs.menu, hs.waitMode⟩, rfl, rfl, hlast⟩

theorem step_of_signals {sig : Signal} {w' : σ} (hrun : m.state.status = .running)
    (hst : g.program.statements[m.state.pc]? = some st)
    (hsig : h.Signals (g.requests st (g.entering h st m).state) (g.entering h st m).world sig w') :
    ∃ s', g.step h m = conclude h st.pos (⟨s', w'⟩, some (.ofSignal sig)) ∧ Ended st m.state s'.terminate := by
  obtain ⟨s', hp, hspares, hlast⟩ := perform_of_signals hsig
  exact ⟨s', by rw [step_eq_conclude hrun hst, hp], ended_terminate hspares hlast⟩

theorem step_error {e : ProgramError} (hstep : g.step h m = (m', .error (.error e))) :
    ∃ st, g.program.statements[m.state.pc]? = some st ∧ Ended st m.state m'.state ∧
      (e.pos = some st.pos ∨ e.pos.isSome = true ∧
        h.Signals (g.requests st (g.entering h st m).state) (g.entering h st m).world (.error e) m'.world) := by
  obtain ⟨st, m₁, e₁, hst, hp, rfl, rfl⟩ := step_eq_error hstep
  obtain ⟨hspares, hlast, hcause⟩ := perform_halted hp
  refine ⟨st, hst, ended_terminate hspares hlast, ?_⟩
  rcases hcause with ⟨sig, hsig, heq⟩ | hrefused | ⟨f, heq⟩
  · cases sig with
    | error e₂ =>
      cases heq
      -- An error that the host has placed keeps its place, and any other gets that of the statement.
      cases hpos : e₁.pos with
      | none => exact .inl (by simp [ProgramError.locate, hpos])
      | some pos =>
        rw [ProgramError.locate_of_pos hpos]
        exact .inr ⟨by simp [hpos], hsig⟩
    | failure f =>
      cases heq
      exact .inl rfl
    | exit => cases heq
    | interrupt => cases heq
  · exact .inl hrefused.locate_pos
  · cases heq

theorem step_of_refused {halt : Halt} (hrun : m.state.status = .running)
    (hst : g.program.statements[m.state.pc]? = some st)
    (hplan : plan g.program g.maxStack (g.entering h st m).state st = .error halt) :
    (g.step h m).1.state.bindings = m.state.bindings ∧
      ∃ w', w' = (h.call .checkEvents (g.entering h st m).world).2 ∧
        ((g.step h m).1.world = w' ∨ (g.step h m).1.world = h.note shutDown w') := by
  have hperform : ∃ halt', g.perform h st (g.entering h st m) =
      (⟨(g.entering h st m).state, (h.call .checkEvents (g.entering h st m).world).2⟩, some halt') := by
    rw [← Host.ask_snd]
    unfold perform
    split
    · rename_i e w hask
      exact ⟨e, by rw [hask]⟩
    · rename_i w hask
      rw [hplan]
      exact ⟨halt, by rw [hask]⟩
  obtain ⟨halt', hperform⟩ := hperform
  rw [step_eq_conclude hrun hst, hperform]
  cases halt' with
  | exit => exact ⟨rfl, _, rfl, .inr rfl⟩
  | interrupt => exact ⟨rfl, _, rfl, .inl rfl⟩
  | error e => exact ⟨rfl, _, rfl, .inl rfl⟩
  | conversion f => exact ⟨rfl, _, rfl, .inl rfl⟩

/-! ### Nothing happens any more -/

theorem apply_of_terminated (hend : m.state.status = .terminated) {op : Op} (hop : op.drives = true) :
    g.apply h m op = (m, .ok ()) := by
  cases op with
  | step => simp [apply, step, hend]
  | run fuel => cases fuel <;> simp [apply, run, hend]
  | resume fuel e => simp [apply, resume, hend]
  | assign name value => cases hop

theorem after_of_terminated (hend : m.state.status = .terminated) {ops : List Op} (hops : ∀ op ∈ ops, op.drives = true) :
    g.after h m ops = m := by
  induction ops with
  | nil => rfl
  | cons op ops ih =>
    unfold after
    rw [List.foldl_cons, apply_of_terminated hend (hops op List.mem_cons_self)]
    exact ih fun op' hmem => hops op' (List.mem_cons_of_mem _ hmem)

/-- A step that fails ends the run and leaves it as it was, in whatever state and with whatever host. -/
theorem step_failed_ends_intact (g : Engine) (h : Host σ) (m : Machine σ) :
    (∀ m' e, g.step h m = (m', .error (.error e)) →
      ∃ st, g.program.statements[m.state.pc]? = some st ∧ Ended st m.state m'.state ∧
        (e.pos = some st.pos ∨ e.pos.isSome = true ∧
          h.Signals (g.requests st (g.entering h st m).state) (g.entering h st m).world (.error e) m'.world)) ∧
    (∀ st sig w', m.state.status = .running → g.program.statements[m.state.pc]? = some st →
      h.Signals (g.requests st (g.entering h st m).state) (g.entering h st m).world sig w' →
      (sig = .exit → ∃ s', g.step h m = (⟨s', h.note shutDown w'⟩, .ok ()) ∧ Ended st m.state s') ∧
      (∀ e, sig = .error e →
        ∃ s', g.step h m = (⟨s', w'⟩, .error (.error (e.locate st.pos))) ∧ Ended st m.state s') ∧
      (∀ f, sig = .failure f →
        ∃ s', g.step h m = (⟨s', w'⟩, .error (.error { kind := .host, detail := f.describe, pos := some st.pos })) ∧
          Ended st m.state s')) ∧
    (∀ st args n, m.state.status = .running → g.program.statements[m.state.pc]? = some st →
      st.action = .call .setKeyboard args → .int n ∈ args.map m.state.resolve → isVirtualKey n = false →
      (g.step h m).1.state.bindings = m.state.bindings ∧
        ∃ w', w' = (h.call .checkEvents (g.entering h st m).world).2 ∧
          ((g.step h m).1.world = w' ∨ (g.step h m).1.world = h.note shutDown w')) ∧
    (m.state.status = .terminated →
      (∀ op : Op, op.drives = true → g.apply h m op = (m, .ok ())) ∧
      ∀ ops : List Op, (∀ op ∈ ops, op.drives = true) → g.after h m ops = m) := by
  refine ⟨fun m' e hstep => step_error hstep, ?_, ?_, ?_⟩
  · intro st sig w' hrun hst hsig
    obtain ⟨s', hstep, hended⟩ := step_of_signals hrun hst hsig
    refine ⟨?_, ?_, ?_⟩
    · rintro rfl
      exact ⟨_, hstep, hended⟩
    · rintro e rfl
      exact ⟨_, hstep, hended⟩
    · rintro f rfl
      exact ⟨_, hstep, hended⟩
  · intro st args n hrun hst hact hn hbad
    obtain ⟨halt, hcall⟩ := planCall_unknownKey (s := (g.entering h st m).state) st.pos hn hbad
    have hplan : plan g.program g.maxStack (g.entering h st m).state st = .error halt := by
      unfold plan
      rw [hact]
      exact hcall
    exact step_of_refused hrun hst hplan
  · intro hend
    exact ⟨fun op hop => apply_of_terminated hend hop, fun ops hops => after_of_terminated hend hops⟩

def sampleRegion : Statement :=
  ⟨.call .setMouse [⟨.integer, .int 0⟩, ⟨.integer, .var "n"⟩, ⟨.integer, .int 9⟩, ⟨.integer, .int 9⟩,
    ⟨.label, .label "Go"⟩, ⟨.variable, .var "x"⟩, ⟨.variable, .var "y"⟩], ⟨1, 5⟩⟩

/-- Counts what it is asked, and cannot bind regions. -/
def regionlessHost : Host Nat where
  call
    | .bindMouse .., n => (.error (.failure .outOfRange), n + 1)
    | _, n => (.ok .none, n + 1)
  note _ n := n

theorem step_failed_ends_intact_region : ∃ s',
    step ⟨.ofLines [[⟨.label "Go", ⟨1, 1⟩⟩, sampleRegion]], 3, false⟩ regionlessHost ⟨{ pc := 1 }, 0⟩ =
      (⟨s', 3⟩, .error (.error { kind := .host, detail := "list index out of range", pos := some ⟨1, 5⟩ })) ∧
    Ended sampleRegion { pc := 1 } s' := by
  have hsig : regionlessHost.Signals
      (requests ⟨.ofLines [[⟨.label "Go", ⟨1, 1⟩⟩, sampleRegion]], 3, false⟩ sampleRegion
        { pc := 1, lastPos := some ⟨1, 5⟩ }) 0 (.failure .outOfRange) 3 :=
    .later rfl (.later rfl (.here rfl))
  exact ((step_failed_ends_intact _ regionlessHost ⟨{ pc := 1 }, 0⟩).2.1 sampleRegion _ 3 rfl rfl hsig).2.2 _ rfl

end Engine

end GraphicsBatch
