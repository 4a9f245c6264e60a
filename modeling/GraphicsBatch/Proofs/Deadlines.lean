import GraphicsBatch.Proofs.Histories
import GraphicsBatch.Proofs.Unattended

/-!
# Deadlines

A program that waits knows how long, and its host keeps a deadline. Both are worked out from the argument of the wait, each
for itself, and they agree on whether there is a limit at all. So no event leaves a program in its wait; only a platform
that does not sleep for as long as the wait goes on ends a run there.
-/

namespace GraphicsBatch

/-! ## Waits of a host -/

theorem waitTime_of_ofCall? {args : List Value} {i : Instruction} (h : Instruction.ofCall? .waitInput args = some i) :
    ∃ t, i = .wait t ∧ (waitTime args = none ↔ ∀ n, t ≠ .int n) := by
  unfold Instruction.ofCall? at h
  rcases args with _ | ⟨v, _ | ⟨_, _⟩⟩
  · cases h
    exact ⟨.nothing, rfl, by simp [waitTime]⟩
  · cases h
    refine ⟨v.bare, rfl, ?_⟩
    cases v <;> simp [waitTime, Value.bare]
  · cases h

theorem Panel.carryOut_wait_deadline {p : Panel} {t : Value} {d : Datum} (h : (p.carryOut (.wait t)).1 = .ok d) :
    (p.carryOut (.wait t)).2.deadline = none ↔ ∀ n, t ≠ .int n := by
  simp only [carryOut] at h ⊢
  cases hwait : p.startWait t with
  | error f => simp [hwait] at h
  | ok p' =>
    unfold startWait at hwait
    split at hwait
    · cases hwait
      simp
    · obtain ⟨n, hn, hwait⟩ := Except.bind_eq_ok.mp hwait
      obtain ⟨ms, -, hwait⟩ := Except.bind_eq_ok.mp hwait
      cases hwait
      cases t with
      | int m => simp
      | _ => cases hn

section

variable {σ : Type}

/-- A host of some kind keeps a deadline for each wait that has a limit, and none for the others. -/
structure Host.Times (h : Host σ) (deadline : σ → Option Float) (kind : σ → Prop) : Prop where
  note {w : σ} (r : Record) : kind w → kind (h.note r w) ∧ deadline (h.note r w) = deadline w
  call {w : σ} (r : Request) : kind w → kind (h.call r w).2
  wait {w : σ} {args : List Value} {d : Datum} : kind w → (h.call (.forward .waitInput args) w).1 = .ok d →
    (deadline (h.call (.forward .waitInput args) w).2 = none ↔ waitTime args = none)

/-- While the program waits, both sides agree on whether there is a limit. -/
structure Machine.InStep (deadline : σ → Option Float) (kind : σ → Prop) (m : Machine σ) : Prop where
  kind : kind m.world
  wait : m.state.status = .suspended → (deadline m.world = none ↔ m.state.timeout = none)

variable {h : Host σ} {deadline : σ → Option Float} {kind : σ → Prop}

theorem Host.Times.follows (hh : h.Times deadline kind) {w w' : σ} (hw : h.Follows w w') (hkind : kind w) : kind w' := by
  induction hw with
  | refl => exact hkind
  | call r _ ih => exact hh.call r ih
  | note r _ ih => exact (hh.note r ih).1

theorem Engine.preserves_inStep (hh : h.Times deadline kind) (g : Engine) :
    g.Preserves h (Machine.InStep deadline kind) where
  place _ hm := ⟨hm.kind, hm.wait⟩
  note r hm := by
    obtain ⟨hkind, hsame⟩ := hh.note r hm.kind
    exact ⟨hkind, fun hwait => hsame ▸ hm.wait hwait⟩
  terminate hm := ⟨hm.kind, nofun⟩
  perform {m st} hrun _ hm := by
    have hkind : kind (g.perform h st m).1.world := hh.follows follows_perform hm.kind
    refine ⟨hkind, fun hwait => ?_⟩
    obtain ⟨args, d, -, hcall, htimeout⟩ := perform_suspended hrun hwait
    have hlimit := hh.wait (hh.call .checkEvents hm.kind) (congrArg Prod.fst hcall)
    rwa [hcall, ← htimeout] at hlimit
  react {m i s} hreact hm := by
    refine ⟨hm.kind, fun hwait => ?_⟩
    rcases react_cases hreact with ⟨_, _, _, _, -, -, rfl⟩ | ⟨_, rfl⟩ <;> cases hwait

end

/-! ## The library's hosts -/

theorem Panel.call_wait_deadline {p : Panel} {args : List Value} {d : Datum}
    (h : (p.call (.forward .waitInput args)).1 = .ok d) :
    (p.call (.forward .waitInput args)).2.deadline = none ↔ waitTime args = none := by
  simp only [call, forward] at h ⊢
  cases hi : Instruction.ofCall? .waitInput args with
  | none => simp [instructionOf_none hi, Except.mapError] at h
  | some i =>
    obtain ⟨t, rfl, hlimit⟩ := waitTime_of_ofCall? hi
    simp only [instructionOf_some hi] at h ⊢
    exact (carryOut_wait_deadline (Except.mapError_eq_ok.mp h)).trans hlimit.symm

theorem Headless.call_wait_deadline {h : Headless} {args : List Value} {d : Datum}
    (hd : (h.call (.forward .waitInput args)).1 = .ok d) :
    (h.call (.forward .waitInput args)).2.panel.deadline = none ↔ waitTime args = none := by
  simp only [call, forward] at hd ⊢
  cases htexts : Value.allWritten args with
  | error f => simp [htexts, Except.mapError] at hd
  | ok texts =>
    simp only [htexts] at hd ⊢
    cases hi : Instruction.ofCall? .waitInput args with
    | none => simp [Panel.instructionOf_none hi, Except.mapError] at hd
    | some i =>
      obtain ⟨t, rfl, hlimit⟩ := waitTime_of_ofCall? hi
      simp only [Panel.instructionOf_some hi] at hd ⊢
      exact (Panel.carryOut_wait_deadline (Except.mapError_eq_ok.mp hd)).trans hlimit.symm

theorem Window.call_wait_deadline {w : Window} {args : List Value} {d : Datum}
    (h : (w.call (.forward .waitInput args)).1 = .ok d) :
    (w.call (.forward .waitInput args)).2.panel.deadline = none ↔ waitTime args = none := by
  cases hi : Instruction.ofCall? .waitInput args with
  | none => simp [call, forward, Panel.instructionOf_none hi, Except.mapError] at h
  | some i =>
    obtain ⟨t, rfl, hlimit⟩ := waitTime_of_ofCall? hi
    have hcall := call_forward hi w
    rw [carryOut_plain rfl, run_viaPanel] at hcall
    rw [show w.call (.forward .waitInput args) = host.call (.forward .waitInput args) w from rfl, hcall] at h ⊢
    exact (Panel.carryOut_wait_deadline (Except.mapError_eq_ok.mp h)).trans hlimit.symm

namespace Window

theorem run_waitLimit_untimed {w : Window} (h : w.panel.deadline = none) :
    waitLimit.run.run w = (.ok (some 0), w) := by
  unfold waitLimit
  rw [run_get_bind]
  simp only [Panel.remaining, h]
  rfl

theorem round_untimed {w : Window} {e : Event} (h : w.panel.deadline = none) (he : (round.run.run w).1 = .ok (some e)) :
    Sends e := by
  obtain ⟨limit, hlimit, he⟩ := ok_of_bind he
  rw [run_waitLimit_untimed h] at hlimit
  cases hlimit
  exact (Gives.bind .any fun d _ => eventOf_sends d) _ _ he e rfl

theorem round_gives : Gives (fun o => ∀ e ∈ o, e = { kind := .timeout } ∨ Sends e) round := by
  refine .bind .any fun limit _ => ?_
  cases limit with
  | none =>
    refine .pure ?_
    rintro e ⟨⟩
    exact .inl rfl
  | some ms => exact .bind .any fun d _ w o ho e he => .inr (eventOf_sends d w o ho e he)

theorem await_untimed {fuel : Nat} {w : Window} {e : Event} (h : w.panel.deadline = none)
    (he : ((await fuel).run.run w).1 = .ok (some e)) : Sends e := by
  induction fuel generalizing w with
  | zero => cases he
  | succ fuel ih =>
    obtain ⟨found, hfound, he⟩ := ok_of_bind he
    cases found with
    | some e' =>
      cases he
      exact round_untimed h hfound
    | none => exact ih ((round_later.tends w).deadline.trans h) he

theorem await_gives (fuel : Nat) : Gives (fun o => ∀ e ∈ o, e = { kind := .timeout } ∨ Sends e) (await fuel) := by
  induction fuel with
  | zero => exact .pure nofun
  | succ fuel ih =>
    refine .bind round_gives fun found hfound => ?_
    cases found with
    | none => exact ih
    | some e => exact .pure hfound

theorem waitEvent_timeout {w : Window} {e : Event} (he : (waitEvent.run.run w).1 = .ok (some e))
    (hkind : e.kind = .timeout) :
    e = { kind := .timeout } ∧ w.panel.deadline ≠ none := by
  have hsends : ¬ Sends e := by
    intro hsends
    cases hsends <;> cases hkind
  obtain ⟨_, -, he⟩ := ok_of_bind he
  obtain ⟨_, -, he⟩ := ok_of_bind he
  rw [run_get_bind] at he
  refine ⟨(await_gives _ _ _ he e rfl).resolve_right hsends, fun hnone => hsends (await_untimed ?_ he)⟩
  have hdraw := (Draws.refresh fun _ => False.elim : Draws (fun _ => False) refresh).keeps w
  exact (congrArg (·.panel.deadline) hdraw).trans hnone

end Window

namespace Stage

/-- The deadline that a host keeps, if it keeps any. -/
def deadline (s : Stage) : Option Float := s.panel?.bind (·.deadline)

/-- The host keeps bindings and a deadline. -/
def IsPlugin (s : Stage) : Prop := s.panel?.isSome = true

theorem times : Stage.host.Times deadline IsPlugin where
  note {s} r hs := by cases s <;> exact ⟨hs, rfl⟩
  call {s} r hs := by cases s <;> exact hs
  wait {s args d} hs hd := by
    cases s with
    | empty | scripted => cases hs
    | panel p => exact Panel.call_wait_deadline hd
    | headless h => exact Headless.call_wait_deadline hd
    | window w => exact Window.call_wait_deadline hd

theorem waitEvent_deadline {s : Stage} (hs : s.IsPlugin) :
    s.waitEvent.2.IsPlugin ∧ s.waitEvent.2.deadline = s.deadline := by
  cases s with
  | empty | scripted => cases hs
  | panel p => exact ⟨rfl, rfl⟩
  | headless h =>
    refine ⟨rfl, ?_⟩
    simp only [waitEvent, lift, Headless.frontend, deadline, panel?, Option.bind_some, Headless.waitEvent]
    split
    · rfl
    · rfl
    · split
      · rfl
      · split <;> rfl
  | window w => exact ⟨rfl, (Window.waitEvent_later.tends w).deadline⟩

theorem waitEvent_timeout {s : Stage} {e : Event} (he : s.waitEvent.1 = .ok (some e)) (hkind : e.kind = .timeout) :
    e = { kind := .timeout } ∧ s.deadline ≠ none := by
  cases s with
  | empty | scripted | panel =>
    cases he
    cases hkind
  | headless h =>
    simp only [waitEvent, lift, Headless.frontend, Headless.waitEvent] at he
    cases hdeadline : h.panel.deadline with
    | none =>
      simp only [Panel.remaining, hdeadline] at he
      cases he
      cases hkind
    | some t =>
      refine ⟨?_, by simp [deadline, panel?, hdeadline]⟩
      split at he
      · cases he
      · cases he
        cases hkind
      · split at he
        · cases he
        · split at he
          · cases he
          · cases he
            rfl
  | window w => exact Window.waitEvent_timeout he hkind

end Stage

theorem Host.Times.beside {ι σ : Type} [DecidableEq ι] {h : Host σ} {deadline : σ → Option Float} {kind : σ → Prop}
    (hh : h.Times deadline kind) (i : ι) : (h.beside i).Times (fun w => deadline (w i)) fun w => ∀ j, kind (w j) where
  note {w} r hw := by
    obtain ⟨hkind, hdeadline⟩ := hh.note r (hw i)
    refine ⟨fun j => ?_, by simpa only [Host.beside, Function.update_self] using hdeadline⟩
    by_cases hj : j = i
    · subst hj
      simpa only [Host.beside, Function.update_self] using hkind
    · simpa only [Host.beside, Function.update_of_ne hj] using hw j
  call {w} r hw j := by
    by_cases hj : j = i
    · subst hj
      simpa only [Host.beside, Function.update_self] using hh.call r (hw j)
    · simpa only [Host.beside, Function.update_of_ne hj] using hw j
  wait {w args d} hw hd := by
    simpa only [Host.beside, Function.update_self] using hh.wait (hw i) hd

/-! ## Sessions -/

namespace Session.Desk

variable {ι : Type} [DecidableEq ι]

/-- Sessions whose hosts are driven by operations of the session only. A host may also wait for an event. -/
inductive Driven : Desk ι (ι → Stage) → Prop where
  | start {d : Desk ι (ι → Stage)} : d.session.state = none → (∀ i, (d.world i).IsPlugin) → Driven d
  | perform {d : Desk ι (ι → Stage)} (move : Move ι) : Driven d → Driven (d.perform Stage.host.beside move).2
  | wait {d : Desk ι (ι → Stage)} (i : ι) : Driven d →
      Driven { d with world := Function.update d.world i (d.world i).waitEvent.2 }

/-- The run of a session, if there is one, and its host are in step. -/
structure InStep (d : Desk ι (ι → Stage)) : Prop where
  kind : ∀ i, (d.world i).IsPlugin
  loaded : d.session.state ≠ none → d.session.program ≠ none
  wait {s : State} : d.session.state = some s → s.status = .suspended →
    ((d.world d.host).deadline = none ↔ s.timeout = none)

theorem noteAll_inStep (i : ι) (notes : List Record) {w : ι → Stage} (hw : ∀ j, (w j).IsPlugin) :
    (∀ j, (noteAll (Stage.host.beside i) notes w j).IsPlugin) ∧
      (noteAll (Stage.host.beside i) notes w i).deadline = (w i).deadline := by
  induction notes generalizing w with
  | nil => exact ⟨hw, rfl⟩
  | cons r notes ih =>
    obtain ⟨hkind, hdeadline⟩ := (Stage.times.beside i).note r hw
    obtain ⟨hkind', hdeadline'⟩ := ih hkind
    exact ⟨hkind', hdeadline'.trans hdeadline⟩

theorem getState_eq_ok {s : Session} {state : State} (h : s.getState = .ok state) : s.state = some state := by
  unfold getState at h
  split at h
  · cases h
    assumption
  · cases h

theorem InStep.load {d : Desk ι (ι → Stage)} (hd : d.InStep) (answer : Program → Answer) (source : Source) :
    (d.take answer (d.session.load (Stage.host.beside d.host) source d.world)).2.InStep := by
  unfold Session.load
  generalize source.parse d.session.pedantic = x
  obtain ⟨result, notes⟩ := x
  obtain ⟨hkind, hdeadline⟩ := noteAll_inStep d.host notes hd.kind
  cases result with
  | error f => exact ⟨hkind, hd.loaded, fun hs hwait => (congrArg (· = none) hdeadline).to_iff.trans (hd.wait hs hwait)⟩
  | ok p =>
    refine ⟨hkind, fun _ => nofun, fun hs hwait => ?_⟩
    cases hs
    cases hwait

omit [DecidableEq ι] in
theorem InStep.withRun {ε : Type} {d : Desk ι (ι → Stage)} (hd : d.InStep) {fault : ε → RunFault}
    {act : Engine → Machine (ι → Stage) → Machine (ι → Stage) × Except ε Unit} (answer : Status → Answer)
    (hact : ∀ g m, m.InStep (fun w => (w d.host).deadline) (fun w => ∀ i, (w i).IsPlugin) →
      (act g m).1.InStep (fun w => (w d.host).deadline) fun w => ∀ i, (w i).IsPlugin) :
    (d.take answer (d.session.withRun d.world fault act)).2.InStep := by
  unfold Session.withRun
  split
  · rename_i p s hprogram hstate
    have hm := hact ⟨p, d.session.maxStack, d.session.trace⟩ ⟨s, d.world⟩ ⟨hd.kind, hd.wait hstate⟩
    dsimp only
    generalize act ⟨p, d.session.maxStack, d.session.trace⟩ ⟨s, d.world⟩ = x at hm
    obtain ⟨m, _ | _⟩ := x
    all_goals
      refine ⟨hm.kind, fun _ hnone => ?_, fun hs hwait => ?_⟩
      · cases hprogram.symm.trans hnone
      · cases hs
        exact hm.wait hwait
  · exact ⟨hd.kind, hd.loaded, hd.wait⟩

theorem InStep.perform {d : Desk ι (ι → Stage)} (hd : d.InStep) (move : Move ι) :
    (d.perform Stage.host.beside move).2.InStep := by
  have hengine := fun g => Engine.preserves_inStep (Stage.times.beside d.host) g
  cases move with
  | load source => exact hd.load _ source
  | loadFile files path =>
    simp only [Desk.perform, loadFile]
    split
    · exact hd.load _ _
    · exact ⟨hd.kind, hd.loaded, hd.wait⟩
  | attach host =>
    refine ⟨hd.kind, fun hs => hd.loaded ?_, fun hs hwait => ?_⟩
    · intro hnone
      exact hs (by simp [Desk.perform, restart, hnone])
    · -- The program starts anew, so it does not wait.
      obtain ⟨_, -, rfl⟩ := Option.map_eq_some_iff.mp hs
      cases hwait
  | run fuel => exact hd.withRun _ fun g m hm => (hengine g).run fuel hm
  | step => exact hd.withRun _ fun g m hm => (hengine g).step hm
  | resume fuel e => exact hd.withRun _ fun g m hm => (hengine g).resume fuel e hm
  | set name value =>
    simp only [Desk.perform]
    split
    · rename_i session hset
      obtain ⟨state, hstate, hset⟩ := Except.bind_eq_ok.mp hset
      have hstate : d.session.state = some state := getState_eq_ok hstate
      split at hset <;> cases hset
      refine ⟨hd.kind, fun _ => hd.loaded (by simp [hstate]), fun hs hwait => ?_⟩
      cases hs
      exact (hd.wait hstate hwait :)
    · exact hd
  | close => exact ⟨hd.kind, fun hs => absurd rfl hs, fun hs => by cases hs⟩
  | get _ | status | timeout | waitMode => exact hd

theorem Driven.inStep {d : Desk ι (ι → Stage)} (hd : d.Driven) : d.InStep := by
  induction hd with
  | start hstate hkind =>
    refine ⟨hkind, fun hs => absurd hstate hs, fun hs => ?_⟩
    cases hstate.symm.trans hs
  | perform move _ ih => exact ih.perform move
  | @wait d i _ ih =>
    obtain ⟨hkind, hdeadline⟩ := Stage.waitEvent_deadline (ih.kind i)
    refine ⟨fun j => ?_, ih.loaded, fun hs hwait => ?_⟩
    · by_cases hj : j = i
      · subst hj
        simpa only [Function.update_self] using hkind
      · simpa only [Function.update_of_ne hj] using ih.kind j
    · rw [← ih.wait hs hwait]
      by_cases hj : d.host = i
      · subst hj
        simp only [Function.update_self, hdeadline]
      · simp only [Function.update_of_ne hj]

theorem Driven.after {d : Desk ι (ι → Stage)} (hd : d.Driven) (moves : List (Move ι)) :
    (d.after Stage.host.beside moves).Driven := by
  induction moves generalizing d with
  | nil => exact hd
  | cons move moves ih => exact ih (.perform move hd)

theorem perform_timeout {d : Desk ι (ι → Stage)} {s : State} (hprogram : d.session.program ≠ none)
    (hs : d.session.state = some s) (hwait : s.status = .suspended) (htimeout : s.timeout ≠ none) (fuel : Nat) :
    d.perform Stage.host.beside (.resume fuel { kind := .timeout } rfl) =
      { d with session := { d.session with state := some s.advance.wake } }.perform Stage.host.beside (.run fuel) := by
  obtain ⟨p, hp⟩ := Option.ne_none_iff_exists'.mp hprogram
  have hsome : s.timeout.isSome = true := Option.isSome_iff_ne_none.mpr htimeout
  simp only [perform, Session.resume, Session.run, Session.withRun, hp, hs, Engine.resume, hwait, ne_eq, not_true, if_false,
    Event.read, Engine.react, hsome, if_true]
  rfl

end Session.Desk

theorem Frontend.Leads.timely {g : Engine} {limit : Option Float} {n : Nat} {m m' : Machine Headless}
    (wf : g.program.WellFormed) (h : Headless.frontend.Leads g n m m') (hm : m.Timely limit) : m'.Timely limit := by
  induction h with
  | refl => exact hm
  | turn hturn _ ih =>
    rcases Engine.turn_timely wf hm with ⟨m₁, hturn', hm₁⟩ | ⟨m₁, r, hturn', -⟩ | ⟨-, hturn'⟩
    · rw [hturn] at hturn'
      cases hturn'
      exact ih hm₁
    · rw [hturn] at hturn'
      cases hturn'
    · rw [hturn] at hturn'
      cases hturn'

/-- While a program waits, it has a timeout just if its host has a deadline. -/
theorem Session.Desk.deadline_iff_timeout :
    (∀ {ι : Type} [DecidableEq ι] {d : Desk ι (ι → Stage)} {s : State}, d.Driven → d.session.state = some s →
      s.status = .suspended →
        (∃ p, (d.world d.host).panel? = some p ∧ (p.deadline = none ↔ s.timeout = none)) ∧
        ∀ (e : Event) (stage : Stage) (fuel : Nat), (d.world d.host).waitEvent = (.ok (some e), stage) →
          e.kind = .timeout → e = { kind := .timeout } ∧
          let d' := { d with world := Function.update d.world d.host stage }
          d'.perform Stage.host.beside (.resume fuel { kind := .timeout } rfl) =
            { d' with session := { d.session with state := some s.advance.wake } }.perform Stage.host.beside (.run fuel)) ∧
    ∀ {source : Source} {pedantic : Bool} {p : Program} {notes : List Record} {maxStack : Int} {trace : Bool}
      {h : Headless} {k : Nat} {j : Int} {n : Nat} {m : Machine Headless},
      source.parse pedantic = (.ok p, notes) →
      Binary64.decode h.panel.world.clock = some (false, k, j) → j ≤ 900 →
      Headless.frontend.Leads { program := p, maxStack, trace } n ⟨{}, h⟩ m → m.state.status = .suspended →
        (h.panel.world.longestSleep = none → ¬ m.world.Oversleeps) ∧
        (m.world.Oversleeps → Headless.frontend.turn { program := p, maxStack, trace } m =
          (m, some (.error (.failure .sleepTooLong)))) ∧
        (¬ m.world.Oversleeps → ∃ e h', Headless.frontend.waitEvent m.world = (.ok (some e), h') ∧
          ∀ fuel, let woken := ⟨m.state, h'.note (Frontend.eventNote e)⟩
            let after := Engine.resume { program := p, maxStack, trace } Headless.host fuel e woken
            e = { kind := .timeout } ∧ m.state.advance.wake ≠ m.state ∧
                after = Engine.run { program := p, maxStack, trace } Headless.host fuel ⟨m.state.advance.wake, woken.world⟩ ∨
              e = { kind := .quit } ∧ after = (⟨m.state.terminate, woken.world.note Engine.shutDown⟩, .ok ())) := by
  refine ⟨?_, ?_⟩
  · intro ι _ d s hd hs hwait
    have hstep := hd.inStep
    obtain ⟨p, hp⟩ := Option.isSome_iff_exists.mp (hstep.kind d.host)
    have hiff := hstep.wait hs hwait
    refine ⟨⟨p, hp, by simpa only [Stage.deadline, hp, Option.bind_some] using hiff⟩, ?_⟩
    intro e stage fuel hevent hkind
    obtain ⟨rfl, hdeadline⟩ := Stage.waitEvent_timeout (congrArg Prod.fst hevent) hkind
    exact ⟨rfl, perform_timeout (d := { d with world := Function.update d.world d.host stage })
      (hstep.loaded (by simp [hs])) hs hwait (fun hnone => hdeadline (hiff.mpr hnone)) fuel⟩
  · intro source pedantic p notes maxStack trace h k j n m hp hclock hj hl hwait
    have wf : p.WellFormed := by
      obtain ⟨lines, hlines, rfl⟩ := Program.parse_eq_ofLines (Source.parse_eq_ok hp)
      exact Program.ofLines_wellFormed hlines
    have hm : m.Timely h.limit := hl.timely wf ⟨⟨Binary64.isTime_of_decode hclock hj, rfl, nofun⟩, .init⟩
    refine ⟨fun hlimit => Headless.not_oversleeps (hm.limit.trans hlimit), fun hover => ?_, fun hover => ?_⟩
    · rcases Headless.waitEvent_onTime hm.toOnTime hwait with ⟨-, hevent⟩ | ⟨hnot, -⟩
      · simp only [Frontend.turn, hwait, Headless.frontend, hevent]
        rfl
      · exact absurd hover hnot
    · rcases Headless.waitEvent_onTime hm.toOnTime hwait with ⟨hover', -⟩ | ⟨-, e, h', hevent, -, -, he⟩
      · exact absurd hover' hover
      · refine ⟨e, h', by simp only [Headless.frontend, hevent]; rfl, fun fuel => ?_⟩
        rcases he with rfl | ⟨rfl, htimeout⟩
        · refine .inr ⟨rfl, ?_⟩
          simp only [Engine.resume, hwait, ne_eq, not_true, if_false, Event.read]
          rfl
        · refine .inl ⟨rfl, fun heq => ?_, ?_⟩
          · cases (congrArg State.status heq).trans hwait
          · simp only [Engine.resume, hwait, ne_eq, not_true, if_false, Event.read, Engine.react, htimeout, if_true]

/-- A wait at the second of two hosts, and the same wait without a window. -/
theorem Session.Desk.deadline_iff_timeout_five :
    (∃ (d : Desk Bool (Bool → Stage)) (s : State) (p : Panel), d.Driven ∧ d.host = true ∧ d.session.state = some s ∧
      s.status = .suspended ∧ s.timeout = some 5 ∧ (d.world true).panel? = some p ∧ p.deadline ≠ none) ∧
    ∃ (m : Machine Headless) (e : Event) (h : Headless), m.state.status = .suspended ∧
      Headless.frontend.waitEvent m.world = (.ok (some e), h) ∧ (e = { kind := .timeout } ∨ e = { kind := .quit }) := by
  refine ⟨?_, ?_⟩
  · let d₀ : Desk Bool (Bool → Stage) := ⟨{}, false, fun _ => .headless { panel := { world := {} } }⟩
    let moves : List (Move Bool) := [.load (.text "WaitInput()"), .run 9, .attach true, .load (.text "WaitInput(5)"), .run 9]
    have hstart : d₀.Driven := .start rfl fun _ => rfl
    have hdriven := hstart.after moves
    have hhost : (d₀.after Stage.host.beside moves).host = true := by decide +kernel
    have hstate : (d₀.after Stage.host.beside moves).session.state.map (fun s => (s.status, s.timeout)) =
      some (.suspended, some 5) := by decide +kernel
    generalize d₀.after Stage.host.beside moves = d at hdriven hhost hstate
    obtain ⟨s, hs, heq⟩ := Option.map_eq_some_iff.mp hstate
    obtain ⟨hwait, htimeout⟩ := Prod.mk.inj heq
    obtain ⟨⟨p, hp, hiff⟩, -⟩ := deadline_iff_timeout.1 hdriven hs hwait
    rw [hhost] at hp
    exact ⟨d, s, p, hdriven, hhost, hs, hwait, htimeout, hp, fun hnone => by cases htimeout.symm.trans (hiff.mp hnone)⟩
  · have hturn : ((Source.text "WaitInput(5)").parse false).1.toOption.map (fun p =>
        let x := Headless.frontend.turn { program := p } ⟨{}, { panel := { world := {} } }⟩
        (x.1.state.status, x.2.isNone)) = some (.suspended, true) := by decide +kernel
    rcases hp : (Source.text "WaitInput(5)").parse false with ⟨result, notes⟩
    rw [hp] at hturn
    obtain ⟨p, rfl, heq⟩ := Except.exists_of_map_toOption hturn
    generalize hx : Headless.frontend.turn { program := p } ⟨{}, { panel := { world := {} } }⟩ = x at heq
    obtain ⟨m, o⟩ := x
    obtain ⟨hwait, hnone⟩ := Prod.mk.inj heq
    obtain rfl : o = none := Option.isNone_iff_eq_none.mp hnone
    obtain ⟨hpatient, -, hevents⟩ := deadline_iff_timeout.2 (k := 0) (j := -1074) hp (by decide +kernel) (by decide)
      (.turn hx (.refl m)) hwait
    obtain ⟨e, h, hevent, hafter⟩ := hevents (hpatient rfl)
    refine ⟨m, e, h, hwait, hevent, ?_⟩
    rcases hafter 0 with ⟨he, -, -⟩ | ⟨he, -⟩
    · exact .inl he
    · exact .inr he

/-- So many turns, as far as the run goes on. -/
def Frontend.turns {σ : Type} (c : Frontend σ) (g : Engine) : Nat → Machine σ → Option (Machine σ)
  | 0, m => some m
  | n + 1, m =>
    match c.turn g m with
    | (m', none) => c.turns g n m'
    | (_, some _) => none

theorem Frontend.leads_of_turns {σ : Type} {c : Frontend σ} {g : Engine} {n : Nat} {m m' : Machine σ}
    (h : c.turns g n m = some m') : c.Leads g n m m' := by
  induction n generalizing m with
  | zero =>
    cases h
    exact .refl _
  | succ n ih =>
    unfold turns at h
    split at h
    · rename_i hturn
      exact .turn hturn (ih h)
    · cases h

/-- A program that goes back to its wait is found there again, and one that cannot sleep so long stays there. -/
theorem Headless.wait_leaves_state :
    (∃ (p : Program) (m m' : Machine Headless), ((Source.text "a: WaitInput(1) Goto a").parse false).1 = .ok p ∧
      Headless.frontend.Leads { program := p } 2 ⟨{}, { panel := { world := {} } }⟩ m ∧ m.state.status = .suspended ∧
      Headless.frontend.Leads { program := p } 3 m m' ∧ m'.state = m.state) ∧
    ∃ (p : Program) (m : Machine Headless), ((Source.text "WaitInput(1)").parse false).1 = .ok p ∧
      Headless.frontend.Leads { program := p } 1 ⟨{}, { panel := { world := { longestSleep := some 0 } } }⟩ m ∧
      m.state.status = .suspended ∧ ∃ m', Headless.frontend.turn { program := p } m =
        (m', some (.error (.failure .sleepTooLong))) ∧ m'.state = m.state := by
  refine ⟨?_, ?_⟩
  · have hruns : ((Source.text "a: WaitInput(1) Goto a").parse false).1.toOption.map (fun p =>
        (Headless.frontend.turns { program := p } 2 ⟨{}, { panel := { world := {} } }⟩).map fun m => (m.state.status,
          (Headless.frontend.turns { program := p } 3 m).map fun m' => decide (m'.state = m.state))) =
        some (some (.suspended, some true)) := by decide +kernel
    obtain ⟨p, hp, hrun⟩ := Except.exists_of_map_toOption hruns
    obtain ⟨m, hm, heq⟩ := Option.map_eq_some_iff.mp hrun
    obtain ⟨hwait, hback⟩ := Prod.mk.inj heq
    obtain ⟨m', hm', hsame⟩ := Option.map_eq_some_iff.mp hback
    exact ⟨p, m, m', hp, Frontend.leads_of_turns hm, hwait, Frontend.leads_of_turns hm', of_decide_eq_true hsame⟩
  · have hruns : ((Source.text "WaitInput(1)").parse false).1.toOption.map (fun p =>
        (Headless.frontend.turns { program := p } 1 ⟨{}, { panel := { world := { longestSleep := some 0 } } }⟩).map fun m =>
          (m.state.status, decide ((Headless.frontend.turn { program := p } m).1.state = m.state),
            (Headless.frontend.turn { program := p } m).2)) =
        some (some (.suspended, true, some (.error (.failure .sleepTooLong)))) := by decide +kernel
    obtain ⟨p, hp, hrun⟩ := Except.exists_of_map_toOption hruns
    obtain ⟨m, hm, heq⟩ := Option.map_eq_some_iff.mp hrun
    obtain ⟨hwait, heq⟩ := Prod.mk.inj heq
    obtain ⟨hsame, hresult⟩ := Prod.mk.inj heq
    exact ⟨p, m, hp, Frontend.leads_of_turns hm, hwait, _, Prod.ext rfl hresult, of_decide_eq_true hsame⟩

end GraphicsBatch
