import Mathlib
import GraphicsBatch.Application
import GraphicsBatch.Proofs.Refusals
import GraphicsBatch.Proofs.Turns

/-!
# Programs that nobody attends to

The host without a window lets timed waits run out and ends a program at any other wait. Where the platform sleeps for
any time, a program that was read comes to its end there, or one of its statements stops it with an error of its own;
there is no third way for it to be over.
-/

namespace GraphicsBatch

/-! ## The clock -/

theorem Host.Follows.view_eq {σ α : Type} {h : Host σ} {view : σ → α} (hcall : ∀ r w, view (h.call r w).2 = view w)
    (hnote : ∀ r w, view (h.note r w) = view w) {w w' : σ} (hw : h.Follows w w') : view w' = view w := by
  induction hw with
  | refl => rfl
  | call r _ ih => exact (hcall r _).trans ih
  | note r _ ih => exact (hnote r _).trans ih

namespace Headless

/-- The time at the host. -/
def clock (h : Headless) : Float := h.panel.world.clock

/-- How long the host sleeps at once. -/
def limit (h : Headless) : Option Float := h.panel.world.longestSleep

def times (h : Headless) : Float × Option Float := (h.clock, h.limit)

@[simp] theorem note_clock (r : Record) (h : Headless) : (h.note r).clock = h.clock := rfl

theorem carryOut_times (i : Instruction) (h : Headless) : (h.carryOut i).2.times = h.times := by
  cases i with
  | messageBox type default icon text caption =>
    simp only [carryOut]
    cases messageBoxChoice type default <;> rfl
  | wait timeout =>
    obtain ⟨deadline, heq⟩ := h.panel.carryOut_wait timeout
    simp only [carryOut, heq]
    rfl
  | _ => rfl

theorem call_times (r : Request) (h : Headless) : (h.call r).2.times = h.times := by
  cases r with
  | forward c args =>
    simp only [call, forward]
    split
    · rfl
    · cases hi : Instruction.ofCall? c args with
      | none =>
        simp only [Panel.instructionOf_none hi]
        rfl
      | some i =>
        simp only [Panel.instructionOf_some hi, carryOut_times]
        rfl
  | _ => rfl

theorem follows_times {h h' : Headless} (hfollows : host.Follows h h') : h'.clock = h.clock ∧ h'.limit = h.limit := by
  have htimes : h'.times = h.times := hfollows.view_eq call_times fun _ _ => rfl
  exact Prod.mk.inj htimes

/-! ## Waits -/

theorem call_wait (h : Headless) : (h.call (.forward .waitInput [])).2.panel.deadline = none := by
  rw [call_forward (i := .wait .nothing) rfl rfl]
  rfl

theorem carryOut_wait_int {n : Int} (hn : Fits n) (h : Headless) : ∃ ms, Binary64.ofInt (max 0 n) = .ok ms ∧
    (h.carryOut (.wait (.int n))).2.panel.deadline = some (h.clock + ms / 1000) := by
  obtain ⟨ms, hms, hwait⟩ := h.panel.startWait_int hn
  refine ⟨ms, hms, ?_⟩
  simp only [carryOut, Panel.carryOut, hwait]
  rfl

theorem call_wait_int {n : Int} (hn : Fits n) (h : Headless) : ∃ ms, Binary64.ofInt (max 0 n) = .ok ms ∧
    (h.call (.forward .waitInput [.int n])).2.panel.deadline = some (h.clock + ms / 1000) := by
  have hwritten : Value.allWritten [.int n] = .ok [toString n] := by
    simp only [Value.allWritten, Value.written, (InReach.of_fits hn).writeInt]
    rfl
  rw [call_forward (i := .wait (.int n)) hwritten rfl]
  simpa only [note_clock] using carryOut_wait_int hn (h.note _)

end Headless

/-- How long a wait with some arguments lasts, if it has a limit. -/
def waitTime (args : List Value) : Option Int :=
  match args.head? with
  | some (.int n) => some (max 0 n)
  | _ => none

theorem Planned.suspended {p : Program} {maxStack : Int} {s s' : State} {a : Action} {pl : Plan} {d : Datum}
    (h : Planned p maxStack s a pl) (hrun : s.status = .running) (hs' : pl.complete d = .ok s')
    (hwait : s'.status = .suspended) : ∃ args, a = .call .waitInput args ∧
      pl.requests = [.forward .waitInput (args.map s.resolve)] ∧ s'.timeout = waitTime (args.map s.resolve) := by
  cases h with
  | wait args =>
    cases hs'
    exact ⟨args, rfl, rfl, rfl⟩
  | messageBox _ =>
    obtain ⟨n, -, hs'⟩ := Except.bind_eq_ok.mp hs'
    cases hs'
    cases hrun.symm.trans hwait
  | cond lhs op rhs t =>
    cases hs'
    split at hwait <;> cases hrun.symm.trans hwait
  | finish =>
    cases hs'
    cases hwait
  | _ =>
    cases hs'
    cases hrun.symm.trans hwait

/-- Only a wait that the host has begun makes a program wait. -/
theorem Engine.perform_suspended {σ : Type} {g : Engine} {h : Host σ} {m : Machine σ} {st : Statement}
    (hrun : m.state.status = .running) (hwait : (g.perform h st m).1.state.status = .suspended) :
    ∃ args d, st.action = .call .waitInput args ∧
      h.call (.forward .waitInput (args.map m.state.resolve)) (h.call .checkEvents m.world).2 =
        (.ok d, (g.perform h st m).1.world) ∧
      (g.perform h st m).1.state.timeout = waitTime (args.map m.state.resolve) := by
  have hperformed := performed g h st m
  generalize g.perform h st m = r at hperformed hwait
  -- Wherever the statement is given up, the status is still that of a running program.
  cases hperformed with
  | unchecked _ | refused _ _ => cases hrun.symm.trans hwait
  | denied _ hplan _ | unread _ hplan _ _ =>
    cases ((planned_of_plan hplan).prepared_status.1.trans hrun).symm.trans hwait
  | done hcheck hplan hask hs =>
    obtain ⟨args, haction, hrequests, htimeout⟩ := (planned_of_plan hplan).suspended hrun hs hwait
    rw [hrequests] at hask
    rw [← Host.ask_snd, hcheck]
    exact ⟨args, _, haction, Host.askAll_singleton_eq_ok hask, htimeout⟩

/-- The clock shows a time and, while the program waits, the wait has no limit or is over some milliseconds from now. -/
structure Machine.OnTime (limit : Option Float) (m : Machine Headless) : Prop where
  clock : Binary64.IsTime m.world.clock
  limit : m.world.limit = limit
  wait : m.state.status = .suspended → m.world.panel.deadline = none ∨ m.state.timeout.isSome = true ∧
    ∃ n ms, (0 ≤ n ∧ n < 2 ^ 63) ∧ Binary64.ofInt n = .ok ms ∧
      m.world.panel.deadline = some (m.world.clock + ms / 1000)

/-- A run whose numbers have 64 bits and whose waits can be timed. -/
structure Machine.Timely (limit : Option Float) (m : Machine Headless) : Prop extends m.OnTime limit where
  every : m.state.Every Fits

namespace Engine

variable {g : Engine} {limit : Option Float} {m : Machine Headless} {st : Statement}

theorem perform_onTime (wf : g.program.WellFormed) (hrun : m.state.status = .running)
    (hst : g.program.statements[m.state.pc]? = some st) (hm : m.Timely limit) :
    (g.perform Headless.host st m).1.OnTime limit := by
  obtain ⟨hclock, hlimit⟩ : (g.perform Headless.host st m).1.world.clock = m.world.clock ∧
    (g.perform Headless.host st m).1.world.limit = m.world.limit := Headless.follows_times follows_perform
  refine ⟨hclock ▸ hm.clock, hlimit.trans hm.limit, fun hwait => ?_⟩
  -- Only `WaitInput` suspends, and its request sets the deadline by the same clock.
  obtain ⟨args, d, haction, hcall, htimeout⟩ := perform_suspended hrun hwait
  have hargs : (Command.signature .waitInput).Admits args := by
    have hproper := wf.proper _ st hst
    rwa [haction] at hproper
  have hworld : (g.perform Headless.host st m).1.world =
      (m.world.call (.forward .waitInput (args.map m.state.resolve))).2 := (congrArg Prod.snd hcall).symm
  rw [hclock, hworld]
  rcases hargs.of_waitInput m.state with hnil | ⟨n, hint⟩
  · rw [hnil]
    exact .inl m.world.call_wait
  · have hn : Fits n := hm.every.resolve id hargs (by rw [hint]; exact List.mem_singleton.mpr rfl)
    rw [hint] at htimeout ⊢
    obtain ⟨ms, hms, hdeadline⟩ := m.world.call_wait_int hn
    exact .inr ⟨by rw [htimeout]; rfl, max 0 n, ms, ⟨by omega, hn.max_lt⟩, hms, hdeadline⟩

theorem carries_timely (wf : g.program.WellFormed) : g.Carries Headless.host (Machine.Timely limit) where
  place _ hm := ⟨⟨hm.clock, hm.limit, hm.wait⟩, ⟨hm.every.vars, hm.every.mouse⟩⟩
  note _ hm := ⟨⟨hm.clock, hm.limit, hm.wait⟩, hm.every⟩
  terminate hm := ⟨⟨hm.clock, hm.limit, nofun⟩, ⟨hm.every.vars, hm.every.mouse⟩⟩
  perform hrun hst hm :=
    ⟨perform_onTime wf hrun hst hm, (carries_every id wf Headless.answers).perform hrun hst hm.every⟩

end Engine

/-- The platform does not sleep for as long as the wait goes on. -/
def Headless.Oversleeps (h : Headless) : Prop :=
  ∃ ms pause, h.panel.remaining = .ok (some ms) ∧ Binary64.ofInt ms = .ok pause ∧
    h.panel.world.refusesSleep pause = true

theorem Headless.not_oversleeps {h : Headless} (hlimit : h.limit = none) : ¬ h.Oversleeps := by
  rintro ⟨ms, pause, -, -, hrefused⟩
  unfold limit at hlimit
  simp [World.refusesSleep, hlimit] at hrefused

/-- A wait ends, or the platform does not sleep that long. -/
theorem Headless.waitEvent_onTime {limit : Option Float} {m : Machine Headless} (hm : m.OnTime limit)
    (hwait : m.state.status = .suspended) :
    m.world.Oversleeps ∧ m.world.waitEvent = (.error .sleepTooLong, m.world) ∨
    ¬ m.world.Oversleeps ∧ ∃ e h', m.world.waitEvent = (.ok e, h') ∧ Binary64.IsTime h'.clock ∧ h'.limit = limit ∧
      (e = { kind := .quit } ∨ e = { kind := .timeout } ∧ m.state.timeout.isSome = true) := by
  rcases hm.wait hwait with hnone | ⟨hsome, n, ms, hn, hms, hdeadline⟩
  · have hremaining : m.world.panel.remaining = .ok none := by simp only [Panel.remaining, hnone]
    have hevent : m.world.waitEvent = (.ok { kind := .quit },
        m.world.note ⟨.info, "Waiting for input without a timeout; stopping"⟩) := by
      simp only [waitEvent, hremaining]
    refine .inr ⟨?_, _, _, hevent, hm.clock, hm.limit, .inl rfl⟩
    rintro ⟨left, _, hleft, -⟩
    cases hremaining.symm.trans hleft
  · obtain ⟨ms', hms', left, hleft, pause, hpause, htime⟩ := Binary64.remaining_ok hm.clock hn
    obtain rfl : ms = ms' := Except.ok.inj (hms.symm.trans hms')
    have hremaining : m.world.panel.remaining = .ok (some (max 0 left)) := by
      unfold clock at hleft hdeadline
      simp only [Panel.remaining, hdeadline, hleft]
      rfl
    cases hrefused : m.world.panel.world.refusesSleep pause with
    | true =>
      refine .inl ⟨⟨_, pause, hremaining, hpause, hrefused⟩, ?_⟩
      simp only [waitEvent, hremaining, hpause, hrefused, if_true]
    | false =>
      have hevent : m.world.waitEvent = (.ok { kind := .timeout },
          { m.world with panel := m.world.panel.mapWorld (·.sleep pause) }) := by
        simp only [waitEvent, hremaining, hpause, hrefused, Bool.false_eq_true, if_false]
      refine .inr ⟨?_, _, _, hevent, htime, hm.limit, .inr ⟨rfl, hsome⟩⟩
      rintro ⟨_, pause', hremaining', hpause', hrefused'⟩
      cases hremaining.symm.trans hremaining'
      cases hpause.symm.trans hpause'
      cases hrefused.symm.trans hrefused'

/-! ## Turns -/

namespace Engine

/-- A run is over in one of two ways: the program has come to its end, or a statement has stopped it. -/
inductive Settles (g : Engine) (s : State) : Except RunFault Unit → Prop where
  | terminated : s.status = .terminated → Settles g s (.ok ())
  | stopped {e : ProgramError} : g.Stopped s e → Settles g s (.error (.trap (.error e)))

variable {g : Engine} {limit : Option Float} {m m' : Machine Headless}

theorem resume_timely {e : Event} {h : Headless} (hm : m.Timely limit) (hwait : m.state.status = .suspended)
    (hclock : Binary64.IsTime h.clock) (hlimit : h.limit = limit)
    (he : e = { kind := .quit } ∨ e = { kind := .timeout } ∧ m.state.timeout.isSome = true) :
    ∃ m' : Machine Headless, g.resume Headless.host 0 e ⟨m.state, h⟩ = (m', .ok ()) ∧ m'.Timely limit := by
  rcases he with rfl | ⟨rfl, hsome⟩
  · refine ⟨⟨m.state.terminate, h.note shutDown⟩, ?_, ⟨hclock, hlimit, fun h => by cases h⟩,
      ⟨hm.every.vars, hm.every.mouse⟩⟩
    simp only [resume, hwait, ne_eq, not_true, if_false, Event.read]
    rfl
  · refine ⟨⟨m.state.advance.wake, h⟩, ?_, ⟨hclock, hlimit, fun h => by cases h⟩, ⟨hm.every.vars, hm.every.mouse⟩⟩
    simp only [resume, hwait, ne_eq, not_true, if_false, Event.read, react, hsome, if_true]
    rfl

theorem turn_timely (wf : g.program.WellFormed) (hm : m.Timely limit) :
    (∃ m' : Machine Headless, Headless.frontend.turn g m = (m', none) ∧ m'.Timely limit) ∨
      (∃ (m' : Machine Headless) (r : Except RunFault Unit),
        Headless.frontend.turn g m = (m', some r) ∧ g.Settles m'.state r) ∨
      m.world.Oversleeps ∧ Headless.frontend.turn g m = (m, some (.error (.failure .sleepTooLong))) := by
  unfold Frontend.turn
  cases hstatus : m.state.status with
  | terminated => exact .inr (.inl ⟨m, _, rfl, .terminated hstatus⟩)
  | running =>
    have htimely := (carries_timely wf).step hm
    have hstep := step_obliged wf Headless.obliges hm.every
    have hhost : Headless.frontend.toHost = Headless.host := rfl
    simp only [hhost]
    generalize g.step Headless.host m = x at htimely hstep
    obtain ⟨m', r⟩ := x
    rcases hstep with hok | ⟨e, herror, hstopped⟩
    · cases hok
      exact .inl ⟨m', rfl, htimely⟩
    · cases herror
      exact .inr (.inl ⟨m', _, rfl, .stopped hstopped⟩)
  | suspended =>
    rcases Headless.waitEvent_onTime hm.toOnTime hstatus with ⟨hover, hevent⟩ | ⟨-, e, h', hevent, hclock, hlimit, he⟩
    · refine .inr (.inr ⟨hover, ?_⟩)
      simp only [Headless.frontend, hevent]
      rfl
    · have hwait : Headless.frontend.waitEvent m.world = (.ok (some e), h') := by
        simp only [Headless.frontend, hevent]
        rfl
      have hclock' : Binary64.IsTime (h'.note (Frontend.eventNote e)).clock := hclock
      obtain ⟨m', hresume, htimely⟩ := resume_timely (g := g) hm hstatus hclock' hlimit he
      refine .inl ⟨m', ?_, htimely⟩
      simp only [hwait]
      have hresume' : g.resume Headless.frontend.toHost 0 e ⟨m.state, Headless.frontend.note (Frontend.eventNote e) h'⟩ =
        (m', .ok ()) := hresume
      rw [hresume']

theorem ending?_settles {n : Nat} {r : Except RunFault Unit} (wf : g.program.WellFormed) (hm : m.Timely none)
    (h : Headless.frontend.ending? g n m = some (m', r)) : g.Settles m'.state r := by
  induction n generalizing m with
  | zero => cases h
  | succ n ih =>
    unfold Frontend.ending? at h
    rcases turn_timely wf hm with ⟨m₁, hturn, htimely⟩ | ⟨m₁, r₁, hturn, hsettles⟩ | ⟨hover, -⟩
    · rw [hturn] at h
      exact ih htimely h
    · rw [hturn] at h
      cases h
      exact hsettles
    · exact absurd hover (Headless.not_oversleeps hm.limit)

/-! ## Whole runs -/

/-- How a fresh run turns out within a bound: the program has ended, a statement has stopped it, or it is not over. -/
inductive TurnsOut (g : Engine) (h : Headless) (fuel : Nat) : State → Except SessionFault Status → Prop where
  | terminated {n : Nat} {m : Machine Headless} : Headless.frontend.ending? g n ⟨{}, h⟩ = some (m, .ok ()) →
      m.state.status = .terminated → TurnsOut g h fuel m.state (.ok .terminated)
  | stopped {n : Nat} {m : Machine Headless} {e : ProgramError} :
      Headless.frontend.ending? g n ⟨{}, h⟩ = some (m, .error (.trap (.error e))) → g.Stopped m.state e →
      TurnsOut g h fuel m.state (.error (.run (.trap (.error e))))
  | unfinished {s : State} {status : Status} : Headless.frontend.ending? g fuel ⟨{}, h⟩ = none →
      status ≠ .terminated → TurnsOut g h fuel s (.ok status)

end Engine

theorem Session.pump_turnsOut {p : Program} (wf : p.WellFormed) (pedantic : Bool) (maxStack : Int) (trace : Bool)
    {h : Headless} (hclock : Binary64.IsTime h.clock) (hlimit : h.limit = none) (fuel : Nat) :
    ∃ result s h', Session.pump ⟨pedantic, maxStack, trace, some p, some {}⟩ Headless.frontend fuel h =
        (result, ⟨pedantic, maxStack, trace, some p, some s⟩, h') ∧
      Engine.TurnsOut ⟨p, maxStack, trace⟩ h fuel s result := by
  have htimely : Machine.Timely none ⟨{}, h⟩ := ⟨⟨hclock, hlimit, nofun⟩, .init⟩
  have hreports := Headless.frontend.runAndServe_reports ⟨p, maxStack, trace⟩ fuel ⟨{}, h⟩
  simp only [pump, withRun]
  generalize Headless.frontend.runAndServe ⟨p, maxStack, trace⟩ fuel ⟨{}, h⟩ = x at hreports
  obtain ⟨m, r⟩ := x
  rcases hreports with ⟨n, hn⟩ | ⟨hok, hstatus, hnone⟩
  · cases Engine.ending?_settles (g := ⟨p, maxStack, trace⟩) wf htimely hn with
    | terminated hend =>
      refine ⟨.ok m.state.status, m.state, _, rfl, ?_⟩
      rw [hend]
      exact .terminated hn hend
    | stopped hstopped => exact ⟨_, m.state, _, rfl, .stopped hn hstopped⟩
  · obtain rfl : r = .ok () := hok
    exact ⟨_, m.state, _, rfl, .unfinished hnone hstatus⟩

theorem Source.parse_eq_ok {source : Source} {pedantic : Bool} {p : Program} {notes : List Record}
    (h : source.parse pedantic = (.ok p, notes)) : Program.parse source.decode.1 pedantic = .ok p := by
  unfold Source.parse at h
  dsimp only at h
  split at h
  · rename_i hparse
    cases h
    exact hparse
  · cases h

theorem Headless.noteAll_times (notes : List Record) (h : Headless) :
    (Session.noteAll Headless.host notes h).clock = h.clock ∧ (Session.noteAll Headless.host notes h).limit = h.limit := by
  induction notes generalizing h with
  | nil => exact ⟨rfl, rfl⟩
  | cons r notes ih => exact ih (h.note r)

theorem Stage.maps_headless : Headless.frontend.Maps Stage.headless Stage.frontend where
  call _ _ := rfl
  note _ _ := rfl
  waitEvent _ := rfl
  close _ := rfl

namespace Application

open Config (Settings)

/-- The host without a window as it is opened for a program. -/
def opened (settings : Settings) (notes : List Record) (world : World) : Headless :=
  ({ panel := { world := notes.foldl World.note world }, caption := .text settings.caption } : Headless).note
    (Interface.usingNote "none")

theorem noteAll_empty (notes : List Record) (world : World) :
    Session.noteAll Stage.host notes (.empty world) = .empty (notes.foldl World.note world) := by
  induction notes generalizing world with
  | nil => rfl
  | cons r notes ih => exact ih (world.note r)

theorem interfaces_none {settings : Settings} (h : settings.text .interface = "none") :
    settings.interfaces = ["none"] := by
  unfold Config.Settings.interfaces
  rw [h]
  rfl

theorem runProgram_none {settings : Settings} {files : Files} {bytes : List UInt8} {p : Program} {notes : List Record}
    (hnone : settings.text .interface = "none") (hread : files.read settings.programFile = .ok bytes)
    (hp : (Source.bytes bytes).parse settings.pedantic = (.ok p, notes)) (fuel : Nat) (world : World) :
    runProgram settings files fuel world =
      match Session.pump ⟨settings.pedantic, settings.maxStack, settings.debug, some p, some {}⟩ Headless.frontend fuel
        (opened settings notes world) with
      | (.error f, _, h) => endingOf settings.programFile f h.panel.world
      | (.ok status, _, h) =>
        { status := .ok statusOk, world := h.panel.world.note ⟨.debug, "Program " ++ status.name⟩ } := by
  have hopen : ∀ w : World, Interface.openFirst (appearance settings) ["none"] w =
      .ok (.headless (({ panel := { world := w }, caption := .text settings.caption } : Headless).note
        (Interface.usingNote "none"))) := fun _ => rfl
  simp only [runProgram, Session.loadFile, hread, Session.load, hp, noteAll_empty, interfaces_none hnone,
    Stage.world, hopen, Session.restart, Option.map_some]
  rw [Session.pump_map Stage.maps_headless]
  unfold opened
  generalize Session.pump _ Headless.frontend fuel _ = x
  rcases x with ⟨_ | _, s, h⟩ <;> rfl

theorem foldl_note_times (notes : List Record) (world : World) :
    (notes.foldl World.note world).clock = world.clock ∧
      (notes.foldl World.note world).longestSleep = world.longestSleep := by
  induction notes generalizing world with
  | nil => exact ⟨rfl, rfl⟩
  | cons r notes ih => exact ih (world.note r)

theorem run_eq_runProgram {i : Invocation} {settings : Settings} {log : Log} {files : Files}
    (hsettings : readSettings i.arguments i.userConfig i.files = (.ok settings, log, files))
    (hversion : settings.flag .version = false) (hhelp : settings.flag .help = false)
    (hfile : settings.programFile ≠ "") (fuel : Nat) {ending : Ending}
    (hending : runProgram settings files fuel { i.world with log } = ending) :
    (run i fuel).status = ending.status ∧ (run i fuel).world = ending.world ∧
      (run i fuel).stderr = (deliverLog i.stamp settings ending.world.log files).1 ++ ending.lastWords := by
  simp only [run, hsettings, hversion, hhelp, hfile, hending, Bool.false_eq_true, if_false, true_and]

theorem run_none {i : Invocation} {settings : Settings} {log : Log} {files : Files} {bytes : List UInt8} {p : Program}
    {notes : List Record} (hclock : Binary64.IsTime i.world.clock) (hlimit : i.world.longestSleep = none)
    (hsettings : readSettings i.arguments i.userConfig i.files = (.ok settings, log, files))
    (hversion : settings.flag .version = false) (hhelp : settings.flag .help = false)
    (hfile : settings.programFile ≠ "") (hnone : settings.text .interface = "none")
    (hread : files.read settings.programFile = .ok bytes)
    (hp : (Source.bytes bytes).parse settings.pedantic = (.ok p, notes)) (wf : p.WellFormed) (fuel : Nat) :
    ∃ result s, Engine.TurnsOut ⟨p, settings.maxStack, settings.debug⟩ (opened settings notes { i.world with log })
        fuel s result ∧
      (result = .ok .terminated → (run i fuel).status = .ok statusOk ∧
        (run i fuel).stderr = (deliverLog i.stamp settings (run i fuel).world.log files).1) ∧
      ∀ e, result = .error (.run (.trap (.error e))) → (run i fuel).status = .ok statusError ∧
        ∃ pos, e.pos = some pos ∧ (run i fuel).stderr = (deliverLog i.stamp settings (run i fuel).world.log files).1 ++
          (settings.programFile ++ ":" ++ (pos.render ++ ": " ++ e.message) ++ "\n") := by
  obtain ⟨hsame, hsame'⟩ : (opened settings notes { i.world with log }).clock = i.world.clock ∧
    (opened settings notes { i.world with log }).limit = i.world.longestSleep := foldl_note_times notes _
  obtain ⟨result, s, h', hpump, hturns⟩ := Session.pump_turnsOut wf settings.pedantic settings.maxStack settings.debug
    (hsame ▸ hclock) (hsame'.trans hlimit) fuel
  have hending := runProgram_none hnone hread hp fuel { i.world with log }
  rw [hpump] at hending
  obtain ⟨hstatus, hworld, hstderr⟩ := run_eq_runProgram hsettings hversion hhelp hfile fuel hending
  refine ⟨result, s, hturns, ?_, ?_⟩
  · rintro rfl
    refine ⟨hstatus, ?_⟩
    rw [hstderr, hworld]
    exact String.append_empty
  · rintro e rfl
    cases hturns with
    | stopped _ hstopped =>
      obtain ⟨st, -, hpos, -⟩ := hstopped.here
      refine ⟨hstatus, st.pos, hpos, ?_⟩
      rw [hstderr, hworld]
      simp only [endingOf, programError?, ProgramError.render, hpos]

/-- Without a window a program goes wrong in five ways only, which its exit status and error output tell. -/
theorem run_unattended {source : Source} {pedantic : Bool} {p : Program} {notes : List Record}
    (hp : source.parse pedantic = (.ok p, notes)) :
    (∀ (maxStack : Int) (trace : Bool) (h : Headless) (fuel m : Nat) (k : Int),
      Binary64.decode h.panel.world.clock = some (false, m, k) → k ≤ 900 → h.panel.world.longestSleep = none →
      ∃ session h₁, Session.load { pedantic, maxStack, trace } Headless.host source h = (.ok p, session, h₁) ∧
        ∃ result s h₂, session.pump Headless.frontend fuel h₁ = (result, { session with state := some s }, h₂) ∧
          Engine.TurnsOut { program := p, maxStack, trace } h₁ fuel s result) ∧
    ∀ (i : Invocation) (fuel m : Nat) (k : Int) (settings : Settings) (log : Log) (files : Files) (bytes : List UInt8),
      Binary64.decode i.world.clock = some (false, m, k) → k ≤ 900 → i.world.longestSleep = none →
      readSettings i.arguments i.userConfig i.files = (.ok settings, log, files) →
      settings.flag .version = false → settings.flag .help = false → settings.programFile ≠ "" →
      settings.text .interface = "none" → settings.pedantic = pedantic →
      files.read settings.programFile = .ok bytes → source = .bytes bytes →
      ∃ result s, Engine.TurnsOut { program := p, maxStack := settings.maxStack, trace := settings.debug }
          (opened settings notes { i.world with log }) fuel s result ∧
        (result = .ok .terminated → (run i fuel).status = .ok 0 ∧
          (run i fuel).stderr = (deliverLog i.stamp settings (run i fuel).world.log files).1) ∧
        ∀ e, result = .error (.run (.trap (.error e))) → (run i fuel).status = .ok 1 ∧
          ∃ pos, e.pos = some pos ∧
            (run i fuel).stderr = (deliverLog i.stamp settings (run i fuel).world.log files).1 ++
              (settings.programFile ++ ":" ++ (pos.render ++ ": " ++ e.message) ++ "\n") := by
  have wf : p.WellFormed := by
    obtain ⟨lines, hlines, rfl⟩ := Program.parse_eq_ofLines (Source.parse_eq_ok hp)
    exact Program.ofLines_wellFormed hlines
  refine ⟨?_, ?_⟩
  · intro maxStack trace h fuel m k hclock hk hlimit
    have hload : Session.load { pedantic, maxStack, trace } Headless.host source h =
        (.ok p, ⟨pedantic, maxStack, trace, some p, some {}⟩, Session.noteAll Headless.host notes h) := by
      simp only [Session.load, hp]
    obtain ⟨hsame, hsame'⟩ := Headless.noteAll_times notes h
    have htime : Binary64.IsTime (Session.noteAll Headless.host notes h).clock := by
      rw [hsame]
      exact Binary64.isTime_of_decode hclock hk
    exact ⟨_, _, hload, Session.pump_turnsOut wf pedantic maxStack trace htime (hsame'.trans hlimit) fuel⟩
  · rintro i fuel m k settings log files bytes hclock hk hlimit hsettings hversion hhelp hfile hnone rfl hread rfl
    exact run_none (Binary64.isTime_of_decode hclock hk) hlimit hsettings hversion hhelp hfile hnone hread hp wf fuel

/-- A return from no call, in a file that is run without a window. -/
def strayReturn : Invocation where
  arguments := ["-n", "--config=c", "p"]
  userConfig := none
  files := { entries := [(["p"], .file "Return".toUTF8.toList)] }
  world := {}
  stamp := ""

open Config in
theorem strayReturn_settings : ∃ log, readSettings strayReturn.arguments strayReturn.userConfig strayReturn.files =
    (.ok ⟨some "p", [(.interface, .text "none")]⟩, log, strayReturn.files) := by
  have hline : CommandLine.read strayReturn.arguments =
      pure ⟨some "p", [("interface", some "none"), ("config", some "c")], false⟩ := rfl
  have hfiles : filesToRead strayReturn.files strayReturn.userConfig
      ⟨some "p", [("interface", some "none"), ("config", some "c")], false⟩ = ["c"] := rfl
  have hsections : ∃ log, (readFiles strayReturn.files ["c"] builtInPresets).run {} = (.ok builtInPresets, log) := by
    have hmissing : strayReturn.files.read "c" = .error (.notFound "c") := by cbv
    simp only [readFiles, readFile, hmissing]
    exact ⟨_, rfl⟩
  have hresolve : (resolve nestingLimit builtInPresets
      ⟨some "p", [("interface", some "none"), ("config", some "c")], false⟩).run = pure (some [("interface", some "none")]) := by
    have hmain : expand builtInPresets nestingLimit [] mainSection false = pure [] := rfl
    have hpresets : splitItems (((List.lookup presetName [("interface", some "none"), ("config", some "c")]).getD
        none).getD "") = [] := by cbv
    simp only [resolve, sectionOptions, hmain, hpresets]
    rfl
  have hconvert : Config.convertAll [("interface", some "none")] = pure [(.interface, .text "none")] := by
    have hlower : Text.lower "none" = "none" := by decide +kernel
    have hchoice : convert .interface (some "none") = pure (.text "none") := by
      simp only [convert, toChoice, Option.getD, hlower]
      rfl
    exact congrArg (fun x => x >>= fun v => pure [(OptionName.interface, v)]) hchoice
  obtain ⟨log, hsections⟩ := hsections
  have hread : (Settings.read nestingLimit strayReturn.arguments strayReturn.userConfig strayReturn.files).run {} =
      (.ok ⟨some "p", [(.interface, .text "none")]⟩, log) := by
    simp only [Settings.read, hline, pure_bind, hfiles, StateT.run_bind, hsections]
    change ((resolve nestingLimit builtInPresets _).run >>= _).run log = _
    rw [hresolve, pure_bind]
    dsimp only
    rw [hconvert]
    rfl
  simp only [readSettings, Option.elim, strayReturn] at hread ⊢
  rw [hread]
  exact ⟨_, rfl⟩

theorem run_unattended_strayReturn : (run strayReturn 1).status = .ok 1 ∧
    ∃ logged, (run strayReturn 1).stderr = logged ++ "p:1:1: Return without Gosub\n" := by
  obtain ⟨log, hsettings⟩ := strayReturn_settings
  have hread : strayReturn.files.read "p" = .ok "Return".toUTF8.toList := by cbv
  have hstatements : ((Source.bytes "Return".toUTF8.toList).parse false).1.toOption.map (·.statements) =
      some #[⟨.back, ⟨1, 1⟩⟩] := by decide +kernel
  rcases hp : (Source.bytes "Return".toUTF8.toList).parse false with ⟨result, notes⟩
  rw [hp] at hstatements
  obtain ⟨p, rfl, hback⟩ := Except.exists_of_map_toOption hstatements
  obtain ⟨result, s, hturns, -, hstopped⟩ := (run_unattended hp).2 strayReturn 1 0 (-1074) _ log _ _ (by decide +kernel)
    (by decide) rfl hsettings rfl rfl (by decide) rfl rfl hread rfl
  have hending : ∀ h : Headless, ∃ m, Headless.frontend.ending? ⟨p, 10000, false⟩ 1 ⟨{}, h⟩ =
      some (m, .error (.trap (.error { kind := .returnWithoutGosub, pos := some ⟨1, 1⟩ }))) := by
    intro h
    have hst : p.statements[({} : State).pc]? = some ⟨.back, ⟨1, 1⟩⟩ := by rw [hback]; rfl
    have hstep := Engine.step_eq_conclude (g := ⟨p, 10000, false⟩) (h := Headless.host) (m := ⟨{}, h⟩) rfl hst
    have hhost : Headless.frontend.toHost = Headless.host := rfl
    simp only [Frontend.ending?, Frontend.turn, hhost, hstep]
    exact ⟨_, rfl⟩
  obtain ⟨m, hm⟩ := hending _
  cases hturns with
  | terminated hn _ => cases congrArg Prod.snd (Frontend.ending?_unique hm hn)
  | unfinished hnone _ => cases hm.symm.trans hnone
  | stopped hn _ =>
    cases congrArg Prod.snd (Frontend.ending?_unique hm hn)
    obtain ⟨hstatus, pos, hpos, hstderr⟩ := hstopped _ rfl
    cases hpos
    exact ⟨hstatus, _, hstderr.trans (congrArg _ (by decide +kernel))⟩

end Application

end GraphicsBatch
