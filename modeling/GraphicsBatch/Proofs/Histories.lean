import Mathlib.Logic.Function.Basic
import GraphicsBatch.Proofs.Effects
import GraphicsBatch.Proofs.Mapped
import GraphicsBatch.Stage

/-!
# Sessions over time

Programs are loaded into a session one after another, hosts are attached to it, runs go on or are given up. An operation
that fails before it comes to the program leaves no trace: without it, everything else would have gone the same way.
-/

namespace GraphicsBatch

theorem Except.map_eq_error {ε α β : Type} {x : Except ε α} {f : α → β} {e : ε} : x.map f = .error e ↔ x = .error e := by
  cases x <;> simp [Except.map]

/-! ## Operations in a row -/

namespace Session

/-- What can be done with a session, where `ι` are the hosts to choose from. Clicks are at integers. -/
inductive Move (ι : Type) where
  | load (source : Source)
  | loadFile (files : Files) (path : String)
  | attach (host : ι)
  | run (fuel : Nat)
  | step
  | resume (fuel : Nat) (e : Event) (integral : e.isIntegral = true)
  | get (name : String)
  | set (name : String) (value : Datum)
  | status
  | timeout
  | waitMode
  | close

inductive Answer where
  | done
  | program (p : Program)
  | status (s : Option Status)
  | number (n : Option Int)
  | mode (name : String)

/-- A session, the host that is attached to it, and all that the hosts act on. -/
structure Desk (ι σ : Type) where
  session : Session
  host : ι
  world : σ

/-- An operation with its result and the session after it. -/
structure Entry (ι : Type) where
  move : Move ι
  result : Except SessionFault Answer
  session : Session

/-- Operations that let the program work. -/
def Move.drives {ι : Type} : Move ι → Bool
  | .run _ | .step | .resume .. => true
  | _ => false

/-- The operation has failed, and not within the program. -/
def Entry.isVoid {ι : Type} (e : Entry ι) : Bool :=
  match e.result with
  | .ok _ => false
  | .error f => !e.move.drives || f = .notLoaded

theorem Entry.isVoid_iff {ι : Type} {e : Entry ι} : e.isVoid = true ↔
    ∃ fault, e.result = .error fault ∧ (e.move.drives = false ∨ fault = .notLoaded) := by
  obtain ⟨move, _ | _, session⟩ := e <;> simp [isVoid]

namespace Desk

variable {ι σ τ : Type}

def take {α : Type} (d : Desk ι σ) (answer : α → Answer) (x : Outcome σ α) : Except SessionFault Answer × Desk ι σ :=
  (x.1.map answer, { d with session := x.2.1, world := x.2.2 })

def perform (hosts : ι → Host σ) (d : Desk ι σ) : Move ι → Except SessionFault Answer × Desk ι σ
  | .load source => d.take .program (d.session.load (hosts d.host) source d.world)
  | .loadFile files path => d.take .program (d.session.loadFile (hosts d.host) files path d.world)
  | .attach host => (.ok .done, { d with session := d.session.restart, host })
  | .run fuel => d.take (.status ∘ some) (d.session.run (hosts d.host) fuel d.world)
  | .step => d.take (.status ∘ some) (d.session.step (hosts d.host) d.world)
  | .resume fuel e _ => d.take (.status ∘ some) (d.session.resume (hosts d.host) fuel e d.world)
  | .get name => ((d.session.get name).map (.number ∘ some), d)
  | .set name value =>
    match d.session.set name value with
    | .ok session => (.ok .done, { d with session })
    | .error f => (.error f, d)
  | .status => (.ok (.status (d.session.state.map (·.status))), d)
  | .timeout => (d.session.getState.map fun s => .number s.timeout, d)
  | .waitMode => (d.session.getState.map fun s => .mode s.waitMode, d)
  | .close => (.ok .done, { d with session := d.session.close })

def after (hosts : ι → Host σ) (d : Desk ι σ) (moves : List (Move ι)) : Desk ι σ :=
  moves.foldl (fun d move => (d.perform hosts move).2) d

def history (hosts : ι → Host σ) : Desk ι σ → List (Move ι) → List (Entry ι)
  | _, [] => []
  | d, move :: moves =>
    let x := d.perform hosts move
    ⟨move, x.1, x.2.session⟩ :: x.2.history hosts moves

/-! ## Hosts that do not read the log -/

end Desk

end Session

/-- The host acts the same whatever has been logged; `f` is all it knows apart from that. -/
def Host.Deaf {σ τ : Type} (h : Host σ) (f : σ → τ) : Prop := ∃ k : Host τ, h.Maps f k ∧ ∀ r w, k.note r w = w

namespace Session

variable {ι σ τ : Type}

theorem noteAll_map {f : σ → τ} {h : Host σ} {k : Host τ} (hf : h.Maps f k) (notes : List Record) (w : σ) :
    noteAll k notes (f w) = f (noteAll h notes w) := by
  induction notes generalizing w with
  | nil => rfl
  | cons r notes ih =>
    unfold noteAll
    rw [List.foldl_cons, hf.note]
    exact ih (h.note r w)

theorem noteAll_same {k : Host τ} (hk : ∀ r w, k.note r w = w) (notes : List Record) (w : τ) : noteAll k notes w = w := by
  induction notes with
  | nil => rfl
  | cons r notes ih =>
    unfold noteAll
    rw [List.foldl_cons, hk]
    exact ih

theorem load_map {f : σ → τ} {h : Host σ} {k : Host τ} (hf : h.Maps f k) (s : Session) (source : Source) (w : σ) :
    s.load k source (f w) = ((s.load h source w).1, (s.load h source w).2.1, f (s.load h source w).2.2) := by
  unfold load
  rcases source.parse s.pedantic with ⟨_ | p, notes⟩ <;> simp only [noteAll_map hf]

theorem load_error {h : Host σ} {s : Session} {source : Source} {w : σ} {fault : SessionFault}
    (he : (s.load h source w).1 = .error fault) :
    (s.load h source w).2 = (s, noteAll h (source.parse s.pedantic).2 w) := by
  unfold load at he ⊢
  generalize source.parse s.pedantic = x at he ⊢
  obtain ⟨_ | p, notes⟩ := x
  · rfl
  · cases he

theorem withRun_map {ε : Type} {f : σ → τ} {act : Engine → Machine σ → Machine σ × Except ε Unit}
    {act' : Engine → Machine τ → Machine τ × Except ε Unit} {fault : ε → RunFault}
    (hact : ∀ g m, act' g (m.map f) = ((act g m).1.map f, (act g m).2)) (s : Session) (w : σ) :
    s.withRun (f w) fault act' =
      ((s.withRun w fault act).1, (s.withRun w fault act).2.1, f (s.withRun w fault act).2.2) := by
  unfold withRun
  split
  · rename_i p state _ _
    have heq := hact ⟨p, s.maxStack, s.trace⟩ ⟨state, w⟩
    simp only [Machine.map] at heq
    dsimp only
    rw [heq]
    rcases act ⟨p, s.maxStack, s.trace⟩ ⟨state, w⟩ with ⟨m, _ | _⟩ <;> rfl
  · rfl

theorem withRun_notLoaded {ε : Type} {act : Engine → Machine σ → Machine σ × Except ε Unit} {fault : ε → RunFault}
    {s : Session} {w : σ} (h : (s.withRun w fault act).1 = .error .notLoaded) : (s.withRun w fault act).2 = (s, w) := by
  unfold withRun at h ⊢
  split
  · rename_i hprogram hstate
    rw [hprogram, hstate] at h
    dsimp only at h
    split at h <;> cases h
  · rfl

namespace Desk

def map (f : σ → τ) (d : Desk ι σ) : Desk ι τ := ⟨d.session, d.host, f d.world⟩

variable {f : σ → τ} {hosts : ι → Host σ} {quiet : ι → Host τ}

theorem perform_map (hf : ∀ i, (hosts i).Maps f (quiet i)) (d : Desk ι σ) (move : Move ι) :
    (d.map f).perform quiet move = ((d.perform hosts move).1, (d.perform hosts move).2.map f) := by
  have hmap := hf d.host
  cases move with
  | load source =>
    simp only [perform, map, load_map hmap]
    rfl
  | loadFile files path =>
    simp only [perform, map, loadFile]
    split
    · rw [load_map hmap]
      rfl
    · rfl
  | run fuel =>
    simp only [perform, map, run, withRun_map fun g m => hmap.run g m fuel]
    rfl
  | step =>
    simp only [perform, map, step, withRun_map fun g m => hmap.step g m]
    rfl
  | resume fuel e =>
    simp only [perform, map, resume, withRun_map fun g m => hmap.resume g m fuel e]
    rfl
  | set name value =>
    simp only [perform, map]
    split <;> rfl
  | _ => rfl

theorem history_map (hf : ∀ i, (hosts i).Maps f (quiet i)) (d : Desk ι σ) (moves : List (Move ι)) :
    (d.map f).history quiet moves = d.history hosts moves := by
  induction moves generalizing d with
  | nil => rfl
  | cons move moves ih =>
    simp only [history, perform_map hf, ih]
    rfl

theorem perform_void (hquiet : ∀ i r w, (quiet i).note r w = w) {d : Desk ι τ} {move : Move ι} {fault : SessionFault}
    (hfault : (d.perform quiet move).1 = .error fault) (hvoid : move.drives = false ∨ fault = .notLoaded) :
    (d.perform quiet move).2 = d := by
  have htake : ∀ {α : Type} {answer : α → Answer} {x : Outcome τ α}, x.2 = (d.session, d.world) →
      (d.take answer x).2 = d := by
    intro α answer x hx
    simp only [take, hx]
  have hload : ∀ {source : Source} {fault : SessionFault},
      (d.session.load (quiet d.host) source d.world).1 = .error fault →
      (d.session.load (quiet d.host) source d.world).2 = (d.session, d.world) := by
    intro source fault he
    rw [load_error he, noteAll_same (hquiet d.host)]
  cases move with
  | load source => exact htake (hload (Except.map_eq_error.mp hfault))
  | loadFile files path =>
    refine htake ?_
    replace hfault := Except.map_eq_error.mp hfault
    unfold loadFile at hfault ⊢
    split
    · rename_i hread
      rw [hread] at hfault
      exact hload hfault
    · rfl
  | run _ | step | resume _ _ =>
    obtain rfl := hvoid.resolve_left (by simp [Move.drives])
    exact htake (withRun_notLoaded (Except.map_eq_error.mp hfault))
  | set name value =>
    simp only [perform] at hfault ⊢
    split
    · rename_i hset
      rw [hset] at hfault
      cases hfault
    · rfl
  | attach _ | status | close => cases hfault
  | get _ | timeout | waitMode => rfl

theorem history_quiet (hquiet : ∀ i r w, (quiet i).note r w = w) (d : Desk ι τ) (moves : List (Move ι)) :
    d.history quiet (((d.history quiet moves).filter fun e => !e.isVoid).map (·.move)) =
      (d.history quiet moves).filter fun e => !e.isVoid := by
  induction moves generalizing d with
  | nil => rfl
  | cons move moves ih =>
    simp only [history, List.filter_cons]
    split
    · simp only [List.map_cons, history, ih]
    · rename_i hvoid
      obtain ⟨fault, hfault, hmove⟩ := Entry.isVoid_iff.mp (by simpa using hvoid)
      rw [perform_void hquiet hfault hmove]
      exact ih d

end Desk

end Session

/-! ## The library's hosts -/

theorem Host.deaf_of_blind {σ : Type} {h : Host σ} {f : σ → σ} (hnote : ∀ r w, f (h.note r w) = f w)
    (hcall : ∀ r w, (h.call r (f w)).1 = (h.call r w).1 ∧ f (h.call r (f w)).2 = f (h.call r w).2) : h.Deaf f := by
  refine ⟨⟨fun r w => ((h.call r w).1, f (h.call r w).2), fun _ w => w⟩, ⟨fun r w => ?_, fun r w => ?_⟩, fun _ _ => rfl⟩
  · obtain ⟨hresult, hworld⟩ := hcall r w
    exact Prod.ext hresult hworld
  · exact (hnote r w).symm

def World.unlogged (w : World) : World := { w with log := {} }

def Panel.unlogged (p : Panel) : Panel := p.mapWorld World.unlogged

def Stage.unlogged (s : Stage) : Stage := s.setWorld s.world.unlogged

namespace Panel

theorem startWait_unlogged (timeout : Value) (p : Panel) :
    p.unlogged.startWait timeout = (p.startWait timeout).map unlogged := by
  unfold startWait
  split
  · rfl
  · rcases timeout.number with _ | n
    · rfl
    · simp only [bind, Except.bind]
      generalize Binary64.ofInt (max 0 n) = x
      cases x <;> rfl

theorem carryOut_unlogged (i : Instruction) (p : Panel) : (p.unlogged.carryOut i).1 = (p.carryOut i).1 ∧
    (p.unlogged.carryOut i).2.unlogged = (p.carryOut i).2.unlogged := by
  cases i with
  | wait timeout =>
    simp only [carryOut, startWait_unlogged]
    cases p.startWait timeout <;> exact ⟨rfl, rfl⟩
  | run command => cases command <;> exact ⟨rfl, rfl⟩
  | _ => exact ⟨rfl, rfl⟩

theorem call_unlogged (r : Request) (p : Panel) : (p.unlogged.call r).1 = (p.call r).1 ∧
    (p.unlogged.call r).2.unlogged = (p.call r).2.unlogged := by
  cases r with
  | forward c args =>
    simp only [call, forward]
    split
    · exact ⟨rfl, rfl⟩
    · exact ⟨rfl, rfl⟩
    · rename_i i _
      obtain ⟨hresult, hpanel⟩ := p.carryOut_unlogged i
      exact ⟨congrArg _ hresult, hpanel⟩
  | _ => exact ⟨rfl, rfl⟩

end Panel

namespace Headless

def unlogged (h : Headless) : Headless := { h with panel := h.panel.unlogged }

theorem carryOut_unlogged (i : Instruction) (h : Headless) : (h.unlogged.carryOut i).1 = (h.carryOut i).1 ∧
    (h.unlogged.carryOut i).2.unlogged = (h.carryOut i).2.unlogged := by
  have hpanel : (h.panel.unlogged.carryOut i).1 = (h.panel.carryOut i).1 ∧
      Headless.mk (h.panel.unlogged.carryOut i).2.unlogged h.caption =
        Headless.mk (h.panel.carryOut i).2.unlogged h.caption :=
    (h.panel.carryOut_unlogged i).imp_right fun heq => by rw [heq]
  cases i with
  | messageBox type default icon text caption =>
    simp only [carryOut]
    cases messageBoxChoice type default <;> exact ⟨rfl, rfl⟩
  | run _ | caption _ => exact ⟨rfl, rfl⟩
  | _ => exact hpanel

theorem call_unlogged (r : Request) (h : Headless) : (h.unlogged.call r).1 = (h.call r).1 ∧
    (h.unlogged.call r).2.unlogged = (h.call r).2.unlogged := by
  cases r with
  | forward c args =>
    simp only [call, forward]
    split
    · exact ⟨rfl, rfl⟩
    · split
      · exact ⟨rfl, rfl⟩
      · exact ⟨rfl, rfl⟩
      · rename_i texts _ _ i _
        -- The command itself is logged first, on both sides.
        have hleft := (h.unlogged.note ⟨.info, c.name ++ "(" ++ String.intercalate "," texts ++ ")"⟩).carryOut_unlogged i
        have hright := (h.note ⟨.info, c.name ++ "(" ++ String.intercalate "," texts ++ ")"⟩).carryOut_unlogged i
        exact ⟨congrArg _ (hleft.1.symm.trans hright.1), hleft.2.symm.trans hright.2⟩
  | _ => exact ⟨rfl, rfl⟩

end Headless

namespace Scripted

def unlogged (s : Scripted) : Scripted := { s with world := s.world.unlogged }

theorem call_unlogged (r : Request) (s : Scripted) : (s.unlogged.call r).1 = (s.call r).1 ∧
    (s.unlogged.call r).2.unlogged = (s.call r).2.unlogged := by
  have hrecord : s.unlogged.record r = (s.record r).unlogged := by
    unfold record
    split <;> rfl
  have hanswer : ∀ s : Scripted, s.unlogged.answer r = ((s.answer r).1, (s.answer r).2.unlogged) := by
    intro s
    unfold answer
    split
    · rfl
    · have hreplies : s.unlogged.replies = s.replies := rfl
      rw [hreplies]
      split <;> rfl
    · rfl
  have hmishaps : s.unlogged.mishaps = s.mishaps := rfl
  simp only [call, hmishaps, hrecord]
  split
  · exact ⟨rfl, rfl⟩
  · rename_i mishaps _
    have heq := hanswer { s.record r with mishaps }
    simp only [unlogged] at heq ⊢
    rw [heq]
    exact ⟨rfl, rfl⟩

end Scripted

namespace Window

theorem viaPanel_blind (i : Instruction) : Blind (viaPanel i) := by
  have hplain : ∀ w : Window, ((viaPanel i).run.run (w.withLog {})).1 = ((viaPanel i).run.run w).1 ∧
      ((viaPanel i).run.run (w.withLog {})).2.withLog {} = ((viaPanel i).run.run w).2.withLog {} := by
    intro w
    obtain ⟨hresult, hpanel⟩ := w.panel.carryOut_unlogged i
    rw [run_viaPanel, run_viaPanel]
    exact ⟨hresult, congrArg (fun panel : Panel => { w with panel }) hpanel⟩
  intro w log
  obtain ⟨hresult, hwindow⟩ := hplain (w.withLog log)
  obtain ⟨hresult', hwindow'⟩ := hplain w
  exact ⟨hresult.symm.trans hresult', hwindow.symm.trans hwindow'⟩

theorem carryOut_blind (i : Instruction) : Blind (carryOut i) := by
  cases hplain : i.plain with
  | true =>
    rw [carryOut_plain hplain]
    exact viaPanel_blind i
  | false =>
    cases i with
    | messageBox type default icon text caption =>
      exact .bind (messageBox_takes type default icon text caption).blind fun _ => .pure _
    | coordinates system => exact .bind (.modify fun _ _ => rfl) fun _ => .pure _
    | run _ | setKeyboard | setMenu | setMouse | setWaitMode _ | wait _ => cases hplain
    | _ => exact (carryOut_draws rfl).blind

theorem forward_blind (name : String) (args : List Value) : Blind (forward name args) := by
  unfold forward
  split
  · exact .bind (.modify fun _ _ => rfl) fun _ => .pure _
  · exact .throw _
  · exact carryOut_blind _

theorem call_unlogged (r : Request) (w : Window) : ((w.withLog {}).call r).1 = (w.call r).1 ∧
    ((w.withLog {}).call r).2.withLog {} = (w.call r).2.withLog {} := by
  have hshow : ∀ menu, Blind (showMenu menu) := by
    intro menu
    refine .look (fun _ _ => rfl) fun w => .bind (.modify fun _ _ => rfl) fun _ => ?_
    split
    · exact (Draws.fitFrame : Draws (fun _ => False) _).blind
    · exact .pure _
  cases r with
  | checkEvents =>
    simp only [call, isClosing]
    exact ⟨rfl, rfl⟩
  | forward c args =>
    obtain ⟨hresult, hwindow⟩ := forward_blind c.name args w {}
    exact ⟨congrArg (Except.mapError Signal.failure) hresult, hwindow⟩
  | showMenu menu =>
    obtain ⟨hresult, hwindow⟩ := hshow menu w {}
    exact ⟨congrArg (fun x : Except Failure Unit => (x.map fun _ => Datum.none).mapError Signal.failure) hresult, hwindow⟩
  | _ => exact ⟨rfl, rfl⟩

end Window

theorem Stage.deaf : Stage.host.Deaf Stage.unlogged := by
  refine Host.deaf_of_blind (fun r s => ?_) fun r s => ?_
  · cases s <;> rfl
  · cases s with
    | empty w => exact ⟨rfl, rfl⟩
    | scripted s =>
      obtain ⟨hresult, hs⟩ := s.call_unlogged r
      exact ⟨hresult, congrArg Stage.scripted hs⟩
    | panel p =>
      obtain ⟨hresult, hp⟩ := p.call_unlogged r
      exact ⟨hresult, congrArg Stage.panel hp⟩
    | headless h =>
      obtain ⟨hresult, hh⟩ := h.call_unlogged r
      exact ⟨hresult, congrArg Stage.headless hh⟩
    | window w =>
      obtain ⟨hresult, hw⟩ := w.call_unlogged r
      exact ⟨hresult, congrArg Stage.window hw⟩

/-- One of several hosts of the same kind, each with its own state. -/
def Host.beside {ι σ : Type} [DecidableEq ι] (h : Host σ) (i : ι) : Host (ι → σ) where
  call r w := ((h.call r (w i)).1, Function.update w i (h.call r (w i)).2)
  note r w := Function.update w i (h.note r (w i))

theorem Host.Deaf.beside {ι σ τ : Type} [DecidableEq ι] {h : Host σ} {f : σ → τ} (hf : h.Deaf f) (i : ι) :
    (h.beside i).Deaf fun w i => f (w i) := by
  obtain ⟨k, hmaps, hnote⟩ := hf
  have hupdate : ∀ (w : ι → σ) (s : σ), (fun j => f (Function.update w i s j)) =
      Function.update (fun j => f (w j)) i (f s) := fun w s => Function.comp_update f w i s
  refine ⟨k.beside i, ⟨fun r w => ?_, fun r w => ?_⟩, fun r w => ?_⟩
  · simp only [Host.beside, hmaps.call, hupdate]
  · simp only [Host.beside, hmaps.note, hupdate]
  · simp only [Host.beside, hnote, Function.update_eq_self]

/-! ## Failures leave no trace -/

namespace Session.Desk

variable {ι σ τ : Type}

/-- Operations that fail leave no trace: without them the others have the same results, if no host reads the log. -/
theorem history_without_failures {hosts : ι → Host σ} {f : σ → τ} (hdeaf : ∀ i, (hosts i).Deaf f) :
    (∀ (d : Desk ι σ) (moves : List (Move ι)),
      d.history hosts (((d.history hosts moves).filter fun e => !e.isVoid).map (·.move)) =
        (d.history hosts moves).filter fun e => !e.isVoid) ∧
    (∀ (d : Desk ι σ) (source : Source) (fault : ParseFault), (source.parse d.session.pedantic).1 = .error fault →
      ∃ world, d.perform hosts (.load source) = (.error (.unparsable fault), { d with world }) ∧ f world = f d.world) ∧
    ∀ (d : Desk ι σ) (files : Files) (path : String) (fault : FileFault), files.read path = .error fault →
      d.perform hosts (.loadFile files path) = (.error (.unreadable fault), d) := by
  obtain ⟨quiet, hquiet⟩ := Classical.skolem.mp hdeaf
  refine ⟨fun d moves => ?_, fun d source fault hfault => ?_, fun d files path fault hfault => ?_⟩
  · rw [← history_map fun i => (hquiet i).1, ← history_map fun i => (hquiet i).1]
    exact history_quiet (fun i => (hquiet i).2) (d.map f) moves
  · refine ⟨noteAll (hosts d.host) (source.parse d.session.pedantic).2 d.world, ?_, ?_⟩
    · simp only [perform, take, load]
      generalize source.parse d.session.pedantic = x at hfault
      obtain ⟨result, notes⟩ := x
      obtain rfl : result = .error fault := hfault
      rfl
    · rw [← noteAll_map (hquiet d.host).1, noteAll_same (hquiet d.host).2]
  · simp only [perform, take, loadFile, hfault]
    rfl

/-- A program waits while another cannot be read and a variable is set to no number. -/
theorem history_without_failures_waiting :
    let hosts : Bool → Host (Bool → Stage) := fun i => Stage.host.beside i
    let d : Desk Bool (Bool → Stage) := ⟨{}, false, fun _ => .headless { panel := { world := {} } }⟩
    let moves : List (Move Bool) := [.timeout, .load (.text "Set x=1 WaitInput()"), .attach true, .run 9,
      .load (.text "Set x=("), .set "x" (.text "z"), .get "x", .resume 9 { kind := .timeout } rfl, .close, .step]
    (d.history hosts moves).map (·.isVoid) =
        [true, false, false, false, true, true, false, false, false, true] ∧
      d.history hosts (((d.history hosts moves).filter fun e => !e.isVoid).map (·.move)) =
        (d.history hosts moves).filter fun e => !e.isVoid :=
  ⟨by decide +kernel, (history_without_failures fun i => Stage.deaf.beside i).1 _ _⟩

end Session.Desk

end GraphicsBatch
