import GraphicsBatch.Proofs.Mapped
import GraphicsBatch.Proofs.Moments
import GraphicsBatch.Proofs.Placed
import Mathlib

/-!
# Places that a run reports

A host can be made to keep all records it is told, and no program notices. Whatever place a run has noted, logged or put
into an error is the place of one statement, and the text comes to it once.
-/

namespace GraphicsBatch

open Source

/-! ## Places and statements -/

def Program.HasPlace (p : Program) (pos : Position) : Prop :=
  ∃ (i : Nat) (st : Statement), p.statements[i]? = some st ∧ st.pos = pos

/-- One statement stands here, and there is one way to come here through the text. -/
structure Program.Locates (p : Program) (text : List Char) (pos : Position) : Prop where
  statement : ∃! i : Nat, ∃ st : Statement, p.statements[i]? = some st ∧ st.pos = pos
  place : ∃! before, before <+: text ∧ Position.start.afterAll before = pos

theorem Program.HasPlace.locates {p : Program} {text : List Char} {pos : Position} (hpos : p.HasPlace pos)
    (hordered : p.statements.toList.Pairwise (fun a b => a.pos.Before b.pos))
    (hstands : ∀ st ∈ p.statements.toList, st.StandsIn text) : p.Locates text pos := by
  obtain ⟨i, st, hst, rfl⟩ := hpos
  have hnodup : (p.statements.toList.map Statement.pos).Nodup :=
    List.pairwise_map.mpr (hordered.imp Position.Before.ne)
  have hi : i < (p.statements.toList.map Statement.pos).length := by
    simpa using (Array.getElem?_eq_some_iff.mp hst).1
  constructor
  · refine ⟨i, ⟨st, hst, rfl⟩, ?_⟩
    rintro j ⟨st', hst', heq⟩
    exact ((List.getElem?_inj hi hnodup).mp (by simp [hst, hst', heq])).symm
  · obtain ⟨before, run, rest, htext, hpos, -⟩ := hstands st (Array.mem_toList_iff.mpr (Array.mem_of_getElem? hst))
    have hbefore : before <+: text := ⟨_, htext.symm⟩
    refine ⟨before, ⟨hbefore, hpos.symm⟩, ?_⟩
    rintro before' ⟨hbefore', hpos'⟩
    exact Position.afterAll_inj hbefore' hbefore (hpos'.trans hpos)

/-! ## Places as they are written -/

theorem notMem_toString_int {c : Char} (hdigit : isDigit c = false) (hminus : c ≠ '-') (n : Int) :
    c ∉ (toString n).toList := by
  have hnat : ∀ k : Nat, c ∉ (Nat.repr k).toList := by
    intro k hc
    rw [Nat.toList_repr] at hc
    rw [isDigit_of_mem_toDigits hc] at hdigit
    cases hdigit
  rw [Int.toString_eq_repr]
  cases n with
  | ofNat k => exact hnat k
  | negSucc k => simpa [Int.repr, hminus] using hnat (k + 1)

theorem append_cons_inj_of_first {α : Type} {x : α} {as bs as' bs' : List α} (has : x ∉ as) (hbs : x ∉ bs)
    (h : as ++ x :: as' = bs ++ x :: bs') : as = bs ∧ as' = bs' := by
  induction as generalizing bs with
  | nil =>
    cases bs with
    | nil => exact ⟨rfl, (List.cons.inj h).2⟩
    | cons b bs => exact absurd ((List.cons.inj h).1 ▸ List.mem_cons_self) hbs
  | cons a as ih =>
    cases bs with
    | nil => exact absurd ((List.cons.inj h).1 ▸ List.mem_cons_self) has
    | cons b bs =>
      obtain ⟨rfl, htail⟩ := List.cons.inj h
      obtain ⟨rfl, heq⟩ := ih (fun hx => has (.tail _ hx)) (fun hx => hbs (.tail _ hx)) htail
      exact ⟨rfl, heq⟩

theorem Position.eq_of_render_append {p q : Position} {as bs : List Char}
    (h : p.render.toList ++ ']' :: as = q.render.toList ++ ']' :: bs) : p = q := by
  have hrender : ∀ (p : Position) (cs : List Char), p.render.toList ++ ']' :: cs =
      (toString p.line).toList ++ ':' :: ((toString p.col).toList ++ ']' :: cs) := by simp [render]
  have hcolon := notMem_toString_int (c := ':') (by decide) (by decide)
  have hbracket := notMem_toString_int (c := ']') (by decide) (by decide)
  -- Numbers are written without colons and brackets, so the first ones of both texts are at the same place.
  rw [hrender, hrender] at h
  obtain ⟨hline, h⟩ := append_cons_inj_of_first (hcolon _) (hcolon _) h
  obtain ⟨hcol, -⟩ := append_cons_inj_of_first (hbracket _) (hbracket _) h
  obtain ⟨line, col⟩ := p
  obtain ⟨line', col'⟩ := q
  obtain rfl : line = line' := Int.repr_inj.mp (String.toList_injective hline)
  obtain rfl : col = col' := Int.repr_inj.mp (String.toList_injective hcol)
  rfl

/-- What a run logs of a statement that it enters. -/
def Statement.traceLine (st : Statement) : Record := ⟨.debug, "[" ++ st.pos.render ++ "] " ++ st.render⟩

/-- What a run of a program may log. -/
inductive Program.Logs (p : Program) : Record → Prop where
  | entered {i : Nat} {st : Statement} : p.statements[i]? = some st → Logs p st.traceLine
  | shutDown : Logs p Engine.shutDown
  | unknown (e : Event) : Logs p ⟨.debug, "Ignoring unknown event " ++ e.describe⟩

theorem Program.Logs.hasPlace {p : Program} {r : Record} (hr : p.Logs r) {pos : Position} {rest : String}
    (h : r.message = "[" ++ pos.render ++ "] " ++ rest) : p.HasPlace pos := by
  have hchars := congrArg String.toList h
  cases hr with
  | @entered i st hst =>
    have hplaces : st.pos.render.toList ++ ']' :: ' ' :: st.render.toList =
        pos.render.toList ++ ']' :: ' ' :: rest.toList := by simpa [Statement.traceLine] using hchars
    exact ⟨i, st, hst, Position.eq_of_render_append hplaces⟩
  | shutDown => simp [Engine.shutDown] at hchars
  | unknown e => simp at hchars

/-! ## A host with a log -/

variable {σ : Type}

/-- The same host, with all records it is told, the latest at the end. -/
def Host.noted (h : Host σ) : Host (List Record × σ) where
  call r w := ((h.call r w.2).1, (w.1, (h.call r w.2).2))
  note record w := (w.1 ++ [record], h.note record w.2)

theorem Host.maps_noted (h : Host σ) : Host.Maps Prod.snd h.noted h := ⟨fun _ _ => rfl, fun _ _ => rfl⟩

/-! ## What is noted of a statement -/

theorem Planned.complete_lastPos {p : Program} {maxStack : Int} {s s' : State} {a : Action} {pl : Plan}
    (hpl : Planned p maxStack s a pl) {reply : Datum} (h : pl.complete reply = .ok s') : s'.lastPos = s.lastPos := by
  cases hpl with
  | messageBox _ =>
    obtain ⟨n, -, h⟩ := Except.bind_eq_ok.mp h
    cases h
    rfl
  | cond lhs op rhs t =>
    obtain rfl := Except.ok.inj h
    split <;> rfl
  | _ =>
    cases h
    rfl

namespace Engine

variable {g : Engine} {h : Host σ} {st : Statement}

theorem perform_lastPos (m : Machine σ) : (g.perform h st m).1.state.lastPos = m.state.lastPos :=
  perform_state (P := fun s => s.lastPos = m.state.lastPos) rfl fun _ hpl =>
    ⟨hpl.prepared_status.2, fun _ _ hs => hpl.complete_lastPos hs⟩

theorem conclude_lastPos (pos : Position) (r : Machine σ × Option Halt) :
    (conclude h pos r).1.state.lastPos = r.1.state.lastPos := by
  rcases r with ⟨m, _ | _ | _ | _ | _⟩ <;> rfl

theorem step_lastPos {m : Machine σ} (hrun : m.state.status = .running)
    (hst : g.program.statements[m.state.pc]? = some st) : (g.step h m).1.state.lastPos = some st.pos := by
  rw [step_eq_conclude hrun hst, conclude_lastPos, perform_lastPos]
  rfl

theorem perform_noted (m : Machine (List Record × σ)) : (g.perform h.noted st m).1.world.1 = m.world.1 :=
  perform_keeps (P := fun w : List Record × σ => w.1 = m.world.1) (fun _ hw => hw)
    (fun _ _ _ hw => Host.askAll_keeps (P := fun w : List Record × σ => w.1 = m.world.1) (fun _ _ _ hw => hw) hw) rfl

theorem step_noted {m : Machine (List Record × σ)} (hrun : m.state.status = .running)
    (hst : g.program.statements[m.state.pc]? = some st) :
    ∃ close, (close = [] ∨ close = [shutDown]) ∧
      (g.step h.noted m).1.world.1 = m.world.1 ++ (if g.trace then [st.traceLine] else []) ++ close := by
  have hlog : (g.perform h.noted st (g.entering h.noted st m)).1.world.1 =
      m.world.1 ++ if g.trace then [st.traceLine] else [] := by
    rw [perform_noted]
    unfold entering
    cases g.trace with
    | true => rfl
    | false => exact (List.append_nil _).symm
  rw [step_eq_conclude hrun hst, ← hlog]
  rcases g.perform h.noted st (g.entering h.noted st m) with ⟨m', _ | _ | _ | _ | _⟩
  case some.exit => exact ⟨[shutDown], .inr rfl, rfl⟩
  all_goals exact ⟨[], .inl rfl, (List.append_nil _).symm⟩

/-! ## What is noted in a run -/

structure Reports (g : Engine) (m : Machine (List Record × σ)) : Prop where
  lastPos : ∀ pos, m.state.lastPos = some pos → g.program.HasPlace pos
  logs : ∀ r ∈ m.world.1, g.program.Logs r

variable {m : Machine (List Record × σ)}

theorem step_reports (hm : g.Reports m) : g.Reports (g.step h.noted m).1 := by
  rcases step_parts g h.noted m with ⟨-, hstep⟩ | ⟨-, -, hstep⟩ | ⟨st, hrun, hst, -⟩
  · rwa [hstep]
  · rw [hstep]
    exact ⟨hm.lastPos, hm.logs⟩
  · constructor
    · intro pos hpos
      rw [step_lastPos hrun hst] at hpos
      exact ⟨_, st, hst, Option.some.inj hpos⟩
    · obtain ⟨close, hclose, hlog⟩ := step_noted (h := h) hrun hst
      rw [hlog, List.forall_mem_append, List.forall_mem_append]
      refine ⟨⟨hm.logs, ?_⟩, ?_⟩
      · cases g.trace with
        | true => exact List.forall_mem_singleton.mpr (.entered hst)
        | false => simp
      · rcases hclose with rfl | rfl
        · simp
        · exact List.forall_mem_singleton.mpr .shutDown

theorem react_lastPos {s s' : State} {i : Input} (h : g.react s i = .ok (some s')) : s'.lastPos = s.lastPos := by
  rcases react_cases h with ⟨x, y, r, t, -, -, rfl⟩ | ⟨t, rfl⟩ <;> rfl

theorem resume_reports (e : Event) (hm : g.Reports m) : g.Reports (g.resume h.noted 0 e m).1 := by
  have hresumed := resumed g h.noted 0 e m
  generalize g.resume h.noted 0 e m = r at hresumed
  cases hresumed with
  | unknown _ _ =>
    exact ⟨hm.lastPos, List.forall_mem_append.mpr ⟨hm.logs, List.forall_mem_singleton.mpr (.unknown e)⟩⟩
  | quit _ _ => exact ⟨hm.lastPos, List.forall_mem_append.mpr ⟨hm.logs, List.forall_mem_singleton.mpr .shutDown⟩⟩
  | woken _ _ hreact =>
    refine ⟨fun pos hpos => hm.lastPos pos ?_, hm.logs⟩
    rw [← react_lastPos hreact]
    exact hpos
  | _ => exact hm

theorem after_reports (hm : g.Reports m) (ops : List Op) : g.Reports (g.after h.noted m ops) := by
  -- Moment by moment, only single steps, events and assignments are left.
  obtain ⟨moments, hmoments, heq⟩ := after_moments (g := g) (h := h.noted) (m := m) ops
  have hsingle := hmoments.isSingle
  rw [← heq]
  clear hmoments heq
  induction moments generalizing m with
  | nil => exact hm
  | cons op moments ih =>
    obtain ⟨hop, hmoments⟩ := List.forall_mem_cons.mp hsingle
    refine ih (m := (g.apply h.noted m op).1) ?_ hmoments
    cases op with
    | step => exact step_reports hm
    | assign name value => exact ⟨hm.lastPos, hm.logs⟩
    | run fuel => cases hop
    | resume fuel e =>
      cases fuel with
      | zero => exact resume_reports e hm
      | succ fuel => cases hop

end Engine

/-! ## Places of errors -/

theorem Host.Signals.raised {h : Host σ} {rs : List Request} {w w' : σ} {e : ProgramError}
    (hsig : h.Signals rs w (.error e) w') : h.Raised w w' e := by
  generalize hs : Signal.error e = sig at hsig
  induction hsig with
  | @here r rs w w' sig hcall => exact ⟨r, w, .refl, hs ▸ hcall⟩
  | @later r rs w w₁ w' reply sig hcall _ ih =>
    have hfollows : h.Follows w w₁ := by simpa [hcall] using Follows.refl.call (h := h) (w := w) r
    exact (ih hs).of_follows hfollows

namespace Engine

variable {g : Engine} {h : Host σ} {m m' : Machine σ} {e : ProgramError}

/-- The error has a place: that of a statement, unless the host has raised it with a place of its own. -/
def Blames (g : Engine) (h : Host σ) (m m' : Machine σ) (e : ProgramError) : Prop :=
  ∃ pos, e.pos = some pos ∧ (g.program.HasPlace pos ∨ h.Raised m.world m'.world e)

theorem step_blames (hstep : g.step h m = (m', .error (.error e))) : g.Blames h m m' e := by
  obtain ⟨st, hst, -, hpos | ⟨hpos, hsig⟩⟩ := step_error hstep
  · exact ⟨st.pos, hpos, .inl ⟨_, st, hst, rfl⟩⟩
  · obtain ⟨pos, hpos⟩ := Option.isSome_iff_exists.mp hpos
    exact ⟨pos, hpos, .inr (hsig.raised.of_follows follows_entering)⟩

theorem run_blames {fuel : Nat} (hrun : g.run h fuel m = (m', .error (.error e))) : g.Blames h m m' e := by
  induction fuel generalizing m with
  | zero => cases hrun
  | succ fuel ih =>
    unfold run at hrun
    split at hrun
    · cases hrun
    · split at hrun
      · rename_i m₁ heq
        have hfollows := @follows_step σ g h m
        rw [heq] at hfollows
        obtain ⟨pos, hpos, hcause⟩ := ih hrun
        exact ⟨pos, hpos, hcause.imp_right fun hraised => hraised.of_follows hfollows⟩
      · rename_i heq
        cases hrun
        exact step_blames heq

theorem apply_blames (wf : g.program.WellFormed) (hs : g.Sound m.state) {op : Op}
    (hop : g.apply h m op = (m', .error (.error e))) : g.Blames h m m' e := by
  cases op with
  | step => exact step_blames hop
  | run fuel => exact run_blames hop
  | assign name value => cases hop
  | resume fuel ev =>
    simp only [apply, resume] at hop
    split at hop
    · cases hop
    · rename_i hwait
      split at hop
      · cases hop
      · cases hop
      · cases hop
      · rename_i i _ _
        split at hop
        · rename_i s' _
          exact run_blames (m := ⟨s', m.world⟩) hop
        · cases hop
        · rename_i t hreact
          cases hop
          -- All labels that are bound are defined, so the event itself cannot fail like this.
          rcases react_sound wf hs (by simpa using hwait) i with ⟨r, hr, -⟩ | hr
          · rw [hreact] at hr
            cases hr
          · rw [hreact] at hr
            cases hr

end Engine

/-- Statements stand in the text one behind the other, and a run notes, logs and reports no places but theirs. -/
theorem Program.parse_located {source : String} {pedantic : Bool} {p : Program}
    (hp : Program.parse source pedantic = .ok p) :
    p.statements.toList.Pairwise (fun a b => a.pos.Before b.pos) ∧
    (∀ st ∈ p.statements.toList,
      st.StandsIn (normalize source.toList) ∧ p.Locates (normalize source.toList) st.pos) ∧
    ∀ (maxStack : Int) (trace : Bool) (σ : Type) (h : Host σ) (w : σ) (ops : List Op),
      let g : Engine := ⟨p, maxStack, trace⟩
      let m := g.after h.noted ⟨{}, ([], w)⟩ ops
      m.map Prod.snd = g.after h ⟨{}, w⟩ ops ∧
      (∀ pos, m.state.lastPos = some pos → p.Locates (normalize source.toList) pos) ∧
      (∀ r ∈ m.world.1, ∀ pos rest, r.message = "[" ++ pos.render ++ "] " ++ rest →
        p.Locates (normalize source.toList) pos) ∧
      (∀ op m' e, g.apply h (m.map Prod.snd) op = (m', .error (.error e)) → ∃ pos, e.pos = some pos ∧
        (p.Locates (normalize source.toList) pos ∨ h.Raised m.world.2 m'.world e)) ∧
      ∀ st, m.state.status = .running → p.statements[m.state.pc]? = some st →
        (g.step h.noted m).1.state.lastPos = some st.pos ∧
          (trace = true → st.traceLine ∈ (g.step h.noted m).1.world.1) := by
  obtain ⟨hordered, hstands⟩ := Program.parse_placed hp
  have hlocates : ∀ {pos}, p.HasPlace pos → p.Locates (normalize source.toList) pos :=
    fun hpos => hpos.locates hordered hstands
  refine ⟨hordered, ?_, ?_⟩
  · intro st hst
    obtain ⟨i, hi, heq⟩ := List.getElem_of_mem hst
    exact ⟨hstands st hst, hlocates ⟨i, st, by rw [← Array.getElem?_toList, List.getElem?_eq_some_iff.mpr ⟨hi, heq⟩], rfl⟩⟩
  · intro maxStack trace σ h w ops g m
    have wf : p.WellFormed := by
      obtain ⟨lines, hl, hlines⟩ := Program.parse_eq_ofLines hp
      exact hlines ▸ Program.ofLines_wellFormed hl
    have hsound : g.Sound m.state := Engine.after_sound wf (Engine.sound_init g) ops
    have hreports : g.Reports m :=
      Engine.after_reports (m := ⟨{}, ([], w)⟩) ⟨by simp, by simp⟩ ops
    refine ⟨(h.maps_noted.after g ⟨{}, ([], w)⟩ ops).symm, fun pos hpos => hlocates (hreports.lastPos pos hpos),
      fun r hr pos rest hread => hlocates ((hreports.logs r hr).hasPlace hread), ?_, ?_⟩
    · intro op m' e hop
      obtain ⟨pos, hpos, hcause⟩ := Engine.apply_blames wf (m := m.map Prod.snd) hsound hop
      exact ⟨pos, hpos, hcause.imp_left hlocates⟩
    · intro st hrun hst
      obtain ⟨close, -, hlog⟩ := Engine.step_noted (g := g) (h := h) hrun hst
      refine ⟨Engine.step_lastPos hrun hst, fun htrace => ?_⟩
      simp [hlog, show g.trace = true from htrace]

def strayReturn : String := "Go:\r\n  Beep Return"

theorem Program.parse_located_strayReturn : ∃ p m', Program.parse strayReturn false = .ok p ∧
    p.Locates "Go:\n  Beep Return".toList ⟨1, 1⟩ ∧ p.Locates "Go:\n  Beep Return".toList ⟨2, 3⟩ ∧
    p.Locates "Go:\n  Beep Return".toList ⟨2, 8⟩ ∧
    let g : Engine := ⟨p, 9, true⟩
    let h : Host Unit := .silent fun _ w => w
    let m := g.after h.noted ⟨{}, ([], ())⟩ [.step, .step]
    m.state.lastPos = some ⟨2, 3⟩ ∧ m.world.1 = [⟨.debug, "[1:1] Go:"⟩, ⟨.debug, "[2:3] Beep"⟩] ∧
    ⟨.debug, "[2:8] Return"⟩ ∈ (g.step h.noted m).1.world.1 ∧
    g.apply h (m.map Prod.snd) .step =
      (m', .error (.error { kind := .returnWithoutGosub, pos := some ⟨2, 8⟩ })) := by
  have hsome : (Program.parse strayReturn false).toOption.map (fun p =>
      let g : Engine := ⟨p, 9, true⟩
      let h : Host Unit := .silent fun _ w => w
      let m := g.after h.noted ⟨{}, ([], ())⟩ [.step, .step]
      decide (m.state.lastPos = some ⟨2, 3⟩ ∧ m.world.1 = [⟨.debug, "[1:1] Go:"⟩, ⟨.debug, "[2:3] Beep"⟩] ∧
        m.state.status = .running ∧ p.statements[m.state.pc]? = some ⟨.back, ⟨2, 8⟩⟩ ∧
        (g.step h (m.map Prod.snd)).2 =
          .error (.error { kind := .returnWithoutGosub, pos := some ⟨2, 8⟩ }))) = some true := by decide +kernel
  obtain ⟨p, hparse, heq⟩ := Except.exists_of_map_toOption hsome
  obtain ⟨hlast, hlog, hrun, hst, hfails⟩ := of_decide_eq_true heq
  have hnorm : normalize strayReturn.toList = "Go:\n  Beep Return".toList := by decide +kernel
  have hlocated := Program.parse_located hparse
  rw [hnorm] at hlocated
  obtain ⟨-, hlasts, hlogs, herrors, hsteps⟩ := hlocated.2.2 9 true Unit (.silent fun _ w => w) () [.step, .step]
  have hfirst : p.Locates "Go:\n  Beep Return".toList ⟨1, 1⟩ :=
    hlogs ⟨.debug, "[1:1] Go:"⟩ (by rw [hlog]; exact List.mem_cons_self) ⟨1, 1⟩ "Go:" (by decide +kernel)
  generalize hstep : Engine.step _ _ (Machine.map Prod.snd _) = r at hfails
  obtain ⟨m', out⟩ := r
  obtain rfl := hfails
  refine ⟨p, m', hparse, hfirst, hlasts _ hlast, ?_, hlast, hlog, (hsteps _ hrun hst).2 rfl, hstep⟩
  obtain ⟨pos, hpos, hlocates | ⟨r, w₀, -, hcall⟩⟩ := herrors .step m' _ hstep
  · cases hpos
    exact hlocates
  · cases hcall

end GraphicsBatch
