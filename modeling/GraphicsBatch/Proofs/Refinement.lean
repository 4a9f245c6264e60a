import GraphicsBatch.Proofs.LineMachine

/-!
# The engine carries out the lines

Each place on a line has an index. With it a state of the machine on lines becomes a state of the engine,
and every operation on the one is the same operation on the other.
-/

namespace GraphicsBatch

theorem Tiles.getElem?_succ {a b k : Nat} {gs : List (Nat × Nat)} {r : Nat × Nat} (h : Tiles a gs b)
    (hk : gs[k]? = some r) : gs[k + 1]?.elim b (·.1) = r.2 := by
  induction gs generalizing a k with
  | nil => simp at hk
  | cons f gs ih =>
    obtain ⟨-, -, h3⟩ := h
    cases k with
    | zero =>
      cases hk
      cases gs with
      | nil => exact h3.symm
      | cons f' gs => exact h3.1
    | succ k => exact ih h3 hk

namespace Program

/-- Where a line starts; the end of the program if there is no such line. -/
def start (p : Program) (line : Nat) : Nat := p.groups[line]?.elim p.size (·.1)

def index (p : Program) (pt : Place) : Nat := p.start pt.line + pt.offset

end Program

/-- The machine on the lines of a program, with the same settings. -/
def Engine.byLines (g : Engine) : LineEngine := ⟨g.program.lines, g.maxStack, g.trace⟩

namespace LineEngine

/-- Places with a statement, and the end of the program. -/
def Within (e : LineEngine) (pt : Place) : Prop := (e.statement? pt).isSome ∨ pt = ⟨e.lines.length, 0⟩

end LineEngine

/-! ## Places and indices -/

namespace Engine

variable {g : Engine} {pt : Place} {st : Statement}

theorem statement?_eq_some_iff : g.byLines.statement? pt = some st ↔ ∃ r, g.program.groups[pt.line]? = some r ∧
    r.1 + pt.offset < r.2 ∧ g.program.statements[r.1 + pt.offset]? = some st := by
  simp only [LineEngine.statement?, byLines, Program.lines, List.getElem?_map, Option.bind_eq_some_iff,
    Option.map_eq_some_iff]
  constructor
  · rintro ⟨line, ⟨r, hr, rfl⟩, hst⟩
    rw [Array.getElem?_toList, Array.getElem?_extract] at hst
    split at hst
    · exact ⟨r, hr, by omega, hst⟩
    · cases hst
  · rintro ⟨r, hr, hlt, hst⟩
    obtain ⟨hsize, -⟩ := Array.getElem?_eq_some_iff.mp hst
    refine ⟨_, ⟨r, hr, rfl⟩, ?_⟩
    rw [Array.getElem?_toList, Array.getElem?_extract, if_pos (by omega), hst]

theorem start_eq {k : Nat} {r : Nat × Nat} (h : g.program.groups[k]? = some r) : g.program.start k = r.1 := by
  simp [Program.start, h]

theorem start_succ (wf : g.program.WellFormed) {k : Nat} {r : Nat × Nat} (h : g.program.groups[k]? = some r) :
    g.program.start (k + 1) = r.2 := wf.tiles.getElem?_succ h

theorem start_length : g.program.start g.byLines.lines.length = g.program.size := by
  simp [Program.start, byLines, Program.lines]

theorem start_zero (wf : g.program.WellFormed) : g.program.start 0 = 0 := by
  have h := wf.tiles
  unfold Program.start
  cases hgs : g.program.groups with
  | nil =>
    rw [hgs] at h
    exact h.symm
  | cons r gs =>
    rw [hgs] at h
    exact h.1

theorem getElem?_index (h : g.byLines.statement? pt = some st) :
    g.program.statements[g.program.index pt]? = some st := by
  obtain ⟨r, hr, -, hst⟩ := statement?_eq_some_iff.mp h
  rw [Program.index, start_eq hr, hst]

theorem exists_place (wf : g.program.WellFormed) {i : Nat} (h : g.program.statements[i]? = some st) :
    ∃ pt, g.program.index pt = i ∧ g.byLines.statement? pt = some st := by
  obtain ⟨hi, -⟩ := Array.getElem?_eq_some_iff.mp h
  obtain ⟨r, hr, hlo, hhi⟩ := wf.tiles.exists_mem (Nat.zero_le i) hi
  obtain ⟨k, hk⟩ := List.mem_iff_getElem?.mp hr
  have hsum : r.1 + (i - r.1) = i := by omega
  refine ⟨⟨k, i - r.1⟩, ?_, statement?_eq_some_iff.mpr ⟨r, hk, ?_, ?_⟩⟩
  · rw [Program.index, start_eq hk, hsum]
  · simp only [hsum, hhi]
  · simp only [hsum, h]

theorem index_next (wf : g.program.WellFormed) (h : g.byLines.statement? pt = some st) :
    g.program.index (g.byLines.next pt) = g.program.index pt + 1 := by
  unfold LineEngine.next
  split
  · rfl
  · rename_i hlast
    obtain ⟨r, hr, hlt, -⟩ := statement?_eq_some_iff.mp h
    have hb := wf.tiles.bounds (List.mem_of_getElem? hr)
    -- There is no further statement on this line, so it ends here.
    have hend : r.2 = r.1 + pt.offset + 1 := by
      by_contra hne
      have hsize : r.1 + (pt.offset + 1) < g.program.statements.size := by
        have : r.2 ≤ g.program.statements.size := hb.2.2
        omega
      refine hlast (Option.isSome_iff_exists.mpr ⟨_, statement?_eq_some_iff.mpr ⟨r, hr, ?_,
        Array.getElem?_eq_getElem hsize⟩⟩)
      simp only
      omega
    simp only [Program.index, LineEngine.nextLine, start_succ wf hr, start_eq hr]
    omega

theorem getElem?_index_end (h : pt = ⟨g.byLines.lines.length, 0⟩) :
    g.program.statements[g.program.index pt]? = none := by
  subst h
  simp [Program.index, start_length, Program.size]

theorem statement?_end (h : pt = ⟨g.byLines.lines.length, 0⟩) : g.byLines.statement? pt = none := by
  subst h
  simp [LineEngine.statement?]

theorem getElem?_index_of_within (h : g.byLines.Within pt) :
    g.program.statements[g.program.index pt]? = g.byLines.statement? pt := by
  rcases h with h | h
  · obtain ⟨st, hst⟩ := Option.isSome_iff_exists.mp h
    rw [getElem?_index hst, hst]
  · rw [getElem?_index_end h, statement?_end h]

theorem within_start (wf : g.program.WellFormed) {k : Nat} (hk : k ≤ g.byLines.lines.length) :
    g.byLines.Within ⟨k, 0⟩ := by
  rcases Nat.lt_or_eq_of_le hk with hlt | rfl
  · have hlt' : k < g.program.groups.length := by simpa [byLines, Program.lines] using hlt
    have hr := List.getElem?_eq_getElem hlt'
    have hb := wf.tiles.bounds (List.mem_of_getElem? hr)
    have hsize : g.program.groups[k].1 + 0 < g.program.statements.size := by
      have : g.program.groups[k].2 ≤ g.program.statements.size := hb.2.2
      omega
    exact .inl (Option.isSome_iff_exists.mpr ⟨_, statement?_eq_some_iff.mpr
      ⟨_, hr, hb.2.1, Array.getElem?_eq_getElem hsize⟩⟩)
  · exact .inr rfl

theorem within_nextLine (wf : g.program.WellFormed) (h : g.byLines.statement? pt = some st) :
    g.byLines.Within (LineEngine.nextLine pt) := by
  obtain ⟨r, hr, -, -⟩ := statement?_eq_some_iff.mp h
  obtain ⟨hlt, -⟩ := List.getElem?_eq_some_iff.mp hr
  exact within_start wf (by simpa [byLines, Program.lines, Nat.add_one_le_iff] using hlt)

theorem within_next (wf : g.program.WellFormed) (h : g.byLines.statement? pt = some st) :
    g.byLines.Within (g.byLines.next pt) := by
  unfold LineEngine.next
  split
  · rename_i hsome
    exact .inl hsome
  · exact within_nextLine wf h

/-! ### Labels -/

theorem label?_eq_some {name : String} (h : g.byLines.label? name = some pt) :
    ∃ st, g.byLines.statement? pt = some st ∧ st.action.labelKey? = some (Text.upper name) := by
  obtain ⟨⟨sts, k⟩, hmem, hfind⟩ := List.exists_of_findSome?_eq_some h
  obtain ⟨q, hq, rfl⟩ := Option.map_eq_some_iff.mp hfind
  obtain ⟨hlt, hkey, -⟩ := List.findIdx?_eq_some_iff_getElem.mp hq
  have hline : g.byLines.lines[k]? = some sts := List.mk_mem_zipIdx_iff_getElem?.mp hmem
  refine ⟨sts[q], ?_, by simpa using hkey⟩
  simp only [LineEngine.statement?, hline, Option.bind_some, List.getElem?_eq_getElem hlt]

theorem label?_eq_none {name : String} (h : g.byLines.label? name = none)
    (hst : g.byLines.statement? pt = some st) : st.action.labelKey? ≠ some (Text.upper name) := by
  intro hkey
  obtain ⟨line, hline, ho⟩ := Option.bind_eq_some_iff.mp hst
  have hmem : (line, pt.line) ∈ g.byLines.lines.zipIdx := List.mk_mem_zipIdx_iff_getElem?.mpr hline
  have hnone := List.findSome?_eq_none_iff.mp h _ hmem
  have hall := List.findIdx?_eq_none_iff.mp (Option.map_eq_none_iff.mp hnone) st (List.mem_of_getElem? ho)
  simp [hkey] at hall

/-- The label table leads where a search through the lines leads. -/
theorem target_eq (wf : g.program.WellFormed) (name : String) (pos : Option Position) :
    g.program.target name pos = (g.byLines.target name pos).map g.program.index := by
  unfold Program.target LineEngine.target
  cases hl : g.byLines.label? name with
  | some pt =>
    obtain ⟨st, hst, hkey⟩ := label?_eq_some hl
    have hlookup := (wf.labels (Text.upper name) _).mpr ⟨_, st, rfl, getElem?_index hst, hkey⟩
    rw [hlookup]
    simp only [Except.map, index_next wf hst]
  | none =>
    cases hlookup : g.program.labels.lookup (Text.upper name) with
    | none => rfl
    | some j =>
      obtain ⟨i, st, -, hi, hkey⟩ := (wf.labels _ _).mp hlookup
      obtain ⟨pt, -, hst⟩ := exists_place wf hi
      exact absurd hkey (label?_eq_none hl hst)

theorem target_within (wf : g.program.WellFormed) {name : String} {pos : Option Position}
    (h : g.byLines.target name pos = .ok pt) : g.byLines.Within pt := by
  unfold LineEngine.target at h
  split at h
  · rename_i at_label hl
    cases h
    obtain ⟨st, hst, -⟩ := label?_eq_some hl
    exact within_next wf hst
  · cases h

end Engine

/-! ## States -/

def CallStack.ofFrames (frames : List Nat) : CallStack := ⟨frames, frames.length, rfl⟩

/-- The state of the engine that a state on lines stands for. -/
def LineState.flat (p : Program) (l : LineState) : State :=
  l.memory.state (p.index l.place) (.ofFrames (l.calls.map p.index))

def LinePlan.flat (p : Program) (pl : LinePlan) : Plan where
  prepared := pl.prepared.flat p
  requests := pl.requests
  complete reply := (pl.complete reply).map (·.flat p)

def LineMachine.flat {σ : Type} (p : Program) (m : LineMachine σ) : Machine σ := ⟨m.state.flat p, m.world⟩

/-- A run on lines stays on the lines, and waits only at a statement. -/
structure LineEngine.Placed (e : LineEngine) (l : LineState) : Prop where
  place : e.Within l.place
  calls : ∀ pt ∈ l.calls, e.Within pt
  waiting : l.memory.status = .suspended → (e.statement? l.place).isSome

namespace Memory

variable {mem : Memory} {pc : Nat} {cs : CallStack}

theorem resolve_state : (mem.state pc cs).resolve = mem.scratch.resolve := rfl

/-- A command does not look at the place or at the calls. -/
theorem planCall_state (hrun : mem.status = .running) (c : Command) (args : List Argument) (pos : Position) :
    planCall (mem.state pc cs) c args pos = (planCall mem.scratch c args pos).map fun pl => {
      prepared := pl.prepared.memory.state pc cs
      requests := pl.requests
      complete := fun reply => (pl.complete reply).map fun s =>
        s.memory.state (if s.status = .suspended then pc else pc + 1) cs } := by
  obtain ⟨vars, bindings, status, timeout, waitMode, lastPos⟩ := mem
  cases hrun
  -- A call works on the memory alone and goes on to the next place, unless it suspends.
  cases c with
  | messageBox =>
    simp only [planCall, resolve_state]
    split
    · refine congrArg Except.ok (congrArg (Plan.mk _ _) (funext fun reply => ?_))
      dsimp only
      cases buttonNumber reply <;> rfl
    · rfl
  | setMouse =>
    simp only [planCall, resolve_state]
    cases MouseRegion.ofArgs (args.map _) <;> rfl
  | setKeyboard =>
    simp only [planCall, resolve_state]
    cases keysOfArgs (args.map _) with
    | error _ => rfl
    | ok keys => cases hbad : badKey? keys <;> simp only [hbad] <;> rfl
  | setMenu =>
    simp only [planCall, resolve_state]
    cases Menu.ofArgs (args.map _) <;> rfl
  | setWaitMode =>
    simp only [planCall, resolve_state]
    split <;> rfl
  | _ => rfl

end Memory

/-! ## Statements -/

namespace Engine

variable {g : Engine} {l : LineState} {st : Statement}

theorem eval_flat (x : Expr) (pos : Position) : (l.flat g.program).eval x pos = l.memory.scratch.eval x pos := rfl

theorem flat_next (wf : g.program.WellFormed) (hst : g.byLines.statement? l.place = some st) :
    { l with place := g.byLines.next l.place }.flat g.program = (l.flat g.program).advance := by
  simp only [LineState.flat, index_next wf hst]
  rfl

theorem index_nextLine (wf : g.program.WellFormed) (hst : g.byLines.statement? l.place = some st)
    {lhs rhs : Operand} {op : Comparison} {t : Nat} (hact : st.action = .cond lhs op rhs t) :
    g.program.index (LineEngine.nextLine l.place) = t := by
  obtain ⟨r, hr, hlt, hi⟩ := statement?_eq_some_iff.mp hst
  rw [wf.skips _ st lhs op rhs t hi hact r (List.mem_of_getElem? hr) ⟨by omega, hlt⟩]
  exact start_succ wf hr

theorem planCall_flat (wf : g.program.WellFormed) (hrun : l.memory.status = .running)
    (hst : g.byLines.statement? l.place = some st) (c : Command) (args : List Argument) (pos : Position) :
    planCall (l.flat g.program) c args pos = (g.byLines.planCall l c args pos).map (·.flat g.program) := by
  rw [LineState.flat, Memory.planCall_state hrun, LineEngine.planCall]
  cases planCall l.memory.scratch c args pos with
  | error x => rfl
  | ok pl =>
    refine congrArg Except.ok (congrArg (Plan.mk _ _) (funext fun reply => ?_))
    dsimp only
    cases pl.complete reply with
    | error f => rfl
    | ok s =>
      by_cases hs : s.status = .suspended
      · simp only [Except.map, hs, bind, Except.bind, pure, Except.pure, if_true, LineState.flat]
      · simp only [Except.map, hs, bind, Except.bind, pure, Except.pure, if_false, LineState.flat, index_next wf hst]

/-- The engine plans what the machine on lines plans. -/
theorem plan_flat (wf : g.program.WellFormed) (hrun : l.memory.status = .running)
    (hst : g.byLines.statement? l.place = some st) :
    plan g.program g.maxStack (l.flat g.program) st = (g.byLines.plan l st).map (·.flat g.program) := by
  have hnext := flat_next wf hst
  unfold plan LineEngine.plan
  cases hact : st.action with
  | label name => simp only [Except.map, LinePlan.flat, Plan.quiet, hnext]
  | plain c => simp only [Except.map, LinePlan.flat, Plan.asking, hnext]
  | goto name =>
    simp only [target_eq wf]
    cases g.byLines.target name (some st.pos) <;> rfl
  | gosub name =>
    have hdepth : (l.flat g.program).callStack.depth = l.calls.length := List.length_map _
    -- The frame that is pushed is the place behind the call.
    have hpush : (l.flat g.program).callStack.push ((l.flat g.program).pc + 1) =
        .ofFrames ((g.byLines.next l.place :: l.calls).map g.program.index) := by
      rw [List.map_cons, index_next wf hst]
      rfl
    simp only [target_eq wf, hdepth, hpush]
    by_cases hmax : g.maxStack ≤ l.calls.length
    · rw [if_pos hmax, if_pos (show g.byLines.maxStack ≤ l.calls.length from hmax)]
      rfl
    · rw [if_neg hmax, if_neg (show ¬ g.byLines.maxStack ≤ l.calls.length from hmax)]
      cases g.byLines.target name (some st.pos) <;> rfl
  | back =>
    obtain ⟨place, calls, memory⟩ := l
    cases calls <;> rfl
  | finish => rfl
  | cond lhs op rhs t =>
    have hskip : { l with place := LineEngine.nextLine l.place }.flat g.program = (l.flat g.program).jump t := by
      simp only [LineState.flat, index_nextLine wf hst hact]
      rfl
    have hvalue : (l.flat g.program).value = l.memory.scratch.value := rfl
    simp only [Except.map, LinePlan.flat, Plan.quiet, hvalue]
    split
    · rw [hnext]
    · rw [hskip]
  | assign v x =>
    simp only [eval_flat]
    cases l.memory.scratch.eval x st.pos with
    | error _ => rfl
    | ok n =>
      have hset := flat_next (l := { l with memory := l.memory.set v n }) wf hst
      simp only [bind, Except.bind, pure, Except.pure, Except.map, LinePlan.flat, Plan.quiet, hset]
      rfl
  | call c args => exact planCall_flat wf hrun hst c args st.pos

/-! ### Places that a statement leads to -/

theorem placed_at (hst : g.byLines.statement? l.place = some st) (hcalls : ∀ pt ∈ l.calls, g.byLines.Within pt) :
    g.byLines.Placed l := by
  have hsome : (g.byLines.statement? l.place).isSome := by rw [hst]; rfl
  exact ⟨.inl hsome, hcalls, fun _ => hsome⟩

theorem placed_of_ne (hplace : g.byLines.Within l.place) (hcalls : ∀ pt ∈ l.calls, g.byLines.Within pt)
    (hs : l.memory.status ≠ .suspended) : g.byLines.Placed l :=
  ⟨hplace, hcalls, fun h => absurd h hs⟩

theorem planCall_placed (wf : g.program.WellFormed) (hst : g.byLines.statement? l.place = some st)
    (hcalls : ∀ pt ∈ l.calls, g.byLines.Within pt) {c : Command} {args : List Argument} {pos : Position}
    {pl : LinePlan} (hpl : g.byLines.planCall l c args pos = .ok pl) :
    g.byLines.Placed pl.prepared ∧ ∀ reply l', pl.complete reply = .ok l' → g.byLines.Placed l' := by
  unfold LineEngine.planCall at hpl
  obtain ⟨q, -, hq⟩ := Except.bind_eq_ok.mp hpl
  cases hq
  refine ⟨placed_at hst hcalls, ?_⟩
  intro reply l' hl'
  obtain ⟨s, -, hs⟩ := Except.bind_eq_ok.mp hl'
  cases hs
  by_cases hwait : s.status = .suspended
  · simp only [hwait, if_true]
    exact placed_at hst hcalls
  · simp only [hwait, if_false]
    exact placed_of_ne (within_next wf hst) hcalls hwait

theorem placed_then {l' : LineState} (hl : g.byLines.Placed l) (hl' : g.byLines.Placed l') :
    g.byLines.Placed l ∧ ∀ (_ : Datum) l'', (.ok l' : Except IntFault LineState) = .ok l'' → g.byLines.Placed l'' := by
  refine ⟨hl, ?_⟩
  rintro - l'' ⟨⟩
  exact hl'

theorem plan_placed (wf : g.program.WellFormed) (hrun : l.memory.status = .running)
    (hst : g.byLines.statement? l.place = some st) (hcalls : ∀ pt ∈ l.calls, g.byLines.Within pt)
    {pl : LinePlan} (hpl : g.byLines.plan l st = .ok pl) :
    g.byLines.Placed pl.prepared ∧ ∀ reply l', pl.complete reply = .ok l' → g.byLines.Placed l' := by
  have hne : l.memory.status ≠ .suspended := by simp [hrun]
  have hself := placed_at hst hcalls
  have hnext := within_next wf hst
  obtain ⟨action, pos⟩ := st
  cases action with
  | label name | plain c =>
    cases hpl
    exact placed_then hself (placed_of_ne hnext hcalls hne)
  | goto name =>
    obtain ⟨pt, hpt, hq⟩ := Except.bind_eq_ok.mp hpl
    cases hq
    exact placed_then hself (placed_of_ne (target_within wf (Except.mapError_eq_ok.mp hpt)) hcalls hne)
  | gosub name =>
    simp only [LineEngine.plan] at hpl
    split at hpl
    · cases hpl
    · obtain ⟨pt, hpt, hq⟩ := Except.bind_eq_ok.mp hpl
      cases hq
      refine placed_then hself (placed_of_ne (target_within wf (Except.mapError_eq_ok.mp hpt)) ?_ hne)
      exact List.forall_mem_cons.mpr ⟨hnext, hcalls⟩
  | back =>
    simp only [LineEngine.plan] at hpl
    split at hpl
    · rename_i pt calls heq
      cases hpl
      obtain ⟨hpt, hrest⟩ := List.forall_mem_cons.mp (heq ▸ hcalls)
      exact placed_then hself (placed_of_ne hpt hrest hne)
    · cases hpl
  | finish =>
    cases hpl
    exact placed_then hself (placed_at hst hcalls)
  | cond lhs op rhs t =>
    cases hpl
    refine placed_then hself ?_
    split
    · exact placed_of_ne hnext hcalls hne
    · exact placed_of_ne (within_nextLine wf hst) hcalls hne
  | assign v x =>
    obtain ⟨n, -, hq⟩ := Except.bind_eq_ok.mp hpl
    cases hq
    exact placed_then hself (placed_of_ne hnext hcalls hne)
  | call c args => exact planCall_placed wf hst hcalls hpl

/-! ## Runs -/

variable {σ : Type} {h : Host σ} {m : LineMachine σ}

theorem flat_state : (m.flat g.program).state = m.state.flat g.program := rfl

theorem flat_world : (m.flat g.program).world = m.world := rfl

theorem flat_status : (m.state.flat g.program).status = m.state.memory.status := rfl

theorem flat_pc : (m.state.flat g.program).pc = g.program.index m.state.place := rfl

theorem entering_flat : g.entering h st (m.flat g.program) = (g.byLines.entering h st m).flat g.program := rfl

theorem perform_flat (wf : g.program.WellFormed) (hrun : m.state.memory.status = .running)
    (hst : g.byLines.statement? m.state.place = some st) :
    g.perform h st (m.flat g.program) = (g.byLines.perform h st m).map (·.flat g.program) id := by
  unfold perform LineEngine.perform
  rw [flat_world, flat_state, plan_flat wf hrun hst]
  rcases h.ask .checkEvents m.world with ⟨_ | _, w⟩
  · rfl
  · cases g.byLines.plan m.state st with
    | error x => rfl
    | ok pl =>
      simp only [Except.map, LinePlan.flat]
      rcases h.askAll pl.requests w with ⟨_ | reply, w'⟩
      · rfl
      · dsimp only
        cases pl.complete reply <;> rfl

theorem perform_placed (wf : g.program.WellFormed) (hrun : m.state.memory.status = .running)
    (hst : g.byLines.statement? m.state.place = some st) (hp : g.byLines.Placed m.state) :
    g.byLines.Placed (g.byLines.perform h st m).1.state := by
  unfold LineEngine.perform
  rcases h.ask .checkEvents m.world with ⟨_ | _, w⟩
  · exact hp
  · dsimp only
    cases hpl : g.byLines.plan m.state st with
    | error x => exact hp
    | ok pl =>
      obtain ⟨hprepared, hcomplete⟩ := plan_placed wf hrun hst hp.calls hpl
      dsimp only
      rcases h.askAll pl.requests w with ⟨_ | reply, w'⟩
      · exact hprepared
      · dsimp only
        cases hc : pl.complete reply with
        | error f => exact hprepared
        | ok l => exact hcomplete reply l hc

theorem conclude_flat (pos : Position) (r : LineMachine σ × Option Halt) :
    conclude h pos (r.map (·.flat g.program) id) = (LineEngine.conclude h pos r).map (·.flat g.program) id := by
  rcases r with ⟨m, _ | _ | _ | _ | _⟩ <;> rfl

theorem terminate_placed (hp : g.byLines.Placed m.state) : g.byLines.Placed (LineEngine.terminate m).state :=
  placed_of_ne hp.place hp.calls (by simp [LineEngine.terminate, Memory.terminate])

theorem conclude_placed (pos : Position) {r : LineMachine σ × Option Halt} (hp : g.byLines.Placed r.1.state) :
    g.byLines.Placed (LineEngine.conclude h pos r).1.state := by
  rcases r with ⟨m, _ | _ | _ | _ | _⟩
  · exact hp
  · exact terminate_placed hp
  · exact hp
  · exact terminate_placed hp
  · exact hp

theorem step_flat (wf : g.program.WellFormed) (hp : g.byLines.Placed m.state) :
    g.step h (m.flat g.program) = (g.byLines.step h m).map (·.flat g.program) id := by
  unfold LineEngine.step
  by_cases hrun : m.state.memory.status = .running
  · have hat := getElem?_index_of_within hp.place
    rw [if_neg (not_not.mpr hrun)]
    cases hst : g.byLines.statement? m.state.place with
    | none =>
      rw [hst] at hat
      unfold step
      rw [flat_state, flat_status, if_neg (not_not.mpr hrun), flat_pc, hat]
      rfl
    | some st =>
      rw [hst] at hat
      dsimp only
      rw [step_eq_conclude hrun hat, ← conclude_flat, entering_flat]
      exact congrArg _ (perform_flat wf hrun hst)
  · unfold step
    rw [flat_state, flat_status, if_pos hrun, if_pos hrun]
    rfl

theorem step_placed (wf : g.program.WellFormed) (hp : g.byLines.Placed m.state) :
    g.byLines.Placed (g.byLines.step h m).1.state := by
  unfold LineEngine.step
  split
  · exact hp
  · rename_i hrun
    have hrun : m.state.memory.status = .running := by simpa using hrun
    split
    · exact terminate_placed hp
    · rename_i st hst
      refine conclude_placed st.pos (perform_placed wf hrun hst ?_)
      exact ⟨hp.place, hp.calls, hp.waiting⟩

theorem run_flat (wf : g.program.WellFormed) (fuel : Nat) (hp : g.byLines.Placed m.state) :
    g.run h fuel (m.flat g.program) = (g.byLines.run h fuel m).map (·.flat g.program) id := by
  induction fuel generalizing m with
  | zero => rfl
  | succ fuel ih =>
    unfold run LineEngine.run
    rw [flat_state, flat_status]
    split
    · rfl
    · have hp' := @step_placed g σ h m wf hp
      rw [step_flat wf hp]
      rcases hr : g.byLines.step h m with ⟨m', _ | _⟩
      · rfl
      · rw [hr] at hp'
        exact ih hp'

theorem run_placed (wf : g.program.WellFormed) (fuel : Nat) (hp : g.byLines.Placed m.state) :
    g.byLines.Placed (g.byLines.run h fuel m).1.state := by
  induction fuel generalizing m with
  | zero => exact hp
  | succ fuel ih =>
    unfold LineEngine.run
    split
    · exact hp
    · have hp' := @step_placed g σ h m wf hp
      rcases hr : g.byLines.step h m with ⟨m', _ | _⟩
      · rw [hr] at hp'
        exact hp'
      · rw [hr] at hp'
        exact ih hp'

/-! ### Events -/

theorem wakeAt_flat (wf : g.program.WellFormed) (l : LineState) (name : Option String) :
    g.wakeAt (l.flat g.program) name = (g.byLines.wakeAt l name).map (·.map (·.flat g.program)) := by
  cases name with
  | none => rfl
  | some name =>
    unfold wakeAt LineEngine.wakeAt
    simp only [target_eq wf]
    cases g.byLines.target name none <;> rfl

theorem wakeAt_placed (wf : g.program.WellFormed) {l l' : LineState} {name : Option String}
    (hcalls : ∀ pt ∈ l.calls, g.byLines.Within pt) (hw : g.byLines.wakeAt l name = .ok (some l')) :
    g.byLines.Placed l' := by
  cases name with
  | none => cases hw
  | some name =>
    obtain ⟨pt, hpt, hq⟩ := Except.bind_eq_ok.mp hw
    cases hq
    exact placed_of_ne (target_within wf (Except.mapError_eq_ok.mp hpt)) hcalls (by simp [Memory.wake])

theorem react_flat (wf : g.program.WellFormed) (hst : (g.byLines.statement? l.place).isSome) (i : Input) :
    g.react (l.flat g.program) i = (g.byLines.react l i).map (·.map (·.flat g.program)) := by
  have hbindings : (l.flat g.program).bindings = l.memory.bindings := rfl
  cases i with
  | click x y =>
    simp only [react, LineEngine.react, hbindings]
    cases l.memory.bindings.matchMouse x y with
    | error _ => rfl
    | ok r =>
      cases r with
      | none => rfl
      | some r =>
        exact wakeAt_flat wf { l with memory := (l.memory.set r.varX x.whole).set r.varY y.whole } (some r.label)
  | key code char ctrl =>
    simp only [react, LineEngine.react, hbindings]
    cases l.memory.bindings.matchKey code char ctrl with
    | error _ => rfl
    | ok name => exact wakeAt_flat wf l name
  | menu id =>
    simp only [react, LineEngine.react, hbindings]
    cases l.memory.bindings.matchMenu id with
    | error _ => rfl
    | ok name => exact wakeAt_flat wf l name
  | timeout =>
    obtain ⟨st, hst⟩ := Option.isSome_iff_exists.mp hst
    have hwake := flat_next (l := { l with memory := l.memory.wake }) wf hst
    have htimeout : (l.flat g.program).timeout = l.memory.timeout := rfl
    simp only [react, LineEngine.react, Except.map, htimeout]
    split
    · rw [Option.map_some, hwake]
      rfl
    · rfl
  | quit => rfl

theorem react_placed (wf : g.program.WellFormed) (hst : (g.byLines.statement? l.place).isSome)
    (hcalls : ∀ pt ∈ l.calls, g.byLines.Within pt) {i : Input} {l' : LineState}
    (hr : g.byLines.react l i = .ok (some l')) : g.byLines.Placed l' := by
  cases i with
  | click x y =>
    obtain ⟨r, -, hr⟩ := Except.bind_eq_ok.mp hr
    cases r with
    | none => cases hr
    | some r =>
      exact @wakeAt_placed g wf { l with memory := (l.memory.set r.varX x.whole).set r.varY y.whole } l'
        (some r.label) hcalls hr
  | key code char ctrl =>
    obtain ⟨name, -, hr⟩ := Except.bind_eq_ok.mp hr
    exact wakeAt_placed wf hcalls hr
  | menu id =>
    obtain ⟨name, -, hr⟩ := Except.bind_eq_ok.mp hr
    exact wakeAt_placed wf hcalls hr
  | timeout =>
    obtain ⟨st, hst⟩ := Option.isSome_iff_exists.mp hst
    simp only [LineEngine.react] at hr
    split at hr
    · cases hr
      exact placed_of_ne (within_next wf hst) hcalls (by simp [Memory.wake])
    · cases hr
  | quit => cases hr

theorem resume_flat (wf : g.program.WellFormed) (fuel : Nat) (ev : Event) (hp : g.byLines.Placed m.state) :
    g.resume h fuel ev (m.flat g.program) = (g.byLines.resume h fuel ev m).map (·.flat g.program) id := by
  unfold resume LineEngine.resume
  rw [flat_state, flat_status]
  split
  · rfl
  · rename_i hs
    have hst := hp.waiting (not_not.mp hs)
    cases ev.read with
    | unknown => rfl
    | misfit => rfl
    | input i =>
      cases i with
      | quit => rfl
      | _ =>
        simp only [react_flat wf hst]
        generalize hr : g.byLines.react m.state _ = r
        rcases r with _ | _ | l
        · rfl
        · rfl
        · exact run_flat (m := ⟨l, m.world⟩) wf fuel (react_placed wf hst hp.calls hr)

theorem resume_placed (wf : g.program.WellFormed) (fuel : Nat) (ev : Event) (hp : g.byLines.Placed m.state) :
    g.byLines.Placed (g.byLines.resume h fuel ev m).1.state := by
  unfold LineEngine.resume
  split
  · exact hp
  · rename_i hs
    have hst := hp.waiting (not_not.mp hs)
    split
    · exact hp
    · exact hp
    · exact terminate_placed hp
    · split
      · rename_i hr
        exact run_placed wf fuel (react_placed wf hst hp.calls hr)
      · exact hp
      · exact hp

/-! ### Operations -/

theorem apply_flat (wf : g.program.WellFormed) (hp : g.byLines.Placed m.state) (op : Op) :
    g.apply h (m.flat g.program) op = (g.byLines.apply h m op).map (·.flat g.program) id := by
  cases op with
  | step => exact step_flat wf hp
  | run fuel => exact run_flat wf fuel hp
  | resume fuel ev => exact resume_flat wf fuel ev hp
  | assign name value => rfl

theorem apply_placed (wf : g.program.WellFormed) (hp : g.byLines.Placed m.state) (op : Op) :
    g.byLines.Placed (g.byLines.apply h m op).1.state := by
  cases op with
  | step => exact step_placed wf hp
  | run fuel => exact run_placed wf fuel hp
  | resume fuel ev => exact resume_placed wf fuel ev hp
  | assign name value => exact ⟨hp.place, hp.calls, hp.waiting⟩

theorem after_flat (wf : g.program.WellFormed) (ops : List Op) (hp : g.byLines.Placed m.state) :
    g.after h (m.flat g.program) ops = (g.byLines.after h m ops).flat g.program ∧
      g.byLines.Placed (g.byLines.after h m ops).state := by
  induction ops generalizing m with
  | nil => exact ⟨rfl, hp⟩
  | cons op ops ih =>
    have hfirst : (g.apply h (m.flat g.program) op).1 = (g.byLines.apply h m op).1.flat g.program := by
      rw [apply_flat wf hp op]
      rfl
    simp only [after, LineEngine.after, List.foldl_cons, hfirst]
    exact ih (apply_placed wf hp op)

theorem flat_init (wf : g.program.WellFormed) : ({} : LineState).flat g.program = {} := by
  simp only [LineState.flat, Program.index, start_zero wf]
  rfl

theorem placed_init (wf : g.program.WellFormed) : g.byLines.Placed {} :=
  placed_of_ne (within_start wf (Nat.zero_le _)) (by simp) (by simp)

end Engine

end GraphicsBatch
