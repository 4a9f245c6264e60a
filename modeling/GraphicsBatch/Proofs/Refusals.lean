import GraphicsBatch.Proofs.Magnitude
import GraphicsBatch.Proofs.Mirrored

/-!
# What can go wrong in a statement

The statements of a well-formed program run into five kinds of errors and no others, each at its own place. What they
ask of a host can always be done, so that a plain host adds nothing to the five.
-/

namespace GraphicsBatch

/-- The kinds of errors that a program can run into by itself. -/
def refusals : List ErrorKind := [.returnWithoutGosub, .outOfStack, .divisionByZero, .overflow, .invalidKey]

/-! ## Statements that are refused -/

theorem refuse_eq {kind : ErrorKind} {n : Int} {pos : Position} (h : n.natAbs ≤ Binary64.largest * Binary64.largest) :
    refuse kind n pos = .error { kind, detail := toString n, pos := some pos } := by
  simp only [refuse, Text.writeInt_eq_ok h]

theorem Binary64.le_largest_sq {n : Nat} (h : n ≤ 2 * largest) : n ≤ largest * largest :=
  h.trans (Nat.mul_le_mul_right _ (Nat.le_trans (by decide) le_largest))

/-- Results of numbers in reach are not too long to be shown, even those that are refused. -/
theorem Operator.apply_natAbs_le {op : Operator} {a b n : Int} (ha : InReach a) (hb : InReach b)
    (h : op.apply a b = .ok n) : n.natAbs ≤ Binary64.largest * Binary64.largest := by
  unfold InReach at ha hb
  cases op with
  | plus =>
    obtain rfl : a + b = n := Except.ok.inj h
    exact Binary64.le_largest_sq (by omega)
  | minus =>
    obtain rfl : a - b = n := Except.ok.inj h
    exact Binary64.le_largest_sq (by omega)
  | times =>
    obtain rfl : a * b = n := Except.ok.inj h
    rw [Int.natAbs_mul]
    exact Nat.mul_le_mul ha hb
  | divide =>
    simp only [apply, GraphicsBatch.divide] at h
    split at h
    · cases h
    · obtain rfl : a.tdiv b = n := Except.ok.inj h
      have hle : (a.tdiv b).natAbs ≤ a.natAbs := by
        rw [Int.natAbs_tdiv]
        exact Nat.div_le_self _ _
      exact Binary64.le_largest_sq (by omega)

theorem badKey?_mem {keys : List (Value × String)} {n : Int} (h : badKey? keys = some n) :
    .int n ∈ keys.flatMap keyValues := by
  obtain ⟨⟨k, l⟩, hmem, hk⟩ := List.exists_of_findSome?_eq_some h
  cases k with
  | int m =>
    simp only at hk
    split at hk
    · cases hk
    · cases hk
      exact List.mem_flatMap.mpr ⟨_, hmem, List.mem_cons_self⟩
  | _ => cases hk

section

variable {p : Program} {maxStack : Int} {s : State}

theorem planCall_refusal {c : Command} {args : List Argument} {pos : Position} {halt : Halt}
    (hargs : c.signature.Admits args) (hs : s.Near) (h : planCall s c args pos = .error halt) :
    ∃ n, InReach n ∧ halt = refuse .invalidKey n pos := by
  -- Admitted arguments have the values that each branch asks for; only a key number can be out of range.
  unfold planCall at h
  dsimp only at h
  split at h
  · cases h
  · rcases hargs with _ | ⟨_, _ | ⟨_, _ | ⟨_, _ | ⟨_, _ | ⟨_, _ | ⟨h6, ⟨⟩⟩⟩⟩⟩⟩⟩
    obtain ⟨x, rfl⟩ := h6.of_var
    split at h
    · cases h
    · rename_i hlast
      exact (hlast x rfl).elim
  · obtain ⟨n, hargs⟩ := hargs
    obtain ⟨regions, hvalues⟩ := MouseRegion.exists_values (s := s) hargs
    rw [hvalues, MouseRegion.ofArgs_flatMap_values] at h
    cases h
  · obtain ⟨n, hkeys⟩ := hargs
    obtain ⟨keys, hvalues⟩ := exists_keyValues (s := s) hkeys
    rw [hvalues, keysOfArgs_flatMap_keyValues] at h
    dsimp only at h
    split at h
    · rename_i k hbad
      refine ⟨k, hs.resolve .of_fits (c := .setKeyboard) ⟨n, hkeys⟩ ?_, (Except.error.inj h).symm⟩
      rw [hvalues]
      exact badKey?_mem hbad
    · cases h
  · obtain ⟨menu, hmenu, -⟩ := Menu.MenuArgs.spells hargs s 1
    rw [Menu.ofArgs, hmenu] at h
    cases h
  · rcases hargs with _ | ⟨h1, ⟨⟩⟩
    obtain ⟨t, -, rfl⟩ := h1.of_token
    cases h
  · cases h

/-- A statement is refused for one of five reasons, and is to blame itself. -/
theorem plan_refusal {i : Nat} {st : Statement} {halt : Halt} (wf : p.WellFormed) (hst : p.statements[i]? = some st)
    (hs : s.Near) (h : plan p maxStack s st = .error halt) :
    ∃ e, halt = .error e ∧ e.kind ∈ refusals ∧ (e.locate st.pos).pos = some st.pos := by
  have hrefused := refused_of_plan h
  suffices hkind : ∃ e, halt = .error e ∧ e.kind ∈ refusals by
    obtain ⟨e, rfl, hkind⟩ := hkind
    exact ⟨e, rfl, hkind, hrefused.locate_pos⟩
  have hproper := wf.proper i st hst
  have hdefined : ∀ l ∈ st.action.mentions, p.labels.lookup (Text.upper l) ≠ none := fun _ => wf.lookup_ne_none hst
  obtain ⟨action, pos⟩ := st
  have hcall : ∀ c args, action = .call c args → ∃ e, halt = .error e ∧ e.kind ∈ refusals := by
    rintro c args rfl
    obtain ⟨n, hn, rfl⟩ := planCall_refusal hproper hs h
    exact ⟨_, refuse_eq (hn.trans (Binary64.le_largest_sq (by omega))), by simp [refusals]⟩
  cases hrefused with
  | goto hnone => exact absurd hnone (hdefined _ (List.mem_singleton.mpr rfl))
  | gosub _ hnone => exact absurd hnone (hdefined _ (List.mem_singleton.mpr rfl))
  | overflow heval =>
    rcases State.eval_error heval with heq | ⟨op, second, n, hmore, happly, heq⟩
    · exact ⟨_, heq, by simp [refusals]⟩
    · have hle := op.apply_natAbs_le (hs.value .of_fits hproper.2.1) (hs.value .of_fits (hproper.2.2 _ _ hmore)) happly
      exact ⟨_, heq.trans (refuse_eq hle), by simp [refusals]⟩
  | badKey _ _ => exact hcall _ _ rfl
  | misfit c args => exact hcall c args rfl
  | _ => exact ⟨_, rfl, by simp [refusals]⟩

end

/-! ## Requests that can be met -/

/-- An instruction that can be carried out: numbers and texts are in their places, and a message box has buttons. -/
def Instruction.Feasible : Instruction → Prop
  | .messageBox type default _ _ _ => ∃ choice, messageBoxChoice type default = .ok choice
  | .number _ _ v => ∃ text, v.numberText = .ok text
  | .run command => ∃ text, command = .text text
  | .wait timeout => timeout = .nothing ∨ ∃ n, timeout = .int n ∧ Fits n
  | _ => True

def Request.Feasible : Request → Prop
  | .forward c args =>
    (∃ texts, Value.allWritten args = .ok texts) ∧ ∃ i, Instruction.ofCall? c args = some i ∧ i.Feasible
  | _ => True

theorem messageBoxChoice_eq_ok {t : String} (ht : t ∈ messageBoxTypes) (n : Int) :
    ∃ choice, messageBoxChoice (.text t) (.int n) = .ok choice := by
  obtain ⟨buttons, hbuttons⟩ : ∃ buttons, messageBoxButtons.lookup t = some buttons :=
    Option.isSome_iff_exists.mp ((by decide : ∀ t ∈ messageBoxTypes, (messageBoxButtons.lookup t).isSome = true) t ht)
  exact ⟨_, by simp only [messageBoxChoice, optionOf, hbuttons]; rfl⟩

theorem Signature.Admits.of_waitInput {args : List Argument} (h : (Command.signature .waitInput).Admits args)
    (s : State) : args.map s.resolve = [] ∨ ∃ n, args.map s.resolve = [.int n] := by
  obtain ⟨k, hk⟩ := h
  cases k with
  | zero =>
    cases hk
    exact .inl rfl
  | succ k =>
    rcases hk with _ | ⟨h1, hnil⟩
    obtain rfl : _ = [] := by simpa using hnil
    obtain ⟨n, hn⟩ := h1.resolve_int (s := s)
    exact .inr ⟨n, by rw [List.map_cons, hn, List.map_nil]⟩

section

variable {s : State}

theorem Command.feasible {c : Command} {args : List Argument} (hargs : c.signature.Admits args) (hs : s.Every Fits)
    (hc : c ≠ .messageBox) : ∃ i, Instruction.ofCall? c (args.map s.resolve) = some i ∧ i.Feasible := by
  have hlen : ∀ {slots : List Slot}, c.signature = .fixed slots → (args.map s.resolve).length = slots.length := by
    intro slots hsig
    rw [hsig] at hargs
    rw [List.length_map, hargs.length_eq]
  have hfits : ∀ n, .int n ∈ args.map s.resolve → Fits n := fun n hn => hs.resolve id hargs hn
  cases c with
  | messageBox => exact absurd rfl hc
  | beep | drawBackground => exact hargs.elim
  | setMouse | setKeyboard | setMenu => exact ⟨_, rfl, trivial⟩
  | run =>
    rcases hargs with _ | ⟨h1, ⟨⟩⟩
    obtain ⟨t, rfl⟩ := h1.of_str
    exact ⟨_, rfl, t, rfl⟩
  | drawNumber =>
    rcases hargs with _ | ⟨h1, _ | ⟨h2, _ | ⟨h3, ⟨⟩⟩⟩⟩
    obtain ⟨n, hn⟩ := h3.resolve_int (s := s)
    have hwrite := (InReach.of_fits (hfits n (by simp [hn]))).writeInt
    refine ⟨_, rfl, toString n, ?_⟩
    rw [hn]
    exact Except.bind_eq_ok.mpr ⟨n, rfl, Except.mapError_eq_ok.mpr hwrite⟩
  | waitInput =>
    rcases hargs.of_waitInput s with hnil | ⟨n, hint⟩
    · exact ⟨.wait .nothing, by rw [hnil]; rfl, .inl rfl⟩
    · exact ⟨.wait (.int n), by rw [hint]; rfl, .inr ⟨n, rfl, hfits n (by simp [hint])⟩⟩
  | _ =>
    -- Only the number of arguments matters.
    replace hlen := hlen rfl
    clear hfits
    generalize args.map s.resolve = vs at hlen
    rcases vs with _ | ⟨_, _ | ⟨_, _ | ⟨_, _ | ⟨_, _ | ⟨_, _ | ⟨_, _ | ⟨_, _ | ⟨_, _ | ⟨_, _ | _⟩⟩⟩⟩⟩⟩⟩⟩⟩ <;>
      first | exact ⟨_, rfl, trivial⟩ | simp at hlen

/-- What a statement asks for can be done. -/
theorem Planned.feasible {p : Program} {maxStack : Int} {a : Action} {pl : Plan} (h : Planned p maxStack s a pl)
    (hproper : a.Proper) (hs : s.Every Fits) : ∀ r ∈ pl.requests, r.Feasible := by
  have hwritten := h.written hproper (hs.mono .of_fits)
  intro r hr
  have hr' := hwritten r hr
  cases h with
  | plain c =>
    obtain rfl := List.mem_singleton.mp hr
    refine ⟨hr', ?_⟩
    cases c with
    | beep | drawBackground => exact ⟨_, rfl, trivial⟩
    | _ => cases hproper
  | messageBox _ =>
    obtain rfl := List.mem_singleton.mp hr
    refine ⟨hr', ?_⟩
    rcases hproper with _ | ⟨h1, _ | ⟨h2, _ | ⟨h3, _ | ⟨h4, _ | ⟨h5, _ | ⟨h6, ⟨⟩⟩⟩⟩⟩⟩⟩
    obtain ⟨t, ht, rfl⟩ := h1.of_token
    obtain ⟨n, hn⟩ := h2.resolve_int (s := s)
    refine ⟨_, rfl, ?_⟩
    rw [hn]
    exact messageBoxChoice_eq_ok ht n
  | wait _ | setWaitMode _ =>
    obtain rfl := List.mem_singleton.mp hr
    exact ⟨hr', Command.feasible hproper hs (by decide)⟩
  | forward hc =>
    obtain rfl := List.mem_singleton.mp hr
    exact ⟨hr', Command.feasible hproper hs (by rintro rfl; simp at hc)⟩
  | setMouse _ | setKeyboard _ _ =>
    rcases List.mem_cons.mp hr with rfl | hr
    · exact ⟨hr', Command.feasible hproper hs (by decide)⟩
    · obtain ⟨_, -, rfl⟩ := List.mem_map.mp hr
      trivial
  | setMenu _ =>
    rcases List.mem_cons.mp hr with rfl | hr
    · exact ⟨hr', Command.feasible hproper hs (by decide)⟩
    · obtain rfl := List.mem_singleton.mp hr
      trivial
  | _ => cases hr

theorem buttonNumber_int (n : Int) : buttonNumber (.int n) = .ok n := by
  unfold buttonNumber
  split
  · rfl
  · rename_i hzero
    simp only [Datum.isTrue, ne_eq, decide_not, Bool.not_eq_true', decide_eq_false_iff_not, not_not] at hzero
    rw [hzero]

theorem Planned.completes {p : Program} {maxStack : Int} {a : Action} {pl : Plan} (h : Planned p maxStack s a pl)
    {d : Datum} (hd : d.IsButton) : ∃ s', pl.complete d = .ok s' := by
  cases h with
  | messageBox _ =>
    rcases hd with rfl | ⟨n, rfl, -⟩
    · exact ⟨_, rfl⟩
    · exact ⟨_, Except.bind_eq_ok.mpr ⟨n, buttonNumber_int n, rfl⟩⟩
  | _ => exact ⟨_, rfl⟩

end

/-! ## Hosts that do what they can -/

section

variable {σ : Type}

/-- A host that does whatever can be done, and answers message boxes with a number of 64 bits. -/
def Host.Obliges (h : Host σ) : Prop :=
  ∀ {r : Request} (w : σ), r.Feasible → ∃ d, (h.call r w).1 = .ok d ∧ d.IsButton

theorem Host.askAll_singleton_snd {h : Host σ} (r : Request) (w : σ) : (h.askAll [r] w).2 = (h.call r w).2 := by
  rw [← Host.ask_snd]
  unfold askAll
  rcases h.ask r w with ⟨_ | _, w'⟩ <;> rfl

theorem Host.Obliges.askAll {h : Host σ} (hh : h.Obliges) {rs : List Request} (hrs : ∀ r ∈ rs, r.Feasible) (w : σ) :
    ∃ d w', h.askAll rs w = (.ok d, w') ∧ d.IsButton := by
  induction rs generalizing w with
  | nil => exact ⟨.none, w, rfl, .inl rfl⟩
  | cons r rs ih =>
    obtain ⟨d, hd, hbutton⟩ := hh w (hrs r List.mem_cons_self)
    obtain ⟨d', w', hask, -⟩ := ih (fun r' hr' => hrs r' (List.mem_cons_of_mem _ hr')) (h.call r w).2
    have hr : h.ask r w = (.ok d, (h.call r w).2) := Host.ask_eq_ok.mpr (Prod.ext hd rfl)
    exact ⟨d, w', by simp only [Host.askAll, hr, hask], hbutton⟩

end

theorem Fits.max_lt {n : Int} (h : Fits n) : max 0 n < 2 ^ 63 := by
  have hmax := h.2
  unfold maxInt at hmax
  omega

theorem Panel.startWait_int {n : Int} (hn : Fits n) (p : Panel) :
    ∃ ms, Binary64.ofInt (max 0 n) = .ok ms ∧
      p.startWait (.int n) = .ok { p with deadline := some (p.world.clock + ms / 1000) } := by
  obtain ⟨ms, hms, -⟩ := Binary64.under_ofInt (j := 63) (by omega) hn.max_lt (by decide)
  exact ⟨ms, hms, Except.bind_eq_ok.mpr ⟨n, rfl, Except.bind_eq_ok.mpr ⟨ms, Except.mapError_eq_ok.mpr hms, rfl⟩⟩⟩

/-- Commands are not run without a window, so none is refused. -/
theorem Headless.carryOut_feasible {i : Instruction} (hi : i.Feasible) (h : Headless) :
    ∃ d, (h.carryOut i).1 = .ok d := by
  cases i with
  | messageBox type default icon text caption =>
    obtain ⟨choice, hchoice⟩ := hi
    exact ⟨_, by simp only [carryOut, hchoice]; rfl⟩
  | number x y v =>
    obtain ⟨text, htext⟩ := hi
    exact ⟨_, by simp only [carryOut, Panel.carryOut, htext]; rfl⟩
  | wait timeout =>
    rcases hi with rfl | ⟨n, rfl, hn⟩
    · exact ⟨_, rfl⟩
    · obtain ⟨ms, -, hwait⟩ := h.panel.startWait_int hn
      exact ⟨.none, by simp only [carryOut, Panel.carryOut, hwait]⟩
  | _ => exact ⟨_, rfl⟩

theorem Headless.call_forward {c : Command} {args : List Value} {texts : List String} {i : Instruction}
    (htexts : Value.allWritten args = .ok texts) (hi : Instruction.ofCall? c args = some i) (h : Headless) :
    h.call (.forward c args) =
      (((h.note ⟨.info, c.name ++ "(" ++ String.intercalate "," texts ++ ")"⟩).carryOut i).1.mapError .failure,
        ((h.note ⟨.info, c.name ++ "(" ++ String.intercalate "," texts ++ ")"⟩).carryOut i).2) := by
  simp only [call, forward, htexts, Panel.instructionOf_some hi]

theorem Headless.obliges : host.Obliges := by
  intro r h hr
  cases r with
  | forward c args =>
    obtain ⟨⟨texts, htexts⟩, i, hi, hfeasible⟩ := hr
    simp only [host, call_forward htexts hi]
    generalize h.note _ = h'
    obtain ⟨d, hd⟩ := h'.carryOut_feasible hfeasible
    exact ⟨d, Except.mapError_eq_ok.mpr hd, carryOut_isButton hd⟩
  | _ => exact ⟨.none, rfl, .inl rfl⟩

/-! ## One step -/

namespace Engine

/-- The run has been ended by the statement where it stands, with an error of its own. -/
structure Stopped (g : Engine) (s : State) (e : ProgramError) : Prop where
  kind : e.kind ∈ refusals
  here : ∃ st, g.program.statements[s.pc]? = some st ∧ e.pos = some st.pos ∧ s.lastPos = some st.pos
  status : s.status = .terminated

variable {σ : Type} {g : Engine} {h : Host σ} {m : Machine σ} {st : Statement}

theorem perform_obliged (wf : g.program.WellFormed) (hh : h.Obliges) (hst : g.program.statements[m.state.pc]? = some st)
    (hm : m.state.Every Fits) :
    (g.perform h st m).2 = none ∨
      ∃ e, (g.perform h st m).2 = some (.error e) ∧ e.kind ∈ refusals ∧ (e.locate st.pos).pos = some st.pos := by
  obtain ⟨d, hd, -⟩ := hh (r := .checkEvents) m.world trivial
  have hask : h.ask .checkEvents m.world = (.ok d, (h.call .checkEvents m.world).2) :=
    Host.ask_eq_ok.mpr (Prod.ext hd rfl)
  unfold perform
  rw [hask]
  dsimp only
  split
  · rename_i halt hplan
    obtain ⟨e, rfl, hcause⟩ := plan_refusal wf hst (hm.mono .of_fits) hplan
    exact .inr ⟨e, rfl, hcause⟩
  · rename_i pl hplan
    have hplanned := planned_of_plan hplan
    have hfeasible := hplanned.feasible (wf.proper _ st hst) hm
    obtain ⟨reply, w', hall, hreply⟩ := hh.askAll hfeasible (h.call .checkEvents m.world).2
    obtain ⟨s', hs'⟩ := hplanned.completes hreply
    simp only [hall, hs']
    exact .inl trivial

theorem step_obliged (wf : g.program.WellFormed) (hh : h.Obliges) (hm : m.state.Every Fits) :
    (g.step h m).2 = .ok () ∨ ∃ e, (g.step h m).2 = .error (.error e) ∧ g.Stopped (g.step h m).1.state e := by
  rcases step_parts g h m with ⟨-, hstep⟩ | ⟨-, -, hstep⟩ | ⟨st, -, hst, hstep⟩ <;> rw [hstep]
  · exact .inl rfl
  · exact .inl rfl
  · have hperform := perform_obliged (m := g.entering h st m) wf hh hst ⟨hm.vars, hm.mouse⟩
    rcases hp : g.perform h st (g.entering h st m) with ⟨m', o⟩
    rw [hp] at hperform
    rcases hperform with rfl | ⟨e, rfl, hkind, hpos⟩
    · exact .inl rfl
    · obtain ⟨hspares, hlast, -⟩ := perform_halted hp
      have hended := ended_terminate hspares hlast
      refine .inr ⟨e.locate st.pos, rfl, hkind, ⟨st, ?_, hpos, hended.lastPos⟩, hended.status⟩
      exact (congrArg (g.program.statements[·]?) hended.pc).trans hst

end Engine

end GraphicsBatch
