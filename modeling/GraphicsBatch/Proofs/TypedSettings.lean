import GraphicsBatch.Proofs.Overriding

/-!
# Settings are well typed

Whatever the command line and the sections hold, there are settings unless presets nest too deep, and each of them has a
value of its type. A text that makes no sense for its option counts as if the option was given nowhere.
-/

namespace GraphicsBatch.Config

open Noting (Gives)

/-! ## What is handed on -/

/-- The texts that count and the settings, for some sections and a command line. -/
structure Retrieves (depth : Nat) (sections : Sections) (args : List String) (raw : Table) (settings : Settings) :
    Prop where
  intro ::
  texts : ∃ c, Gives (CommandLine.read args) c ∧ Gives (resolve depth sections c).run (some raw) ∧
    settings.program = c.program
  options : Gives (convertAll raw) settings.options

/-- Whether the text of an option makes sense. -/
def OptionName.Admits (o : OptionName) (value : String) : Prop :=
  match o with
  | .maxStack => ∃ n, Text.readInt value = .ok n
  | .interface => Text.lower value ∈ interfaceChoices
  | .dimensions => (integers value).length = 2
  | _ => True

/-- Each setting has a value of its type, and this value is handed on. -/
structure Settings.WellTyped (s : Settings) : Prop where
  pedantic : s.get .pedantic = .flag s.pedantic
  debug : s.get .debug = .flag s.debug
  maxStack : ∃ n, s.get .maxStack = .int n ∧ s.maxStack = max 0 n ∧ 0 ≤ s.maxStack
  interfaces : s.get .interface = .text (s.text .interface) ∧
    (s.interfaces = ["pygame"] ∨ s.interfaces = ["none"] ∨ s.interfaces = ["pygame", "none"])
  caption : s.get .caption = .text s.caption ∧ s.caption ≠ ""
  dimensions : s.get .dimensions = .ints s.dimensions ∧ (s.dimensions = [] ∨ s.dimensions.length = 2)

/-! ## Values that count -/

/-- The value of an option with a text, or with none. A value that says nothing gives way to the default. -/
def OptionName.effective (o : OptionName) (raw : Option (Option String)) : OptionValue :=
  match raw with
  | some v => if (converted o v).isBlank then o.default else converted o v
  | none => o.default

theorem Settings.get_eq {s : Settings} {raw : Table}
    (h : ∀ o : OptionName, s.options.lookup o = (raw.lookup o.name).map (converted o))
    (o : OptionName) : s.get o = o.effective (raw.lookup o.name) := by
  unfold Settings.get Settings.get? OptionName.effective
  rw [h o]
  cases raw.lookup o.name with
  | none => rfl
  | some v =>
    dsimp only [Option.map_some]
    split <;> rfl

theorem OptionName.effective_of_not_admits {o : OptionName} {v : Option String} (h : ¬ o.Admits (v.getD "")) :
    o.effective (some v) = o.effective none := by
  refine if_pos ?_
  cases o with
  | maxStack =>
    cases hread : Text.readInt (v.getD "") with
    | ok n => exact absurd ⟨n, hread⟩ h
    | error e => simp [converted, hread, OptionValue.isBlank, Except.toOption]
  | interface =>
    have hchoice : Text.lower (v.getD "") ∉ interfaceChoices := h
    simp [converted, OptionValue.isBlank, hchoice]
  | dimensions =>
    have hcount : (integers (v.getD "")).length ≠ dimensionCount := h
    simp [converted, OptionValue.isBlank, hcount]
  | _ => exact absurd trivial h

/-- The options that are switches. -/
def OptionName.IsFlag (o : OptionName) : Prop := o = .debug ∨ o = .help ∨ o = .pedantic ∨ o = .version

theorem OptionName.effective_flag {o : OptionName} (ho : o.IsFlag) (raw : Option (Option String)) :
    o.effective raw = .flag (raw.elim false fun v => decide (Text.upper (v.getD "") ∉ falseWords)) := by
  rcases ho with rfl | rfl | rfl | rfl
  all_goals cases raw <;> rfl

theorem OptionName.effective_maxStack (raw : Option (Option String)) :
    ∃ n, OptionName.effective .maxStack raw = .int n := by
  cases raw with
  | none => exact ⟨_, rfl⟩
  | some v =>
    cases hread : Text.readInt (v.getD "") with
    | ok n => exact ⟨n, by simp [effective, converted, hread, Except.toOption, OptionValue.isBlank]⟩
    | error e =>
      have hnot : ¬ OptionName.Admits .maxStack (v.getD "") := by simp [Admits, hread]
      exact ⟨_, effective_of_not_admits hnot⟩

theorem OptionName.effective_interface (raw : Option (Option String)) :
    ∃ t ∈ interfaceChoices, OptionName.effective .interface raw = .text t := by
  cases raw with
  | none => exact ⟨"", by simp [interfaceChoices], rfl⟩
  | some v =>
    by_cases hchoice : Text.lower (v.getD "") ∈ interfaceChoices
    · refine ⟨_, hchoice, ?_⟩
      by_cases hempty : Text.lower (v.getD "") = ""
      · simp [effective, converted, hempty, OptionValue.isBlank, OptionName.default]
      · simp [effective, converted, hempty, hchoice, OptionValue.isBlank]
    · exact ⟨"", by simp [interfaceChoices], effective_of_not_admits hchoice⟩

theorem OptionName.effective_caption (raw : Option (Option String)) :
    ∃ t, t ≠ "" ∧ OptionName.effective .caption raw = .text t := by
  cases raw with
  | none => exact ⟨_, by decide, rfl⟩
  | some v =>
    by_cases hempty : v.getD "" = ""
    · exact ⟨_, by decide, if_pos (by simp [converted, OptionValue.isBlank, hempty])⟩
    · exact ⟨v.getD "", hempty, if_neg (by simp [converted, OptionValue.isBlank, hempty])⟩

theorem OptionName.effective_dimensions (raw : Option (Option String)) :
    ∃ ns : List Int, (ns = [] ∨ ns.length = 2) ∧ OptionName.effective .dimensions raw = .ints ns := by
  cases raw with
  | none => exact ⟨[], .inl rfl, rfl⟩
  | some v =>
    by_cases hcount : (integers (v.getD "")).length = dimensionCount
    · have hne : integers (v.getD "") ≠ [] := List.ne_nil_of_length_pos (by rw [hcount]; decide)
      exact ⟨_, .inr hcount, by simp [effective, converted, hcount, OptionValue.isBlank, hne]⟩
    · exact ⟨[], .inl rfl, effective_of_not_admits hcount⟩

theorem Settings.WellTyped.of_effective {s : Settings} {texts : OptionName → Option (Option String)}
    (h : ∀ o : OptionName, s.get o = o.effective (texts o)) : s.WellTyped := by
  have hflag : ∀ o : OptionName, o.IsFlag → s.get o = .flag (s.flag o) := by
    intro o ho
    unfold Settings.flag
    rw [h o, OptionName.effective_flag ho]
  obtain ⟨n, hn⟩ := OptionName.effective_maxStack (texts .maxStack)
  obtain ⟨t, ht, htext⟩ := OptionName.effective_interface (texts .interface)
  obtain ⟨title, htitle, hcaption⟩ := OptionName.effective_caption (texts .caption)
  obtain ⟨ns, hns, hints⟩ := OptionName.effective_dimensions (texts .dimensions)
  rw [← h] at hn htext hcaption hints
  have hinterface : s.text .interface = t := by simp only [Settings.text, htext]
  have htitled : s.caption = title := by simp only [Settings.caption, Settings.text, hcaption]
  have hsized : s.dimensions = ns := by simp only [Settings.dimensions, hints]
  have hstack : s.maxStack = max 0 n := by simp only [Settings.maxStack, hn]
  refine ⟨hflag .pedantic (by simp [OptionName.IsFlag]), hflag .debug (by simp [OptionName.IsFlag]), ⟨n, hn, hstack, ?_⟩,
    ⟨hinterface ▸ htext, ?_⟩, htitled ▸ ⟨hcaption, htitle⟩, hsized ▸ ⟨hints, hns⟩⟩
  · rw [hstack]
    exact le_max_left 0 n
  · unfold Settings.interfaces
    rw [hinterface]
    simp only [interfaceChoices, List.mem_cons, List.not_mem_nil, or_false] at ht
    rcases ht with rfl | rfl | rfl | rfl
    · exact .inr (.inr rfl)
    · exact .inr (.inl rfl)
    · exact .inl rfl
    · exact .inl rfl

/-! ## Options that are given nowhere -/

/-- The same sections without an option. -/
def Sections.without (sections : Sections) (name : String) : Sections :=
  sections.map fun s => (s.1, s.2.filter (·.1 ≠ name))

section

variable {sections : Sections} {name key : String} {layers : List Table}

theorem Sections.lookup_without :
    (sections.without name).lookup key = (sections.lookup key).map (List.filter (·.1 ≠ name)) := by
  induction sections with
  | nil => rfl
  | cons s sections ih =>
    unfold Sections.without at ih ⊢
    rw [List.map_cons, lookup_cons_eq, lookup_cons_eq, ih]
    split <;> rfl

theorem lookup_filter_of_ne {t : Table} (h : key ≠ name) : List.lookup key (t.filter (·.1 ≠ name)) = t.lookup key :=
  lookup_filter (by simpa using h)

theorem presets_filter {own : Table} (hname : presetName ≠ name) :
    Table.presets (own.filter (·.1 ≠ name)) = own.presets := by
  unfold Table.presets
  rw [lookup_filter_of_ne hname]

/-- Sections are expanded alike without an option that is no preset. -/
theorem Expands.without (hname : presetName ≠ name) {seen names : List String} (h : Expands sections seen names layers) :
    Expands (sections.without name) seen names (layers.map (List.filter (·.1 ≠ name))) := by
  induction h with
  | nil => exact .nil
  | repeated hmem _ ih => exact .repeated hmem ih
  | undefined hnone _ ih => exact .undefined (by rw [Sections.lookup_without, hnone]; rfl) ih
  | defined hnot hsome _ _ ihunder ihrest =>
    rw [List.map_append, List.map_cons]
    refine .defined hnot (by rw [Sections.lookup_without, hsome]; rfl) ?_ ihrest
    rw [presets_filter hname]
    exact ihunder

theorem Nests.of_without (hname : presetName ≠ name) {seen : List String} {depth : Nat}
    (h : Nests (sections.without name) seen key depth) : Nests sections seen key depth := by
  induction h with
  | zero => exact .zero
  | succ hnot hsome hpreset _ ih =>
    rw [Sections.lookup_without] at hsome
    obtain ⟨own, hown, rfl⟩ := Option.map_eq_some_iff.mp hsome
    rw [presets_filter hname] at hpreset
    exact .succ hnot hown hpreset ih

theorem lastIn_without_of_ne (h : key ≠ name) : lastIn (layers.map (List.filter (·.1 ≠ name))) key = lastIn layers key := by
  unfold lastIn
  rw [← List.map_reverse, List.findSome?_map]
  congr 1
  funext t
  exact lookup_filter_of_ne h

theorem lastIn_without_self : lastIn (layers.map (List.filter (·.1 ≠ name))) name = none := by
  unfold lastIn
  rw [← List.map_reverse, List.findSome?_map, List.findSome?_eq_none_iff]
  intro t _
  exact lookup_filter_eq_none (by simp)

end

theorem lastGiven_filter {args args' : List String} {name : String} (h : given args' = (given args).filter (·.1 ≠ name))
    (key : String) :
    lastGiven args' key = if key = name then none else lastGiven args key := by
  unfold lastGiven
  rw [h, ← List.filter_reverse]
  generalize (given args).reverse = entries
  induction entries with
  | nil => simp
  | cons e entries ih =>
    by_cases he : e.1 = name
    · rw [List.filter_cons_of_neg (by simpa using he), ih, lookup_cons_eq, he]
      split <;> rfl
    · rw [List.filter_cons_of_pos (by simpa using he), lookup_cons_eq, lookup_cons_eq, ih]
      by_cases hkey : key = e.1
      · rw [if_pos hkey, if_neg (hkey ▸ he), if_pos hkey]
      · rw [if_neg hkey, if_neg hkey]

section

variable {depth : Nat} {sections : Sections} {args args' : List String} {raw raw' : Table} {settings settings' : Settings}
  {o : OptionName}

theorem not_tooDeep_without (hname : presetName ≠ o.name) (hargs : given args' = (given args).filter (·.1 ≠ o.name))
    (h : ¬ TooDeep depth sections args) : ¬ TooDeep depth (sections.without o.name) args' := by
  rintro ⟨name, hmem, hnests⟩
  rw [asked, lastGiven_filter hargs, if_neg hname] at hmem
  exact h ⟨name, hmem, hnests.of_without hname⟩

theorem isMap_without (hmaps : ∀ s ∈ sections, s.2.IsMap) (name : String) : ∀ s ∈ sections.without name, s.2.IsMap := by
  intro s hs
  obtain ⟨t, ht, rfl⟩ := List.mem_map.mp hs
  exact (hmaps t ht).sublist (List.filter_sublist.map _)

theorem Retrieves.not_tooDeep (hmaps : ∀ s ∈ sections, s.2.IsMap) (h : Retrieves depth sections args raw settings) :
    ¬ TooDeep depth sections args := by
  intro hdeep
  obtain ⟨c, hc, hraw, -⟩ := h.texts
  obtain ⟨c', hc', htakes⟩ := CommandLine.read_gives args
  obtain rfl := hc.eq hc'
  cases hraw.eq (resolve_deep hmaps htakes hdeep)

/-- The texts that count come from the command line and the layers of the sections. -/
theorem Retrieves.layered (hmaps : ∀ s ∈ sections, s.2.IsMap) (h : Retrieves depth sections args raw settings) :
    ∃ layers, Expands sections [] (asked args) layers ∧
      (∀ k ∈ raw.map Prod.fst, (OptionName.ofName? k).isSome) ∧
      (∀ o ≠ OptionName.config, raw.lookup o.name = ((lastGiven args o.name).map some).or (lastIn layers o.name)) ∧
      raw.lookup OptionName.config.name = lastIn layers OptionName.config.name := by
  obtain ⟨c, hc, hraw, -⟩ := h.texts
  obtain ⟨c', hc', htakes⟩ := CommandLine.read_gives args
  obtain rfl := hc.eq hc'
  obtain ⟨layers, raw', hlayers, hraw', hrest⟩ := resolve_flat hmaps htakes (h.not_tooDeep hmaps)
  cases hraw.eq hraw'
  exact ⟨layers, hlayers, hrest⟩

theorem Retrieves.program_eq (h : Retrieves depth sections args raw settings) :
    settings.program = (words args).head?.map unquote := by
  obtain ⟨c, hc, -, hprogram⟩ := h.texts
  obtain ⟨c', hc', htakes⟩ := CommandLine.read_gives args
  rw [hprogram, hc.eq hc', htakes.program]
  rfl

theorem Retrieves.get_eq (h : Retrieves depth sections args raw settings) (o : OptionName) :
    settings.get o = o.effective (raw.lookup o.name) := by
  refine Settings.get_eq (fun p => ?_) o
  rw [h.options.eq (convertAll_gives raw), lookup_converted, lookup_named]

theorem exists_retrieves (hmaps : ∀ s ∈ sections, s.2.IsMap) (h : ¬ TooDeep depth sections args) :
    ∃ c raw, Gives (CommandLine.read args) c ∧ Gives (resolve depth sections c).run (some raw) ∧
      Retrieves depth sections args raw ⟨c.program, (named raw).map fun e => (e.1, converted e.1 e.2)⟩ := by
  obtain ⟨c, hc, htakes⟩ := CommandLine.read_gives args
  obtain ⟨_, raw, -, hraw, -⟩ := resolve_flat hmaps htakes h
  exact ⟨c, raw, hc, hraw, ⟨c, hc, hraw, rfl⟩, convertAll_gives raw⟩

/-- Without an option the texts of all others are the same. -/
theorem Retrieves.without (ho : o ≠ .config) (hmaps : ∀ s ∈ sections, s.2.IsMap)
    (h : Retrieves depth sections args raw settings)
    (h' : Retrieves depth (sections.without o.name) args' raw' settings')
    (hargs : given args' = (given args).filter (·.1 ≠ o.name)) :
    raw'.lookup o.name = none ∧ ∀ p ≠ o, raw'.lookup p.name = raw.lookup p.name := by
  have hpreset : presetName ≠ o.name := o.name_ne_preset.symm
  obtain ⟨layers, hlayers, -, htexts, hconfig⟩ := h.layered hmaps
  obtain ⟨layers', hlayers', -, htexts', hconfig'⟩ := h'.layered (isMap_without hmaps o.name)
  rw [asked, lastGiven_filter hargs, if_neg hpreset] at hlayers'
  obtain rfl := hlayers'.unique (hlayers.without hpreset)
  refine ⟨?_, fun p hp => ?_⟩
  · rw [htexts' o ho, lastGiven_filter hargs, if_pos rfl, lastIn_without_self]
    rfl
  · have hname : p.name ≠ o.name := OptionName.name_injective.ne hp
    by_cases hpc : p = .config
    · subst hpc
      rw [hconfig', hconfig, lastIn_without_of_ne hname]
    · rw [htexts' p hpc, htexts p hpc, lastGiven_filter hargs, if_neg hname, lastIn_without_of_ne hname]

end

/-- Unless presets nest too deep, there are settings of the right types, and nonsense counts as given nowhere. -/
theorem Settings.read_wellTyped (depth : Nat) (args : List String) {sections : Sections}
    (hmaps : ∀ s ∈ sections, s.2.IsMap) :
    (TooDeep depth sections args → ∀ c user files, Gives (CommandLine.read args) c →
      Gives (readFiles files (filesToRead files user c) builtInPresets) (.ok sections) →
      Gives (Settings.read depth args user files) (.error .nestedTooDeep)) ∧
    (¬ TooDeep depth sections args → ∃ raw settings, Retrieves depth sections args raw settings ∧
      (∀ c user files, Gives (CommandLine.read args) c →
        Gives (readFiles files (filesToRead files user c) builtInPresets) (.ok sections) →
        Gives (Settings.read depth args user files) (.ok settings)) ∧
      settings.options.map (·.1.name) = raw.map Prod.fst ∧
      settings.programFile = ((words args).head?.map unquote).getD "" ∧ settings.WellTyped ∧
      (∀ o : OptionName, o.IsFlag → ∀ v, raw.lookup o.name = some v →
        settings.get o = .flag (decide (Text.upper (v.getD "") ∉ ["NO", "FALSE", "OFF", "0"]))) ∧
      ∀ (o : OptionName) v, raw.lookup o.name = some v → ¬ o.Admits (v.getD "") → ∀ args',
        given args' = (given args).filter (·.1 ≠ o.name) → words args' = words args →
        (∃ raw' settings', Retrieves depth (sections.without o.name) args' raw' settings') ∧
        ∀ raw' settings', Retrieves depth (sections.without o.name) args' raw' settings' →
          settings'.programFile = settings.programFile ∧ ∀ p, settings'.get p = settings.get p) ∧
    (sections.length < depth → ¬ TooDeep depth sections args) := by
  refine ⟨fun hdeep c user files hc hfiles => ?_, fun hflat => ?_, ?_⟩
  · obtain ⟨c', hc', htakes⟩ := CommandLine.read_gives args
    obtain rfl := hc.eq hc'
    exact read_deep hc hfiles (resolve_deep hmaps htakes hdeep)
  · obtain ⟨c, raw, hc, hraw, hretrieves⟩ := exists_retrieves hmaps hflat
    obtain ⟨-, -, hnames, -⟩ := hretrieves.layered hmaps
    refine ⟨raw, _, hretrieves, fun c' user files hc' hfiles => ?_, ?_, congrArg (·.getD "") hretrieves.program_eq,
      .of_effective hretrieves.get_eq, fun o ho v hv => ?_, fun o v hv hnot args' hargs hwords => ?_⟩
    · obtain rfl := hc.eq hc'
      exact read_flat hc hfiles hraw
    · rw [List.map_map]
      exact map_name_named hnames
    · rw [hretrieves.get_eq, hv, OptionName.effective_flag ho]
      rfl
    · have ho : o ≠ .config := by
        rintro rfl
        exact hnot trivial
      have hflat' := not_tooDeep_without o.name_ne_preset.symm hargs hflat
      obtain ⟨_, raw', -, -, hretrieves'⟩ := exists_retrieves (isMap_without hmaps o.name) hflat'
      refine ⟨⟨raw', _, hretrieves'⟩, fun raw' settings' hretrieves' => ?_⟩
      obtain ⟨hnone, hothers⟩ := hretrieves.without ho hmaps hretrieves' hargs
      refine ⟨?_, fun p => ?_⟩
      · unfold Settings.programFile
        rw [hretrieves'.program_eq, hretrieves.program_eq, hwords]
      rw [hretrieves'.get_eq, hretrieves.get_eq]
      by_cases hp : p = o
      · rw [hp, hnone, hv, OptionName.effective_of_not_admits hnot]
      · rw [hothers p hp]
  · rintro hlength ⟨name, -, hnests⟩
    exact not_nests_of_length_lt hlength [] name hnests

/-- A depth that is no number is ignored, and a switch with a strange text is on. -/
theorem Settings.read_wellTyped_ten : ∃ raw settings raw' settings',
    Retrieves 3 builtInPresets ["p", "--max-stack=ten", "--pedantic=maybe"] raw settings ∧
    raw.lookup "max-stack" = some (some "ten") ∧ Retrieves 3 builtInPresets ["p", "--pedantic=maybe"] raw' settings' ∧
    (∀ o, settings'.get o = settings.get o) ∧ settings.pedantic = true ∧ settings.programFile = "p" := by
  have hmaps : ∀ s ∈ builtInPresets, s.2.IsMap := by decide +kernel
  have hsame : Sections.without builtInPresets "max-stack" = builtInPresets := by decide +kernel
  obtain ⟨-, hflat, hshallow⟩ := Settings.read_wellTyped 3 ["p", "--max-stack=ten", "--pedantic=maybe"] hmaps
  obtain ⟨raw, settings, h, -, -, hprogram, htyped, hflags, hnonsense⟩ := hflat (hshallow (by decide))
  obtain ⟨layers, -, -, htexts, -⟩ := h.layered hmaps
  have hstack : raw.lookup "max-stack" = some (some "ten") := by
    have hgiven : lastGiven ["p", "--max-stack=ten", "--pedantic=maybe"] "max-stack" = some "ten" := by decide +kernel
    have htext := htexts .maxStack (by decide)
    rwa [show OptionName.maxStack.name = "max-stack" from rfl, hgiven] at htext
  have hpedantic : raw.lookup "pedantic" = some (some "maybe") := by
    have hgiven : lastGiven ["p", "--max-stack=ten", "--pedantic=maybe"] "pedantic" = some "maybe" := by decide +kernel
    have htext := htexts .pedantic (by decide)
    rwa [show OptionName.pedantic.name = "pedantic" from rfl, hgiven] at htext
  have hten : ¬ OptionName.Admits .maxStack "ten" := by
    have herror : (Text.readInt "ten").toOption = none := by decide +kernel
    rintro ⟨n, hn⟩
    rw [hn] at herror
    cases herror
  obtain ⟨⟨raw', settings', h'⟩, hget⟩ := hnonsense .maxStack (some "ten") hstack hten ["p", "--pedantic=maybe"]
    (by decide +kernel) (by decide +kernel)
  refine ⟨raw, settings, raw', settings', h, hstack, hsame ▸ h', (hget _ _ h').2, ?_, hprogram.trans (by decide +kernel)⟩
  have hon := hflags .pedantic (by simp [OptionName.IsFlag]) (some "maybe") hpedantic
  rw [htyped.pedantic] at hon
  exact (OptionValue.flag.inj hon).trans (by decide +kernel)

/-- On a ladder as long as presets may nest there are no settings. -/
theorem not_retrieves_ladder :
    ¬ ∃ raw settings, Retrieves nestingLimit (ladder nestingLimit) ["--preset=a"] raw settings := by
  rintro ⟨raw, settings, h⟩
  exact h.not_tooDeep (ladder_isMap nestingLimit) (ladder_tooDeep nestingLimit)

end GraphicsBatch.Config
