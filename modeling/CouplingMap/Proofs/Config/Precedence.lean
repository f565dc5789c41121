import CouplingMap.Proofs.Config.Form
import CouplingMap.Proofs.Text.Parts

/-!
# Where settings come from

The option of the command line, the variables and the file each say something of some settings. What
the first of them says counts, and there are defaults for what none of them says. The settings are
checked each time that a source has been added, so no source makes up for what is wrong with one
that counts less.

* `Config.Valid`, `Config.Complaint`: valid settings, and what is said of others.
* `Config.Source`: what a source says; `Source.settings`: the settings that come of it.
* `Config.FileSays`, `Config.VariablesSay`: what a file says, which has a form of its own, and what
  the variables say.
* `Config.settle_eq`: settling is one check for each source added.
* `Config.settle_exact`: when settling succeeds, with which settings, and why it fails.
-/

namespace CouplingMap.Config

variable {c d : Config} {cs : List Config} {rule : ConfigRule} {text : String} {env : Environment}
  {file : Option (Except String String)} {format : Option String}

/-! ## Checks -/

/-- Settings that break no rule. -/
structure Valid (c : Config) : Prop where
  logLevel : c.logging.level ∈ logLevels
  logFormat : c.logging.format ∈ logFormats
  outputFormat : c.output.format ∈ outputFormats
  lineSearchLimit : 0 < c.analysis.maxLineSearchNodes

/-- What is said of settings that are not valid: the first setting that breaks its rule, with the
message that names it. -/
inductive Complaint (c : Config) : ConfigRule → String → Prop
  | logLevel (h : c.logging.level ∉ logLevels) :
    Complaint c (.logLevel c.logging.level)
      ("Validation error: Invalid log level: " ++ c.logging.level)
  | logFormat (level : c.logging.level ∈ logLevels) (h : c.logging.format ∉ logFormats) :
    Complaint c (.logFormat c.logging.format)
      ("Validation error: Invalid log format: " ++ c.logging.format)
  | outputFormat (level : c.logging.level ∈ logLevels) (format : c.logging.format ∈ logFormats)
    (h : c.output.format ∉ outputFormats) :
    Complaint c (.outputFormat c.output.format)
      ("Validation error: Invalid output format: " ++ c.output.format)
  | lineSearchLimit (level : c.logging.level ∈ logLevels) (format : c.logging.format ∈ logFormats)
    (output : c.output.format ∈ outputFormats) (h : c.analysis.maxLineSearchNodes = 0) :
    Complaint c .lineSearchLimit "Validation error: max_line_search_nodes must be greater than 0"

theorem Valid.broken? (h : c.Valid) : c.broken? = none := by
  rw [Config.broken?, if_neg (not_not.2 h.logLevel), if_neg (not_not.2 h.logFormat),
    if_neg (not_not.2 h.outputFormat), if_neg h.lineSearchLimit.ne']

/-- The rule of a complaint is the one that is reported, with its message. -/
theorem Complaint.broken? (h : c.Complaint rule text) :
    c.broken? = some rule ∧ (ConfigError.invalid rule).message = text := by
  cases h with
  | logLevel h => exact ⟨if_pos h, (String.append_assoc ..).symm⟩
  | logFormat level h =>
    rw [Config.broken?, if_neg (not_not.2 level), if_pos h]
    exact ⟨rfl, (String.append_assoc ..).symm⟩
  | outputFormat level format h =>
    rw [Config.broken?, if_neg (not_not.2 level), if_neg (not_not.2 format), if_pos h]
    exact ⟨rfl, (String.append_assoc ..).symm⟩
  | lineSearchLimit level format output h =>
    rw [Config.broken?, if_neg (not_not.2 level), if_neg (not_not.2 format),
      if_neg (not_not.2 output), if_pos h]
    exact ⟨rfl, rfl⟩

/-- Settings are valid, or there is a complaint. -/
theorem valid_or_complaint (c : Config) : c.Valid ∨ ∃ rule text, c.Complaint rule text := by
  by_cases level : c.logging.level ∈ logLevels
  · by_cases format : c.logging.format ∈ logFormats
    · by_cases output : c.output.format ∈ outputFormats
      · rcases Nat.eq_zero_or_pos c.analysis.maxLineSearchNodes with h | h
        · exact .inr ⟨_, _, .lineSearchLimit level format output h⟩
        · exact .inl ⟨level, format, output, h⟩
      · exact .inr ⟨_, _, .outputFormat level format output⟩
    · exact .inr ⟨_, _, .logFormat level format⟩
  · exact .inr ⟨_, _, .logLevel level⟩

/-- There is no complaint about valid settings. -/
theorem Complaint.not_valid (h : c.Complaint rule text) : ¬ c.Valid := fun hv => by
  have := hv.broken?.symm.trans h.broken?.1
  contradiction

theorem Valid.check (h : c.Valid) : c.check = .ok c := by rw [Config.check, h.broken?]

theorem Complaint.check (h : c.Complaint rule text) : c.check = .error (.invalid rule) := by
  rw [Config.check, h.broken?.1]

/-- The settings after checks one after another: the last ones, if all are valid. -/
theorem foldlM_check_of_valid (h : ∀ c ∈ cs, c.Valid) :
    cs.foldlM (fun _ c => c.check) d = .ok (cs.getLastD d) := by
  induction cs generalizing d with
  | nil => rfl
  | cons c cs ih =>
    rw [List.foldlM_cons, (h c List.mem_cons_self).check, List.getLastD_cons]
    exact ih fun c hc => h c (List.mem_cons_of_mem _ hc)

/-- The checks end at the first settings that are not valid. -/
theorem foldlM_check_of_complaint {before after : List Config} (h : ∀ c ∈ before, c.Valid)
    (hc : c.Complaint rule text) :
    (before ++ c :: after).foldlM (fun _ c => c.check) d = .error (.invalid rule) := by
  have hcheck (d : Config) :
      (c :: after).foldlM (fun _ c => c.check) d = .error (.invalid rule) := by
    rw [List.foldlM_cons, hc.check]
    rfl
  rw [List.foldlM_append, foldlM_check_of_valid h]
  exact hcheck (before.getLastD d)

/-- Either all settings are valid, or there is a complaint about the first ones that are not. -/
theorem all_valid_or_complaint (cs : List Config) : (∀ c ∈ cs, c.Valid) ∨
    ∃ before c after rule text, cs = before ++ c :: after ∧ (∀ b ∈ before, b.Valid) ∧
      c.Complaint rule text := by
  induction cs with
  | nil => exact .inl (by simp)
  | cons c cs ih =>
    obtain hc | ⟨rule, text, hc⟩ := valid_or_complaint c
    · obtain hcs | ⟨before, e, after, rule, text, rfl, hbefore, he⟩ := ih
      · exact .inl (List.forall_mem_cons.2 ⟨hc, hcs⟩)
      · exact .inr ⟨c :: before, e, after, rule, text, rfl,
          List.forall_mem_cons.2 ⟨hc, hbefore⟩, he⟩
    · exact .inr ⟨[], c, cs, rule, text, rfl, by simp, hc⟩

/-! ## Sources -/

/-- What a source says of each setting. -/
@[ext] structure Source where
  logLevel : Option String := none
  logFormat : Option String := none
  outputFormat : Option String := none
  pretty : Option Bool := none
  maxLineSearchNodes : Option Nat := none

namespace Source

/-- What two sources say, if the first one counts more. -/
def or (s t : Source) : Source where
  logLevel := s.logLevel.or t.logLevel
  logFormat := s.logFormat.or t.logFormat
  outputFormat := s.outputFormat.or t.outputFormat
  pretty := s.pretty.or t.pretty
  maxLineSearchNodes := s.maxLineSearchNodes.or t.maxLineSearchNodes

/-- The settings that a source says, with the defaults for what it does not say. -/
def settings (s : Source) : Config where
  logging := ⟨s.logLevel.getD "warn", s.logFormat.getD "console"⟩
  output := ⟨s.outputFormat.getD "table", s.pretty.getD true⟩
  analysis := ⟨s.maxLineSearchNodes.getD 512⟩

/-- What a file says. -/
def ofEntries (e : Entries) : Source where
  logLevel := e.logging.bind LoggingEntries.level
  logFormat := e.logging.bind LoggingEntries.format
  outputFormat := e.output.bind OutputEntries.format
  pretty := e.output.bind OutputEntries.pretty
  maxLineSearchNodes := e.analysis.bind AnalysisEntries.maxLineSearchNodes

/-- What is read in the variables. -/
def ofEnvironment (env : Environment) : Source where
  logLevel := envValue? env "LOG_LEVEL"
  logFormat := envValue? env "LOG_FORMAT"
  outputFormat := envValue? env "OUTPUT_FORMAT"
  pretty := (envValue? env "OUTPUT_PRETTY").bind variableTruth?
  maxLineSearchNodes := (envValue? env "MAX_LINE_SEARCH_NODES").bind variableNumber?

/-- What the option says. -/
def ofOption (format : Option String) : Source := { outputFormat := format }

end Source

variable {f v : Source}

/-- What the file says, which need not be there. -/
inductive FileSays : Option (Except String String) → Source → Prop
  | absent : FileSays none {}
  | present {text : String} {e : Entries} (h : Form text e) :
    FileSays (some (.ok text)) (.ofEntries e)

/-- What the variables say: texts as they are, truth values and numbers where they can be read. -/
structure VariablesSay (env : Environment) (v : Source) : Prop where
  logLevel : v.logLevel = env "ARVAK_ARCH_LOG_LEVEL"
  logFormat : v.logFormat = env "ARVAK_ARCH_LOG_FORMAT"
  outputFormat : v.outputFormat = env "ARVAK_ARCH_OUTPUT_FORMAT"
  pretty : ∀ b, v.pretty = some b ↔
    env "ARVAK_ARCH_OUTPUT_PRETTY" = some (if b then "true" else "false")
  maxLineSearchNodes : ∀ k, v.maxLineSearchNodes = some k ↔
    ∃ s, env "ARVAK_ARCH_MAX_LINE_SEARCH_NODES" = some s ∧ Text.Denotes s.toList k ∧ k < UInt64.size

/-- The settings at each check, in order: those of the file, those that the variables change, and
those with the option. -/
def stages (f v o : Source) : List Config :=
  [f.settings, (v.or f).settings, (o.or (v.or f)).settings]

/-- A truth value is written in one way. -/
theorem variableTruth?_eq_some_iff {s : String} {b : Bool} :
    variableTruth? s = some b ↔ s = if b then "true" else "false" := by
  unfold variableTruth?
  split
  · rename_i h
    subst h
    cases b <;> simp
  · rename_i h
    split
    · rename_i h
      subst h
      cases b <;> simp
    · rename_i h'
      cases b
      · simp [h']
      · simp [h]

/-- What is read in the variables is what they say. -/
theorem variablesSay_iff : VariablesSay env v ↔ v = .ofEnvironment env := by
  have hpretty (b : Bool) : (Source.ofEnvironment env).pretty = some b ↔
      env "ARVAK_ARCH_OUTPUT_PRETTY" = some (if b then "true" else "false") := by
    simp only [Source.ofEnvironment, Option.bind_eq_some_iff, variableTruth?_eq_some_iff,
      exists_eq_right]
    rfl
  have hlimit (k : Nat) : (Source.ofEnvironment env).maxLineSearchNodes = some k ↔
      ∃ s, env "ARVAK_ARCH_MAX_LINE_SEARCH_NODES" = some s ∧
        Text.Denotes s.toList k ∧ k < UInt64.size := by
    simp only [Source.ofEnvironment, Option.bind_eq_some_iff, variableNumber?,
      Text.bounded?_eq_some_iff]
    rfl
  constructor
  · intro h
    have hpretty' : v.pretty = (Source.ofEnvironment env).pretty :=
      Option.ext fun b => (h.pretty b).trans (hpretty b).symm
    have hlimit' : v.maxLineSearchNodes = (Source.ofEnvironment env).maxLineSearchNodes :=
      Option.ext fun k => (h.maxLineSearchNodes k).trans (hlimit k).symm
    exact Source.ext h.logLevel h.logFormat h.outputFormat hpretty' hlimit'
  · rintro rfl
    exact ⟨rfl, rfl, rfl, hpretty, hlimit⟩

/-- What the variables say counts more than other settings. -/
theorem VariablesSay.override (h : VariablesSay env v) :
    f.settings.override env = (v.or f).settings := by
  rw [variablesSay_iff.1 h]
  simp only [Source.settings, Source.or, Option.getD_or]
  rfl

/-! ## Settling -/

/-- The settings of a file that says something are checked. -/
theorem Form.ofText {e : Entries} (h : Form text e) :
    ofText text = (Source.ofEntries e).settings.check := by
  rw [Config.ofText, decode_entries_eq_ok_iff.2 h]
  rfl

theorem load_text (text : String) (env : Environment) :
    load (some (.ok text)) env = ofText text >>= fun c => (c.override env).check := rfl

/-- What comes after a check goes on with the same settings. -/
theorem check_bind (c : Config) (k : Config → Except ConfigError Config) :
    c.check >>= k = c.check >>= fun _ => k c := by
  obtain h | ⟨rule, text, h⟩ := valid_or_complaint c
  · rw [h.check]
    rfl
  · rw [h.check]
    rfl

/-- The settings of the file are checked, and then those that the variables change. -/
theorem load_eq (hf : FileSays file f) (hv : VariablesSay env v) :
    load file env = f.settings.check >>= fun _ => (v.or f).settings.check := by
  have hfile : load file env = f.settings.check >>= fun c => (c.override env).check := by
    cases hf with
    | absent => rfl
    | present h => rw [load_text, h.ofText]
  rw [hfile, check_bind, hv.override]

/-- The option changes the format of results. Without it there is nothing more to check. -/
theorem check_option (s : Source) (format : Option String) :
    (s.settings.check >>= fun c => match format with
      | none => .ok c
      | some o => check { c with output := { c.output with format := o } }) =
    s.settings.check >>= fun _ => ((Source.ofOption format).or s).settings.check := by
  rw [check_bind]
  cases format with
  | none =>
    obtain h | ⟨rule, text, h⟩ := valid_or_complaint s.settings
    · rw [h.check]
      exact h.check.symm
    · rw [h.check]
      rfl
  | some o => rfl

/-- Settling is one check for each source that is added. -/
theorem settle_eq (hf : FileSays file f) (hv : VariablesSay env v) (format : Option String) :
    settle file env format =
      (stages f v (.ofOption format)).foldlM (fun _ c => c.check) default := by
  simp only [stages, List.foldlM_cons, List.foldlM_nil, bind_pure]
  rw [settle, load_eq hf hv, bind_assoc]
  exact bind_congr fun _ => check_option (v.or f) format

/-- Settling succeeds just if the settings of all stages are valid, with those of the last one. -/
theorem settle_eq_ok_iff (hf : FileSays file f) (hv : VariablesSay env v) :
    settle file env format = .ok c ↔ (∀ s ∈ stages f v (.ofOption format), s.Valid) ∧
      c = ((Source.ofOption format).or (v.or f)).settings := by
  rw [settle_eq hf hv]
  obtain h | ⟨before, d, after, rule, text, hcs, hbefore, hd⟩ :=
    all_valid_or_complaint (stages f v (.ofOption format))
  · rw [foldlM_check_of_valid h, Except.ok.injEq, and_iff_right h]
    exact eq_comm
  · rw [hcs, foldlM_check_of_complaint hbefore hd]
    exact ⟨nofun, fun h => absurd (h.1 d (by simp)) hd.not_valid⟩

/-- Settling fails at the first stage whose settings are not valid. -/
theorem settle_eq_error_iff (hf : FileSays file f) (hv : VariablesSay env v) :
    settle file env format = .error (.invalid rule) ∧ (ConfigError.invalid rule).message = text ↔
      ∃ before c after, stages f v (.ofOption format) = before ++ c :: after ∧
        (∀ b ∈ before, b.Valid) ∧ c.Complaint rule text := by
  constructor
  · rintro ⟨h, rfl⟩
    rw [settle_eq hf hv] at h
    obtain hall | ⟨before, d, after, rule', text', hcs, hbefore, hd⟩ :=
      all_valid_or_complaint (stages f v (.ofOption format))
    · rw [foldlM_check_of_valid hall] at h
      contradiction
    · rw [hcs, foldlM_check_of_complaint hbefore hd, Except.error.injEq,
        ConfigError.invalid.injEq] at h
      obtain rfl := h
      exact ⟨before, d, after, hcs, hbefore, hd.broken?.2.symm ▸ hd⟩
  · rintro ⟨before, d, after, hcs, hbefore, hd⟩
    rw [settle_eq hf hv, hcs]
    exact ⟨foldlM_check_of_complaint hbefore hd, hd.broken?.2⟩

/-- The settings with an option are valid if those without it are, and the option is a format of
results. -/
theorem valid_option {s : Source} (h : s.settings.Valid) :
    ((Source.ofOption format).or s).settings.Valid ↔ ∀ o ∈ format, o = "table" ∨ o = "json" := by
  have hmem (o : String) : o ∈ outputFormats ↔ o = "table" ∨ o = "json" := by simp [outputFormats]
  constructor
  · rintro hvalid o rfl
    exact (hmem o).1 hvalid.outputFormat
  · intro ho
    refine ⟨h.logLevel, h.logFormat, ?_, h.lineSearchLimit⟩
    cases format with
    | none => exact h.outputFormat
    | some o => exact (hmem o).2 (ho o rfl)

/-! ## Files -/

/-- How settling ends for each kind of file: one that cannot be read, one without settings in it,
and one that says something or is not there. -/
inductive Ending (file : Option (Except String String)) : Except ConfigError Config → Prop
  | unreadable {problem : String} (h : file = some (.error problem)) :
    Ending file (.error (.unreadable problem))
  | malformed {text : String} (h : file = some (.ok text)) (hform : ∀ e, ¬ Form text e)
    (problem : Yaml.Problem) : Ending file (.error (.malformed problem))
  | invalid {f : Source} (h : FileSays file f) (rule : ConfigRule) :
    Ending file (.error (.invalid rule))
  | settled {f : Source} (h : FileSays file f) (c : Config) : Ending file (.ok c)

theorem FileSays.ending (hf : FileSays file f) (env : Environment) (format : Option String) :
    Ending file (settle file env format) := by
  have hv : VariablesSay env _ := variablesSay_iff.2 rfl
  rw [settle_eq hf hv]
  obtain h | ⟨before, d, after, rule, text, hcs, hbefore, hd⟩ :=
    all_valid_or_complaint (stages f _ (.ofOption format))
  · rw [foldlM_check_of_valid h]
    exact .settled hf _
  · rw [hcs, foldlM_check_of_complaint hbefore hd]
    exact .invalid hf rule

/-- A file that says nothing is refused, whatever the other sources say. -/
theorem exists_settle_malformed (h : ∀ e, ¬ Form text e) (env : Environment)
    (format : Option String) :
    ∃ problem, settle (some (.ok text)) env format = .error (.malformed problem) := by
  cases hd : (Yaml.Document.ofText text).decode entries with
  | ok e => exact absurd (decode_entries_eq_ok_iff.1 hd) (h e)
  | error problem =>
    have hfile : ofText text = .error (.malformed problem) := by rw [ofText, hd]
    rw [settle, load_text, hfile]
    exact ⟨problem, rfl⟩

theorem ending_settle (file : Option (Except String String)) (env : Environment)
    (format : Option String) : Ending file (settle file env format) := by
  match file with
  | none => exact FileSays.absent.ending env format
  | some (.error problem) => exact .unreadable rfl
  | some (.ok text) =>
    by_cases h : ∃ e, Form text e
    · obtain ⟨e, h⟩ := h
      exact (FileSays.present h).ending env format
    · obtain ⟨problem, hproblem⟩ := exists_settle_malformed (not_exists.1 h) env format
      exact hproblem ▸ .malformed rfl (not_exists.1 h) problem

/-- Settling succeeds just if the file, when there is one, can be read, its settings are valid, and
so are those that the variables change, and the option, when it is given, is a format of results.
Then the settings are valid, and each is what the option says, else what the variables say, else
what the file says, else the default. The first settings that are not valid are complained about,
and a file that cannot be read or has no form of settings is refused whatever the other sources
say. -/
theorem settle_exact (file : Option (Except String String)) (env : Environment)
    (format : Option String) :
    (∀ c, settle file env format = .ok c ↔ ∃ f v, FileSays file f ∧ VariablesSay env v ∧
      f.settings.Valid ∧ (v.or f).settings.Valid ∧ (∀ o ∈ format, o = "table" ∨ o = "json") ∧
      c = ((Source.ofOption format).or (v.or f)).settings) ∧
    (∀ c, settle file env format = .ok c → c.Valid) ∧
    (∀ rule text, settle file env format = .error (.invalid rule) ∧
        (ConfigError.invalid rule).message = text ↔
      ∃ f v before c after, FileSays file f ∧ VariablesSay env v ∧
        stages f v (.ofOption format) = before ++ c :: after ∧ (∀ b ∈ before, b.Valid) ∧
        c.Complaint rule text) ∧
    (∀ problem, settle file env format = .error (.unreadable problem) ↔
      file = some (.error problem)) ∧
    ((∃ problem, settle file env format = .error (.malformed problem)) ↔
      ∃ text, file = some (.ok text) ∧ ∀ e, ¬ Form text e) := by
  have hending := ending_settle file env format
  have hv : VariablesSay env _ := variablesSay_iff.2 rfl
  refine ⟨fun c => ⟨fun h => ?_, ?_⟩, fun c h => ?_, fun rule text => ⟨fun h => ?_, ?_⟩,
    fun problem => ⟨fun h => ?_, ?_⟩, ?_, ?_⟩
  · rw [h] at hending
    cases hending with
    | settled hf =>
      obtain ⟨hvalid, rfl⟩ := (settle_eq_ok_iff hf hv).1 h
      obtain ⟨h1, h2, h3⟩ : _ ∧ _ ∧ _ := by simpa [stages] using hvalid
      exact ⟨_, _, hf, hv, h1, h2, (valid_option h2).1 h3, rfl⟩
  · rintro ⟨f, v, hf, hv, h1, h2, ho, rfl⟩
    refine (settle_eq_ok_iff hf hv).2 ⟨?_, rfl⟩
    simp [stages, h1, h2, (valid_option h2).2 ho]
  · rw [h] at hending
    cases hending with
    | settled hf =>
      obtain ⟨hvalid, rfl⟩ := (settle_eq_ok_iff hf hv).1 h
      exact hvalid _ (by simp [stages])
  · rw [h.1] at hending
    cases hending with
    | invalid hf =>
      obtain ⟨before, c, after, hrest⟩ := (settle_eq_error_iff hf hv).1 h
      exact ⟨_, _, before, c, after, hf, hv, hrest⟩
  · rintro ⟨f, v, before, c, after, hf, hv, hrest⟩
    exact (settle_eq_error_iff hf hv).2 ⟨before, c, after, hrest⟩
  · rw [h] at hending
    cases hending with
    | unreadable h => exact h
  · rintro rfl
    rfl
  · rintro ⟨problem, h⟩
    rw [h] at hending
    cases hending with
    | malformed h hform => exact ⟨_, h, hform⟩
  · rintro ⟨text, rfl, hform⟩
    exact exists_settle_malformed hform env format

/-- A variable does not make up for what a file says. -/
example : settle (some (.ok "output:\n  format: xml\n")) (fun _ => some "json") none =
    .error (.invalid (.outputFormat "xml")) := by cbv

end CouplingMap.Config
