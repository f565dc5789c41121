import CouplingMap.Command.Run
import CouplingMap.Proofs.Command.FileSystem

/-!
# What a run leaves behind

A run whose arguments are accepted is done completely or not at all: it fails without output and
without a change of the system, or it succeeds and writes at most the file that the request names.
Only when the writing of this file has begun and stops too early, a part of it is left.

* `Request.output?`, `Request.Makes`: the path that a request names, and the device for it.
* `Ending.Failed`, `Ending.Interrupted`, `Ending.Saved`: a run has left no trace, a part of a text,
  or a text where a path leads to.
* `execute_printing`, `execute_saving`: what the plan of a request saves.
* `settle_default`, `settle_json`: the settings without variables.
* `perform_cases`: what a run leaves in its system, whatever stops its writing.
* `run_all_or_nothing`: what it leaves when nothing stops its writing.
-/

namespace CouplingMap

/-- The path to which a request writes. -/
def Request.output? : Request → Option String
  | .generate _ output => output
  | .prune _ _ output => output
  | .info _ | .distance .. | .lines .. | .cuts .. | .matrix _ => none

/-- The device that a request makes: the device of a topology, or what pruning leaves of one. -/
inductive Request.Makes (files : Files) : Request → Device → Prop
  | generate {topology : String} {output : Option String} {t : Topology} {d : Device} :
    Topology.parse topology = .ok t → t.build = .ok d → Makes files (.generate topology output) d
  | prune {input : String} {num : Nat} {output : Option String} {text : String} {d : Device} :
    files input = .ok text → Device.ofText text = .ok d →
      Makes files (.prune input num output) (d.prune num).2

namespace Command

open Config (Environment)

variable {args : List String} {s : FileSystem} {slot : s.Slot} {files : Files} {env : Environment}
  {i : Invocation} {c : Config} {r : Request} {p : Plan} {d : Device} {path text : String}

/-! ## Systems after a run -/

/-- A run has failed without a trace but a message. -/
structure Ending.Failed (e : Ending) (s : FileSystem) : Prop where
  code : e.code = 1
  stdout : e.stdout = ""
  system : e.system = s

/-- A run has failed while it wrote a text to a file. The file has the first bytes of the text. -/
structure Ending.Interrupted (s : FileSystem) (path text : String) (e : Ending) : Prop where
  code : e.code = 1
  stdout : e.stdout = ""
  system : ∃ slot count problem, s.target path = .ok (.file slot) ∧
    s.faults.stopping slot.place text.toUTF8 = some (count, problem) ∧
    e.system = FileSystem.put slot (text.toUTF8.extract 0 count)

/-- A text has gone where a path leads to, nothing else has changed, and a report was printed. -/
inductive Ending.Saved (s : FileSystem) (path text report : String) (e : Ending) : Prop
  /-- The file has the bytes of the text, and the text is read from there. -/
  | file {slot : s.Slot} (leads : s.target path = .ok (.file slot))
    (system : e.system = FileSystem.put slot text.toUTF8)
    (holds : e.system.entry slot.place = some (.file text.toUTF8))
    (others : ∀ place, place ≠ slot.place → e.system.entry place = s.entry place)
    (reads : s.faults.reading slot.place = none → e.system.read path = .ok text)
    (printed : e.stdout = report)
  /-- A special file has taken the text, which stands before the report on the same stream. -/
  | sink {k : Sink} (leads : s.target path = .ok (.sink k)) (unchanged : e.system = s)
    (printed : e.stdout = if k = .output then text ++ report else report)
    (told : k = .errors → ∃ notices, e.stderr = textLines (text ++ notices))

/-! ## Plans -/

theorem loadDevice_eq_ok : loadDevice files path = .ok d ↔
    ∃ text, files path = .ok text ∧ Device.ofText text = .ok d := by
  unfold loadDevice
  cases files path with
  | error problem => simp
  | ok text => simp [mapError_eq_ok]

/-- A plan without a file to write only prints. -/
theorem carryOut_printing (s : FileSystem) (h : p.save = none) :
    (carryOut s p).code = 0 ∧ (carryOut s p).stdout = p.stdout ∧ (carryOut s p).system = s := by
  simp [carryOut, h, success]

/-- A text that a file takes gets there, and the report is printed. -/
theorem carryOut_file (h : p.save = some (path, text)) (ht : s.Takes path slot) :
    (carryOut s p).code = 0 ∧ (carryOut s p).stdout = p.stdout ∧
      (carryOut s p).system = FileSystem.put slot text.toUTF8 := by
  simp [carryOut, h, ht.leads, ht.save, success]

theorem saved_put {e : Ending} (leads : s.target path = .ok (.file slot))
    (hsystem : e.system = FileSystem.put slot text.toUTF8) : e.Saved s path text e.stdout :=
  .file leads hsystem (by simp [hsystem])
    (fun place hplace => by rw [hsystem, FileSystem.entry_put_of_ne hplace])
    (fun hreads => by rw [hsystem, FileSystem.read_put leads hreads]) rfl

/-- Writing fails without a trace, it is interrupted, or the text gets to its place. -/
theorem carryOut_saving (s : FileSystem) (h : p.save = some (path, text)) :
    (carryOut s p).Failed s ∨ (carryOut s p).Interrupted s path text ∨
      (carryOut s p).code = 0 ∧ (carryOut s p).Saved s path text p.stdout := by
  cases ht : s.target path with
  | error problem =>
    left
    constructor <;> simp [carryOut, h, ht, failure]
  | ok target =>
    cases target with
    | file slot =>
      cases hopen : s.faults.opening slot.place with
      | some problem =>
        left
        constructor <;> simp [carryOut, h, ht, FileSystem.save_of_opening hopen, failure]
      | none =>
        right
        cases hstop : s.faults.stopping slot.place text.toUTF8 with
        | some stop =>
          obtain ⟨count, problem⟩ := stop
          left
          have hrun : carryOut s p = failure (writeProblem path problem.reason)
              (FileSystem.put slot (text.toUTF8.extract 0 count)) := by
            simp only [carryOut, h, ht, FileSystem.save_of_stopping hopen hstop]
          rw [hrun]
          exact ⟨rfl, rfl, slot, count, problem, ht, hstop, rfl⟩
        | none =>
          right
          have hrun : (carryOut s p).code = 0 ∧ (carryOut s p).stdout = p.stdout ∧
              (carryOut s p).system = FileSystem.put slot text.toUTF8 := by
            simp only [carryOut, h, ht, FileSystem.save_of_none hopen hstop, success, and_self]
          exact ⟨hrun.1, hrun.2.1 ▸ saved_put ht hrun.2.2⟩
    | sink k =>
      right
      right
      cases k with
      | discard =>
        have hrun : (carryOut s p).code = 0 ∧ (carryOut s p).stdout = p.stdout ∧
            (carryOut s p).system = s := by simp [carryOut, h, ht, success]
        exact ⟨hrun.1, .sink ht hrun.2.2 (by simp [hrun.2.1]) nofun⟩
      | output =>
        have hrun : (carryOut s p).code = 0 ∧ (carryOut s p).stdout = text ++ p.stdout ∧
            (carryOut s p).system = s := by simp [carryOut, h, ht, success]
        exact ⟨hrun.1, .sink ht hrun.2.2 (by simp [hrun.2.1]) nofun⟩
      | errors =>
        have hrun : carryOut s p = success p.stdout
            (text ++ String.join (p.notices.map (· ++ "\n"))) s := by simp [carryOut, h, ht]
        rw [hrun]
        exact ⟨rfl, .sink ht rfl (by simp [success]) fun _ => ⟨_, rfl⟩⟩

/-- The plan of `generate` saves the device of the topology. -/
theorem generate_save (files : Files) {topology : String} {output : Option String} {w : Output}
    (h : generate w topology output = .ok p) : ∃ d,
      (Request.generate topology output).Makes files d ∧
        p.save = output.map fun path => (path, d.toText w.pretty) := by
  obtain ⟨t, ht, h⟩ := bind_eq_ok.1 h
  obtain ⟨d, hd, h⟩ := bind_eq_ok.1 h
  refine ⟨d, .generate (mapError_eq_ok.1 ht) (mapError_eq_ok.1 hd), ?_⟩
  cases output <;> cases h <;> rfl

/-- The plan of `prune` saves what pruning leaves. -/
theorem prune_save {input : String} {num : Nat} {output : Option String} {w : Output}
    (h : prune files w input num output = .ok p) : ∃ d,
      (Request.prune input num output).Makes files d ∧
        p.save = output.map fun path => (path, d.toText w.pretty) := by
  obtain ⟨d, hd, h⟩ := bind_eq_ok.1 h
  obtain ⟨text, htext, hd⟩ := loadDevice_eq_ok.1 hd
  cases h
  exact ⟨_, .prune htext hd, rfl⟩

/-- The plan of a request without an output only prints. -/
theorem execute_printing (h : execute files c r = .ok p) (hr : r.output? = none) :
    p.save = none := by
  cases r with
  | generate topology output =>
    obtain ⟨d, -, hsave⟩ := generate_save files h
    rw [hsave, show output = none from hr, Option.map_none]
  | info input =>
    obtain ⟨d, -, ⟨⟩⟩ := bind_eq_ok.1 h
    rfl
  | distance input source target =>
    obtain ⟨d, -, h⟩ := bind_eq_ok.1 h
    obtain ⟨a, -, h⟩ := bind_eq_ok.1 h
    obtain ⟨b, -, h⟩ := bind_eq_ok.1 h
    obtain ⟨hops, -, h⟩ := bind_eq_ok.1 h
    obtain ⟨nodes, -, ⟨⟩⟩ := bind_eq_ok.1 h
    rfl
  | lines input lengths =>
    obtain ⟨d, -, h⟩ := bind_eq_ok.1 h
    split at h
    · contradiction
    · obtain ⟨found, -, ⟨⟩⟩ := bind_eq_ok.1 h
      rfl
  | cuts input part =>
    cases part with
    | none =>
      obtain ⟨d, -, ⟨⟩⟩ := bind_eq_ok.1 h
      rfl
    | some part =>
      obtain ⟨d, -, h⟩ := bind_eq_ok.1 h
      obtain ⟨e, -, h⟩ := bind_eq_ok.1 h
      obtain ⟨ns, -, ⟨⟩⟩ := bind_eq_ok.1 h
      rfl
  | prune input num output =>
    obtain ⟨d, -, hsave⟩ := prune_save h
    rw [hsave, show output = none from hr, Option.map_none]
  | matrix input =>
    obtain ⟨d, -, ⟨⟩⟩ := bind_eq_ok.1 h
    rfl

/-- The plan of a request with an output saves the device that the request makes. -/
theorem execute_saving (h : execute files c r = .ok p) (hr : r.output? = some path) :
    ∃ d, r.Makes files d ∧ p.save = some (path, d.toText c.output.pretty) := by
  cases r with
  | generate topology output =>
    obtain ⟨d, hd, hsave⟩ := generate_save files h
    exact ⟨d, hd, by rw [hsave, show output = some path from hr, Option.map_some]⟩
  | prune input num output =>
    obtain ⟨d, hd, hsave⟩ := prune_save h
    exact ⟨d, hd, by rw [hsave, show output = some path from hr, Option.map_some]⟩
  | _ => contradiction

/-! ## Settings -/

section Default

variable (henv : ∀ name, Config.envValue? env name = none) (content : String → Except String String)

include henv

/-- Without variables of this program the settings are the default ones. -/
theorem load_default :
    Config.load ((env Config.fileVariable).map content) env = .ok Config.default := by
  have hfile : env Config.fileVariable = none := henv "CONFIG"
  have hoverride : Config.default.override env = Config.default := by
    simp [Config.override, henv]
  rw [hfile]
  show (Config.default.override env).check = _
  rw [hoverride]
  rfl

theorem settle_default :
    Config.settle ((env Config.fileVariable).map content) env none = .ok Config.default := by
  rw [Config.settle, load_default henv]
  rfl

/-- The default settings, but for reports that are written as JSON. -/
theorem settle_json :
    Config.settle ((env Config.fileVariable).map content) env (some "json") =
      .ok { Config.default with output := ⟨"json", true⟩ } := by
  rw [Config.settle, load_default henv]
  rfl

end Default

/-! ## Runs -/

theorem perform_of_plan (hi : Invocation.ofArguments? env args = some i)
    (hp : plan s.read env i = .ok p) : perform args env s = carryOut s p := by
  simp [perform, hi, hp]

/-- A run carries out the plan of its request under the settings that are made for it. -/
theorem perform_of_execute (hi : Invocation.ofArguments? env args = some i)
    (hc : Config.settle (i.configFile.map (configText s.read)) env i.format = .ok c)
    (hp : execute s.read c i.request = .ok p) : perform args env s = carryOut s p :=
  perform_of_plan hi (bind_eq_ok.2 ⟨c, mapError_eq_ok.2 hc, hp⟩)

/-- A run has done what its request asks for under some settings: it has only printed, or it has
written the text of the device that the request makes, in the layout of the settings, to the path
that the request names. -/
def Done (s : FileSystem) (env : Environment) (i : Invocation) (e : Ending) : Prop :=
  e.code = 0 ∧ ∃ c p, Config.settle (i.configFile.map (configText s.read)) env i.format = .ok c ∧
    execute s.read c i.request = .ok p ∧
    ((i.request.output? = none ∧ e.system = s ∧ e.stdout = p.stdout) ∨
      ∃ path d, i.request.output? = some path ∧ i.request.Makes s.read d ∧
        e.Saved s path (d.toText c.output.pretty) p.stdout)

/-- A run whose arguments are accepted fails without a trace, is interrupted while it writes the
file that its request names, or does all that is asked for. -/
theorem perform_cases (hi : Invocation.ofArguments? env args = some i) :
    (perform args env s).Failed s ∨
      (∃ path text, i.request.output? = some path ∧
        (perform args env s).Interrupted s path text) ∨
      Done s env i (perform args env s) := by
  cases hp : plan s.read env i with
  | error message =>
    left
    have hrun : perform args env s = failure message s := by simp [perform, hi, hp]
    rw [hrun]
    exact ⟨rfl, rfl, rfl⟩
  | ok p =>
    rw [perform_of_plan hi hp]
    obtain ⟨c, hc, hexecute⟩ := bind_eq_ok.1 hp
    have hc := mapError_eq_ok.1 hc
    cases hr : i.request.output? with
    | none =>
      obtain ⟨hcode, hstdout, hsystem⟩ := carryOut_printing s (execute_printing hexecute hr)
      exact .inr (.inr ⟨hcode, c, p, hc, hexecute, .inl ⟨hr, hsystem, hstdout⟩⟩)
    | some path =>
      obtain ⟨d, hd, hsave⟩ := execute_saving hexecute hr
      rcases carryOut_saving s hsave with hfailed | hstopped | ⟨hcode, hsaved⟩
      · exact .inl hfailed
      · exact .inr (.inl ⟨path, _, rfl, hstopped⟩)
      · exact .inr (.inr ⟨hcode, c, p, hc, hexecute, .inr ⟨path, d, hr, hd, hsaved⟩⟩)

/-- In a folder of texts, a run writes nothing or the text of the device that its request makes. -/
theorem run_written {files : List (String × String)} (hfiles : (files.map Prod.fst).Nodup)
    (hi : Invocation.ofArguments? env args = some i) :
    (run args files env).written = [] ∨ ∃ d name lines,
      i.request.Makes (FileSystem.ofFiles files).read d ∧
        (run args files env).written = [(name, d.toText lines)] := by
  have hnodup := FileSystem.nodup_places_ofFiles hfiles
  have hwrites : (FileSystem.ofFiles files).FinishesWrites := fun _ _ => rfl
  have hunchanged : (perform args env (.ofFiles files)).system = .ofFiles files →
      (run args files env).written = [] := fun h => by
    rw [run, h]
    exact FileSystem.changes_eq_nil hnodup
  rcases perform_cases hi with hfailed | ⟨path, text, -, hstopped⟩ | ⟨-, c, p, -, -, hdone⟩
  · exact .inl (hunchanged hfailed.system)
  · obtain ⟨slot, count, problem, -, hstop, -⟩ := hstopped.system
    rw [hwrites] at hstop
    contradiction
  obtain ⟨-, hsystem, -⟩ | ⟨path, d, -, hmakes, hsaved⟩ := hdone
  · exact .inl (hunchanged hsystem)
  cases hsaved with
  | sink _ hsystem => exact .inl (hunchanged hsystem)
  | @file slot _ hsystem =>
    have hwritten : (run args files env).written =
        (FileSystem.ofFiles files).changes (perform args env (.ofFiles files)).system := rfl
    rw [hwritten, hsystem, FileSystem.changes_put hnodup]
    split
    · exact .inr ⟨d, slot.name, c.output.pretty, hmakes, rfl⟩
    · exact .inl rfl

/-- If nothing stops the writing of a file that was opened, a run whose arguments are accepted fails
without output and without a change of the system, or it succeeds. Then the only text that is
written goes to the path that the request names, and it is the text of the device that the request
makes, in the layout that is configured. -/
theorem run_all_or_nothing (hi : Invocation.ofArguments? env args = some i)
    (hwrites : s.FinishesWrites) :
    (perform args env s).Failed s ∨ Done s env i (perform args env s) := by
  rcases perform_cases hi with hfailed | ⟨path, text, -, hstopped⟩ | hdone
  · exact .inl hfailed
  · obtain ⟨slot, count, problem, -, hstop, -⟩ := hstopped.system
    rw [hwrites] at hstop
    contradiction
  · exact .inr hdone

/-- A run that does not fail saves the device of a ring and nothing else. -/
theorem run_all_or_nothing_ring :
    Invocation.ofArguments? (fun _ => none) ["generate", "ring:3", "-o", "ring.json"] =
      some ⟨0, none, none, .generate "ring:3" (some "ring.json")⟩ ∧
    (FileSystem.ofFiles []).FinishesWrites ∧
    ∃ d e, (Topology.ring 3).build = .ok d ∧
      perform ["generate", "ring:3", "-o", "ring.json"] (fun _ => none) (.ofFiles []) = e ∧
      e.code = 0 ∧ e.stdout = "" ∧
      e.Saved (.ofFiles []) "ring.json" (d.toText true) "" := by
  have hi : Invocation.ofArguments? (fun _ => none) ["generate", "ring:3", "-o", "ring.json"] =
      some ⟨0, none, none, .generate "ring:3" (some "ring.json")⟩ := by decide +kernel
  have hwrites : (FileSystem.ofFiles []).FinishesWrites := fun _ _ => rfl
  have hend : (perform ["generate", "ring:3", "-o", "ring.json"] (fun _ => none)
      (.ofFiles [])).code = 0 := by decide +kernel
  have henv (name : String) : Config.envValue? (fun _ => none) name = none := rfl
  have hdefault := settle_default henv (configText (FileSystem.ofFiles []).read)
  refine ⟨hi, hwrites, ?_⟩
  rcases run_all_or_nothing hi hwrites with hfailed | ⟨-, c, p, hc, hp, hnone | hsome⟩
  · exact absurd (hfailed.code.symm.trans hend) (by decide)
  · exact absurd hnone.1 (by simp [Request.output?])
  · obtain ⟨path, d, hpath, hmakes, hsaved⟩ := hsome
    obtain rfl : Config.default = c := Except.ok.inj (hdefault.symm.trans hc)
    obtain rfl : "ring.json" = path := Option.some.inj hpath
    cases hmakes with
    | generate ht hd =>
      have hparse : Topology.parse "ring:3" = .ok (.ring 3) := by rfl
      obtain rfl := Except.ok.inj (hparse.symm.trans ht)
      obtain ⟨t, -, hp⟩ := bind_eq_ok.1 hp
      obtain ⟨d', -, hp⟩ := bind_eq_ok.1 hp
      cases hp
      exact ⟨d, _, hd, rfl, hend, by decide +kernel, hsaved⟩

end Command

end CouplingMap
