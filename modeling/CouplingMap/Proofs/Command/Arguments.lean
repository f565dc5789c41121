import CouplingMap.Command.Invocation
import CouplingMap.Proofs.Topology.Text

/-!
# Arguments that ask for a command

* `Flags`: a letter or a long name that asks for the value of an option.
* `readAll_operand`, `readAll_flag`: how the arguments after the name of a command are read.
* `ofArguments?_generate`, `ofArguments?_info`, `ofArguments?_prune`: the invocations that are used
  to make, to summarise and to prune a device.
-/

namespace CouplingMap.Invocation

open Config (Environment)

variable {allowed : List Setting} {g g' : Given} {o : Setting} {flag value s : String}
  {rest : List String} {env : Environment} {n : Nat}

/-! ## One argument after the other -/

/-- An argument that asks for the value of an option. -/
structure Flags (allowed : List Setting) (flag : String) (o : Setting) : Prop where
  ne_end : flag ≠ "--"
  reads : ∀ g, readOptions allowed g flag = some (some (.awaits g o))

/-- An argument that does not start with a hyphen is an operand. -/
theorem readAll_operand (h : s.toList.head? ≠ some '-') :
    readAll allowed g (s :: rest) =
      readAll allowed { g with operands := s :: g.operands } rest := by
  have hs : s ≠ "--" := by
    rintro rfl
    exact h rfl
  have ho : readOptions allowed g s = none := by
    unfold readOptions
    split <;> simp_all
  rw [readAll, if_neg hs, ho]

/-- An option takes the argument after it. -/
theorem readAll_flag (hf : Flags allowed flag o) (hv : isValue value = true)
    (hg : g.record o value = some g') :
    readAll allowed g (flag :: value :: rest) = readAll allowed g' rest := by
  rw [readAll, if_neg hf.ne_end, hf.reads g]
  simp [hv, hg]

/-- A first argument that is the name of a command. -/
theorem readLeading_name (v : Verb) : readLeading g (v.name :: rest) = some (g, v, rest) := by
  cases v <;> rfl

/-- What does not start with a hyphen can be the value of an option. -/
theorem isValue_of_head? (h : s.toList.head? ≠ some '-') : isValue s = true := by
  simp [isValue, h]

/-- A number does not start with a hyphen. -/
theorem head?_of_number? (h : number? s = some n) : s.toList.head? ≠ some '-' := by
  intro hd
  obtain ⟨cs, hcs⟩ := List.head?_eq_some_iff.1 hd
  simp [number?, Text.bounded?, hcs, Text.numeral?, Text.digitRun?] at h

/-- Arguments that start with the name of a command leave all options to that command. -/
theorem ofArguments?_name {v : Verb} {request : Request}
    (hread : readAll v.options .start rest = some g)
    (hrequest : request? v (fun o => g.options.lookup o) g.operands.reverse = some request) :
    ofArguments? env (v.name :: rest) =
      some ⟨g.verbosity, (g.options.lookup .config).or (env Config.fileVariable),
        g.options.lookup .format, request⟩ := by
  have hverbosity : (if g.verbosity = 0 then Given.start.verbosity else g.verbosity) =
      g.verbosity := by
    split <;> simp_all [Given.start]
  have hoptions (o : Setting) : Given.start.options.lookup o = none := rfl
  simp [ofArguments?, readLeading_name, hread, hoptions, hrequest, hverbosity]

/-! ## Three commands -/

/-- The arguments that write the device of a topology. -/
theorem ofArguments?_generate (hs : s.toList.head? ≠ some '-') (hv : isValue value = true) :
    ofArguments? env ["generate", s, "-o", value] =
      some ⟨0, env Config.fileVariable, none, .generate s (some value)⟩ := by
  have ho : Flags Verb.generate.options "-o" .output := ⟨by decide, fun _ => rfl⟩
  have hread : readAll Verb.generate.options .start [s, "-o", value] =
      some ⟨0, [(.output, value)], [s]⟩ := by
    rw [readAll_operand hs, readAll_flag ho hv rfl]
    rfl
  exact ofArguments?_name hread rfl

/-- The arguments that summarise a device as JSON. -/
theorem ofArguments?_info (hv : isValue value = true) :
    ofArguments? env ["info", "-i", value, "--format", "json"] =
      some ⟨0, env Config.fileVariable, some "json", .info value⟩ := by
  have hi : Flags Verb.info.options "-i" .input := ⟨by decide, fun _ => rfl⟩
  have hf : Flags Verb.info.options "--format" .format := ⟨by decide, fun _ => rfl⟩
  have hread : readAll Verb.info.options .start ["-i", value, "--format", "json"] =
      some ⟨0, [(.format, "json"), (.input, value)], []⟩ := by
    rw [readAll_flag hi hv rfl, readAll_flag hf rfl rfl]
    rfl
  exact ofArguments?_name hread rfl

/-- The arguments that prune a device, write what is left and report as JSON. -/
theorem ofArguments?_prune {input output num : String} (hi : isValue input = true)
    (ho : isValue output = true) (hn : number? num = some n) :
    ofArguments? env ["prune", "-i", input, "-n", num, "-o", output, "--format", "json"] =
      some ⟨0, env Config.fileVariable, some "json", .prune input n (some output)⟩ := by
  have hin : Flags Verb.prune.options "-i" .input := ⟨by decide, fun _ => rfl⟩
  have hnum : Flags Verb.prune.options "-n" .num := ⟨by decide, fun _ => rfl⟩
  have hout : Flags Verb.prune.options "-o" .output := ⟨by decide, fun _ => rfl⟩
  have hf : Flags Verb.prune.options "--format" .format := ⟨by decide, fun _ => rfl⟩
  have hread : readAll Verb.prune.options .start
      ["-i", input, "-n", num, "-o", output, "--format", "json"] =
      some ⟨0, [(.format, "json"), (.output, output), (.num, num), (.input, input)], []⟩ := by
    rw [readAll_flag hin hi rfl, readAll_flag hnum (isValue_of_head? (head?_of_number? hn)) rfl,
      readAll_flag hout ho rfl, readAll_flag hf rfl rfl]
    rfl
  refine ofArguments?_name hread ?_
  change (Option.bind (some num) number?).bind _ = _
  rw [Option.bind_some, hn]
  rfl

end CouplingMap.Invocation

namespace CouplingMap

/-! ## Texts of topologies -/

/-- Trimming keeps a first character that is not blank. -/
theorem Text.head?_trim {c : Char} {cs : List Char} (h : isBlank c = false) :
    (trim (c :: cs)).head? = some c := by
  have hdrop : (cs.reverse ++ [c]).dropWhile isBlank ≠ [] ∧
      ((cs.reverse ++ [c]).dropWhile isBlank).getLast? = some c := by
    rw [List.dropWhile_append]
    split <;> simp [h]
  simp [trim, h, hdrop.2]

namespace Topology

variable {s : String} {t : Topology}

/-- No kind starts with a hyphen. -/
theorem Family.head?_ne {word : String} {sizes : List UInt32} (h : Family word sizes t) :
    word.toList.head? ≠ some '-' := by
  cases h with
  | full h => revert word; decide
  | ring => decide
  | flat => decide
  | layered => decide

/-- The text of a topology does not start with a hyphen: neither a blank nor a kind does. -/
theorem head?_of_parse (h : parse s = .ok t) : s.toList.head? ≠ some '-' := by
  intro hd
  obtain ⟨cs, hcs⟩ := List.head?_eq_some_iff.1 hd
  have htrim : (Text.trim s.toList).head? = some '-' := hcs ▸ Text.head?_trim (by decide)
  have hspells := (parse_eq_ok_iff s t).1 h
  generalize Text.trim s.toList = text at htrim hspells
  obtain @⟨kind, ps, sizes, t, -, -, hfamily⟩ := hspells
  cases kind with
  | nil => simp at htrim
  | cons c kind =>
    obtain rfl : c = '-' := by simpa using htrim
    exact hfamily.head?_ne (by rw [String.toList_ofList]; rfl)

end Topology

end CouplingMap
