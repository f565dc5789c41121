import CouplingMap.Proofs.Command.Arguments
import CouplingMap.Proofs.Command.Run
import CouplingMap.Proofs.Device.Part

/-!
# Pruning accounts for every node

The report lists what pruning takes away and counts what stays, and the file gets the part of the
device on the nodes that stay. No node is lost between the two.

* `Device.prune_taken`: what pruning takes away, and the part that it leaves.
* `Command.execute_prune`: the plan that prunes a file.
* `Command.run_prune_accounts`: what a run that prunes reports and writes.
-/

namespace CouplingMap

/-- Pruning takes away nodes of the device in ascending order, at most as many as wanted, and leaves
the part of the device on the other nodes. -/
theorem Device.prune_taken (d : Device) (num : Nat) :
    (d.prune num).1.Pairwise (fun a b => compare a b = .lt) ∧ (d.prune num).1.Nodup ∧
      (∀ n ∈ (d.prune num).1, n ∈ d.nodes) ∧ (d.prune num).1.length ≤ num ∧
      ∃ part, d.restrict (d.nodes.filter fun n => n ∉ (d.prune num).1) = .ok part ∧
        Alike part (d.prune num).2 := by
  obtain ⟨taken, hsorted, hlength, ht⟩ : ∃ taken, (d.prune num).1 = Node.sorted taken ∧
      taken.length ≤ num ∧ Trimmed d taken (d.prune num).2 :=
    ⟨_, rfl, length_pruneFrom_le num d, trimmed_pruneFrom num d⟩
  have hperm := Node.sorted_perm taken
  simp only [hsorted, Node.mem_sorted, hperm.length_eq, hperm.nodup_iff]
  exact ⟨Node.pairwise_sorted ht.nodup, ht.nodup, ht.mem, hlength, ht.exists_part⟩

namespace Command

open Config (Environment)

variable {s : FileSystem} {slot : s.Slot} {files : Files} {env : Environment} {d : Device}
  {input output num text : String} {n : Nat}

/-- The plan that prunes a file writes what is left and reports what is gone. -/
theorem execute_prune (c : Config) (output : String) (n : Nat) (hread : files input = .ok text)
    (hd : Device.ofText text = .ok d) :
    ∃ p, execute files c (.prune input n (some output)) = .ok p ∧
      p.save = some (output, (d.prune n).2.toText c.output.pretty) ∧
      p.stdout =
        (Report.prune n d.size (d.prune n).1 (d.prune n).2 (some output)).text c.output := by
  have hload : loadDevice files input = .ok d := loadDevice_eq_ok.2 ⟨text, hread, hd⟩
  exact ⟨_, bind_eq_ok.2 ⟨d, hload, rfl⟩, rfl, rfl⟩

/-- The report on pruning, as JSON. -/
theorem prune_json (requested before : Nat) (removed : List Node) (left : Device)
    (output : Option String) : (Report.prune requested before removed left output).json =
      .object [("remaining", .number (.integer left.size)),
        ("removed", .list (removed.map Node.toJson)),
        ("requested", .number (.integer requested))] := by
  simp [Report.prune, Report.number_eq, Report.nodeList_eq]

/-- A run that prunes a file reports the nodes that it takes away, in ascending order and at most as
many as wanted, and the number of the other nodes. It writes the part of the device on these, so
that each node is either reported or written. It may write to the file that it has read. -/
theorem run_prune_accounts (henv : ∀ name, Config.envValue? env name = none)
    (hinput : Invocation.isValue input = true) (houtput : Invocation.isValue output = true)
    (hnum : Invocation.number? num = some n) (hread : s.read input = .ok text)
    (hd : Device.ofText text = .ok d) (htakes : s.Takes output slot) :
    ∃ e removed part,
      perform ["prune", "-i", input, "-n", num, "-o", output, "--format", "json"] env s = e ∧
      e.code = 0 ∧
      e.stdout = (Json.object
        [("remaining", .number (.integer (d.nodes.filter fun m => m ∉ removed).length)),
          ("removed", .list (removed.map Node.toJson)),
          ("requested", .number (.integer n))]).write true ++ "\n" ∧
      removed.Pairwise (fun a b => compare a b = .lt) ∧ removed.Nodup ∧
      (∀ m ∈ removed, m ∈ d.nodes) ∧ removed.length ≤ n ∧
      d.restrict (d.nodes.filter fun m => m ∉ removed) = .ok part ∧
      part.nodes = (d.nodes.filter fun m => m ∉ removed) ∧
      e.system.entry slot.place = some (.file (part.toText true).toUTF8) ∧
      (∀ place, place ≠ slot.place → e.system.entry place = s.entry place) ∧
      (removed ++ part.nodes).Perm d.nodes := by
  obtain ⟨hpairwise, hnodup, hmem, hlength, part, hpart, halike⟩ := d.prune_taken n
  have hnodes : part.nodes = d.nodes.filter fun m => m ∉ (d.prune n).1 := by
    obtain ⟨part', hpart', hnodes, -⟩ := Device.restrict_eq_ok
      (fun m hm => List.mem_of_mem_filter hm) (d.nodes_nodup.filter fun m => m ∉ (d.prune n).1)
    rwa [← Except.ok.inj (hpart.symm.trans hpart')] at hnodes
  have hsize : (d.prune n).2.size = (d.nodes.filter fun m => m ∉ (d.prune n).1).length := by
    rw [← Device.length_nodes, ← halike.nodes, hnodes]
  have htext : (d.prune n).2.toText true = part.toText true := by
    rw [Device.toText, Device.toText, halike.toJson]
  obtain ⟨p, hexecute, hsave, hreport⟩ :=
    execute_prune { Config.default with output := ⟨"json", true⟩ } output n hread hd
  have hrun := perform_of_execute (Invocation.ofArguments?_prune hinput houtput hnum)
    (settle_json henv _) hexecute
  rw [htext] at hsave
  obtain ⟨hcode, hstdout, hsystem⟩ := carryOut_file hsave htakes
  refine ⟨_, (d.prune n).1, part, hrun, hcode, hstdout.trans ?_, hpairwise, hnodup, hmem, hlength,
    hpart, hnodes, by simp [hsystem], fun place hplace => ?_,
    hnodes ▸ Node.perm_taken hnodup d.nodes_nodup hmem⟩
  · rw [hreport, Report.text_json rfl, prune_json, hsize]
  · rw [hsystem, FileSystem.entry_put_of_ne hplace]

/-- The description of three nodes in a row. -/
def rowText : String :=
  "\x7b\"nodes\": [[\"q\", [0]], [\"q\", [1]], [\"q\", [2]]], \"links\": [" ++
    "[[[\"q\", [0]], [\"q\", [1]]], 1], [[[\"q\", [1]], [\"q\", [2]]], 1]]\x7d"

/-- A folder with this description. -/
def rowSystem : FileSystem := .ofFiles [("d.json", rowText)]

/-- Its place. -/
def rowSlot : rowSystem.Slot where
  dir := ⟨FileSystem.defaultWorking, rfl⟩
  name := "d.json"
  is_file _ he := ⟨rowText.toUTF8, Option.some.inj (he.symm.trans rfl)⟩

/-- A file is pruned in place. -/
theorem run_prune_accounts_in_place : ∃ d e removed part, Device.ofText rowText = .ok d ∧
    rowSystem.read "d.json" = .ok rowText ∧ rowSystem.Takes "d.json" rowSlot ∧
    perform ["prune", "-i", "d.json", "-n", "1", "-o", "d.json", "--format", "json"]
      (fun _ => none) rowSystem = e ∧
    e.code = 0 ∧
    e.stdout = (Json.object
      [("remaining", .number (.integer (d.nodes.filter fun m => m ∉ removed).length)),
        ("removed", .list (removed.map Node.toJson)),
        ("requested", .number (.integer 1))]).write true ++ "\n" ∧
    removed.length ≤ 1 ∧ d.restrict (d.nodes.filter fun m => m ∉ removed) = .ok part ∧
    e.system.entry rowSlot.place = some (.file (part.toText true).toUTF8) ∧
    (removed ++ part.nodes).Perm d.nodes := by
  have hsome : (Device.ofText rowText).toOption.isSome := by decide +kernel
  have hread : rowSystem.read "d.json" = .ok rowText := by
    have hfind : rowSystem.find "d.json" = .ok (rowSlot.place, .file rowText.toUTF8) := by rfl
    exact FileSystem.read_of_find hfind rfl
  have htakes : rowSystem.Takes "d.json" rowSlot := ⟨by rfl, rfl, fun _ => rfl⟩
  have hnum : Invocation.number? "1" = some 1 := by decide +kernel
  have henv (name : String) : Config.envValue? (fun _ => none) name = none := rfl
  cases hd : Device.ofText rowText with
  | error e => simp [hd, Except.toOption] at hsome
  | ok d =>
    obtain ⟨e, removed, part, hrun, hcode, hstdout, -, -, -, hlength, hpart, -, hholds, -, hperm⟩ :=
      run_prune_accounts henv rfl rfl hnum hread hd htakes
    exact ⟨d, e, removed, part, rfl, hread, htakes, hrun, hcode, hstdout, hlength, hpart, hholds,
      hperm⟩

end Command

end CouplingMap
