import CouplingMap.Proofs.Command.Arguments
import CouplingMap.Proofs.Command.Run
import CouplingMap.Proofs.Device.Reload
import CouplingMap.Proofs.Device.RoundTrip
import CouplingMap.Proofs.Topology.Distance
import CouplingMap.Proofs.Topology.Identify

/-!
# A generated device is recognised

The device of a topology is written to a file, read from there and summarised. What is read has the
nodes and connections of what was written, so the summary is that of the device of the topology.

* `Topology.exists_reload`: the device of a topology is read back from its texts.
* `Command.recognises_info`: what the summary of a recognised device says.
* `Command.execute_generate`, `Command.execute_info`: the two plans.
* `Command.run_generate_info`: what the two runs print, one after the other.
-/

namespace CouplingMap

open Json

/-- The nodes of a topology are named. -/
theorem Topology.register_ne_empty {t : Topology} {n : Node} (h : n ∈ t.nodes) :
    n.register ≠ "" := by
  cases t with
  | full k =>
    obtain ⟨i, -, rfl⟩ := mem_nodes_full.1 h
    exact (by decide : fullRegister ≠ "")
  | ring k =>
    obtain ⟨i, -, rfl⟩ := mem_nodes_ring.1 h
    exact (by decide : ringRegister ≠ "")
  | grid rows cols layers =>
    obtain ⟨r, c, l, -, rfl⟩ := mem_nodes_grid.1 h
    exact (by decide : gridRegister ≠ "")

/-- The device of a topology is read back from its texts: its nodes are named, and all its weights
are one. -/
theorem Topology.exists_reload {t : Topology} {d : Device} (h : t.build = .ok d) (lines : Bool) :
    ∃ e, Device.ofText (d.toText lines) = .ok e ∧ e.Alike d := by
  obtain ⟨hnodes, hconnections⟩ := lists_of_build h
  have hnamed : ∀ n ∈ d.nodes, n.register ≠ "" := fun n hn => register_ne_empty (hnodes ▸ hn)
  have hone : Decoder.double.Reads (.number (.double Device.defaultWeight)) Device.defaultWeight :=
    Decoder.reads_double (by decide) (by decide +kernel)
  have hweights : ∀ c ∈ d.connections,
      Decoder.double.Reads (.number (.double c.weight)) (id c.weight) := fun c hc => by
    obtain ⟨p, -, rfl⟩ := List.mem_map.1 (hconnections ▸ hc)
    exact hone
  have hread := Device.reads_describe hnamed hweights
  obtain ⟨e, he, henodes, heconnections⟩ := Device.exists_ofText hread
    (d.fitting_reweigh fun c hc => (Device.fits_of_mem hc).finite) lines
  exact ⟨e, he, henodes, heconnections.trans (List.map_id _)⟩

/-- The device of a topology with nodes is recognised, if these can be counted with 32 bits. -/
theorem Topology.identify_build {t : Topology} {d : Device} (h : t.build = .ok d)
    (hne : t.nodes ≠ []) (hsize : t.nodes.length < UInt32.size) : identify d = some t := by
  have hnodes := (lists_of_build h).1
  exact identify_eq_some_iff.2
    ⟨hne, hnodes ▸ hsize, fun n => by rw [hnodes], d, h, fun _ _ => rfl⟩

namespace Command

open Config (Environment)

variable {s : FileSystem} {slot : s.Slot} {files : Files} {env : Environment} {c : Config}
  {d e : Device} {t : Topology} {spelling path text : String} {k n : Nat}

/-- What the summary of a device as JSON says about its topology. -/
structure Recognises (members : List (String × Json)) (t : Topology) (nodes connections : Nat)
    (diameter : Nat) : Prop where
  topology : members.lookup "topology" = some (.string t.display)
  nodes : members.lookup "nodes" = some (.number (.integer nodes))
  connections : members.lookup "connections" = some (.number (.integer connections))
  connected : members.lookup "connected" = some (.bool true)
  diameter : members.lookup "diameter" = some (.number (.integer diameter))

/-- The summary of a device that is recognised and has a diameter. -/
theorem recognises_info (path : String) (htopology : Topology.identify d = some t)
    (hdiameter : d.diameter = .ok k) : ∃ members, (Report.info path d).json = .object members ∧
      Recognises members t d.nodes.length d.connections.length k := by
  refine ⟨_, rfl, ?_⟩
  simp only [Report.summary, htopology, hdiameter, Except.toOption, Report.number_eq,
    Report.orNull_some, Device.connectionCount_eq, ← d.length_nodes]
  exact ⟨rfl, rfl, rfl, rfl, rfl⟩

/-- The plan that writes the device of a topology. -/
theorem execute_generate (files : Files) (c : Config) (path : String)
    (ht : Topology.parse spelling = .ok t) (hd : t.build = .ok d) :
    ∃ p, execute files c (.generate spelling (some path)) = .ok p ∧
      p.save = some (path, d.toText c.output.pretty) := by
  have htopology : readTopology spelling = .ok t := mapError_eq_ok.2 ht
  exact ⟨_, bind_eq_ok.2 ⟨t, htopology, bind_eq_ok.2 ⟨d, mapError_eq_ok.2 hd, rfl⟩⟩, rfl⟩

/-- The plan that summarises a file. -/
theorem execute_info (hread : files path = .ok text) (hd : Device.ofText text = .ok d) :
    execute files c (.info path) = .ok (printed c.output (.info path d)) :=
  bind_eq_ok.2 ⟨d, loadDevice_eq_ok.2 ⟨text, hread, hd⟩, rfl⟩

/-- A run that writes the device of a topology succeeds, and so does one that summarises the file.
The summary names the topology, counts its nodes and connections, and says that the device is
connected and which of its distances is the greatest. -/
theorem run_generate_info (henv : ∀ name, Config.envValue? env name = none)
    (ht : Topology.parse spelling = .ok t) (hne : t.nodes ≠ [])
    (hsize : t.nodes.length < UInt32.size) (hpath : Invocation.isValue path = true)
    (htakes : s.Takes path slot) (hreads : s.faults.reading slot.place = none) :
    ∃ d n k generated summarised members, t.build = .ok d ∧ t.nodeCount? = some n ∧
      d.IsDiameter k ∧
      perform ["generate", spelling, "-o", path] env s = generated ∧ generated.code = 0 ∧
      perform ["info", "-i", path, "--format", "json"] env generated.system = summarised ∧
      summarised.code = 0 ∧ summarised.stdout = (Json.object members).write true ++ "\n" ∧
      Recognises members t n t.links.length k := by
  have hcount : t.nodes.length < UInt64.size := hsize.trans (by decide)
  obtain ⟨d, hd, hnodes, hconnections⟩ := Topology.exists_build hcount
  obtain ⟨k, hk⟩ := Topology.exists_isDiameter hd hne
  -- The first run leaves the text of the device under the path.
  obtain ⟨p, hgenerate, hsave⟩ := execute_generate s.read .default path ht hd
  have hgenerated := perform_of_execute
    (Invocation.ofArguments?_generate (Topology.head?_of_parse ht) hpath)
    (settle_default henv _) hgenerate
  obtain ⟨hcode, -, hsystem⟩ := carryOut_file hsave htakes
  -- The second run reads a device from there that is like the first one.
  obtain ⟨e, he, halike⟩ := Topology.exists_reload hd true
  have hread : (carryOut s p).system.read path = .ok (d.toText true) := by
    rw [hsystem]
    exact FileSystem.read_put htakes.leads hreads
  have hinfo := execute_info (c := { Config.default with output := ⟨"json", true⟩ }) hread he
  have hsummarised := perform_of_execute (Invocation.ofArguments?_info hpath)
    (settle_json henv _) hinfo
  obtain ⟨members, hmembers, hrecognises⟩ := recognises_info (d := e) path
    (halike.identify.trans (Topology.identify_build hd hne hsize))
    (halike.diameter.trans (Device.diameter_eq_ok.2 hk))
  rw [halike.nodes, halike.connections, hnodes, hconnections, List.length_map] at hrecognises
  refine ⟨d, _, k, _, _, members, hd, ?_, hk, hgenerated, hcode, hsummarised, rfl, ?_, hrecognises⟩
  · rw [Topology.nodeCount?_eq, if_pos hcount]
  · show (Report.info path e).text ⟨"json", true⟩ = _
    rw [Report.text_json rfl, hmembers]

/-- The place of a new file in an empty folder. -/
def deviceSlot : (FileSystem.ofFiles []).Slot where
  dir := ⟨FileSystem.defaultWorking, rfl⟩
  name := "device.json"
  is_file _ he := by
    have hfree : (FileSystem.ofFiles []).entry ("device.json" :: FileSystem.defaultWorking) = none :=
      rfl
    rw [hfree] at he
    contradiction

/-- A grid is recognised whose text has blanks, capitals and a plus sign. -/
theorem run_generate_info_grid : ∃ d n k generated summarised members,
    (Topology.grid 2 3 1).build = .ok d ∧ (Topology.grid 2 3 1).nodeCount? = some n ∧
      d.IsDiameter k ∧
      perform ["generate", " GRID: 2x+3 ", "-o", "device.json"] (fun _ => none) (.ofFiles []) =
        generated ∧
      generated.code = 0 ∧
      perform ["info", "-i", "device.json", "--format", "json"] (fun _ => none) generated.system =
        summarised ∧
      summarised.code = 0 ∧ summarised.stdout = (Json.object members).write true ++ "\n" ∧
      Recognises members (.grid 2 3 1) n (Topology.grid 2 3 1).links.length k :=
  have htakes : (FileSystem.ofFiles []).Takes "device.json" deviceSlot :=
    ⟨by rfl, rfl, fun _ => rfl⟩
  run_generate_info (fun _ => rfl) (by rfl) (by decide) (by decide) (by rfl) htakes rfl

end Command

end CouplingMap
