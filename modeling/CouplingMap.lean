import CouplingMap.Main
import CouplingMap.Proofs.Graph.Record
import CouplingMap.Proofs.Graph.Walk
import CouplingMap.Proofs.Graph.Explore
import CouplingMap.Proofs.Graph.DepthFirst
import CouplingMap.Proofs.Graph.CutVertex
import CouplingMap.Proofs.Device.Shape
import CouplingMap.Proofs.Device.Cut
import CouplingMap.Proofs.Device.Prune
import CouplingMap.Proofs.Graph.PathSearch
import CouplingMap.Proofs.Device.Line
import CouplingMap.Proofs.Device.Network
import CouplingMap.Proofs.Device.Refinement
import CouplingMap.Proofs.Device.LineSearch
import CouplingMap.Proofs.Device.RoundTrip
import CouplingMap.Proofs.Device.Reload
import CouplingMap.Proofs.Device.Distance
import CouplingMap.Proofs.Device.ShortestPath
import CouplingMap.Proofs.Device.Worst
import CouplingMap.Proofs.Json.Value
import CouplingMap.Proofs.Json.Skip
import CouplingMap.Proofs.Json.Agreement
import CouplingMap.Proofs.Device.Agreement
import CouplingMap.Proofs.Device.Part
import CouplingMap.Proofs.Topology.Build
import CouplingMap.Proofs.Topology.Identify
import CouplingMap.Proofs.Device.Diameter
import CouplingMap.Proofs.Topology.Distance
import CouplingMap.Proofs.Topology.Cut
import CouplingMap.Proofs.Topology.Links
import CouplingMap.Proofs.Device.Restrict
import CouplingMap.Proofs.Device.Listing
import CouplingMap.Proofs.Node.Text
import CouplingMap.Proofs.Device.Outline
import CouplingMap.Proofs.Device.Adjacency
import CouplingMap.Proofs.Device.Stop
import CouplingMap.Proofs.Device.Format
import CouplingMap.Proofs.Device.Equality
import CouplingMap.Proofs.Device.Truncation
import CouplingMap.Proofs.Command.Arguments
import CouplingMap.Proofs.Command.Run
import CouplingMap.Proofs.Command.Prune
import CouplingMap.Proofs.Command.Recognition
import CouplingMap.Proofs.Json.Grammar
import CouplingMap.Proofs.Json.Widening
import CouplingMap.Proofs.Json.Complete
import CouplingMap.Proofs.Json.Coverage
import CouplingMap.Proofs.Device.Widening
import CouplingMap.Proofs.Topology.Text
import CouplingMap.Proofs.Topology.Json
import CouplingMap.Proofs.Device.Appearance
import CouplingMap.Proofs.Device.Tie
import CouplingMap.Proofs.Topology.Line
import CouplingMap.Proofs.Config.Precedence
import CouplingMap.Proofs.Graph.SpanningForest
import CouplingMap.Proofs.Graph.Enumeration
