import DSA.Node
import DSA.Merge
import DSA.FuncSet
import DSA.IR
import DSA.Graph
import DSA.Resolve
import DSA.Steensgaard
import DSA.Partition
import DSA.CallTargets
import DSA.CallGraph
import DSA.Scc
import DSA.Basic
import DSA.Drivers
import DSA.Statistics
import DSA.Print
import DSA.Finish
import DSA.Allocation
import DSA.MergeFuel
import DSA.PointsTo
import DSA.Minimal
