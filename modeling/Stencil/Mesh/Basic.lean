/-
Meshes of vertices and oriented edges, with the tables that follow from the edge list: the two ends of every edge,
and for every vertex the edges that touch it in ascending order, with a sign that says which end the vertex is.
-/
import Stencil.Mesh.Connectivity
import Stencil.Mesh.Domain

namespace Stencil

/-- an edge at a vertex: `1` if the vertex is its start, `-1` if it is its end -/
structure Incidence where
  edge : Int32
  sign : Int
deriving DecidableEq, Repr

structure Mesh where
  vertexCount : Nat
  edges : List (Int32 × Int32)
  edgeVertices : Connectivity
  vertexEdges : Connectivity
  /-- one sign for each slot of `vertexEdges`, zero where there is no edge -/
  signs : Array Int

/-- the slot axis of a table from edges to vertices -/
def Dim.edgeToVertex : Dim := ⟨"E2V", "e2v"⟩

/-- the slot axis of a table from vertices to edges -/
def Dim.vertexToEdge : Dim := ⟨"V2E", "v2e"⟩

namespace Mesh

/-- whether a number names a vertex -/
def isVertex (vertexCount : Nat) (v : Int32) : Bool := 0 ≤ v.toInt && v.toInt < vertexCount

/-- checks both ends of the edges from number `e` on; the start of an edge is looked at before its end -/
def checkEdges (vertexCount : Nat) : Nat → List (Int32 × Int32) → Except Fault Unit
  | _, [] => .ok ()
  | e, (a, b) :: rest => do
    unless isVertex vertexCount a do throw (.raised s!"edge {e} start")
    unless isVertex vertexCount b do throw (.raised s!"edge {e} end")
    checkEdges vertexCount (e + 1) rest

/-- adds an incidence at a vertex -/
def addIncidence (table : Array (List Incidence)) (v : Int32) (i : Incidence) : Array (List Incidence) :=
  table.modify v.toInt.toNat fun row => row ++ [i]

/-- enters the edges from number `e` on, the start of an edge before its end -/
def enterEdges (table : Array (List Incidence)) : Nat → List (Int32 × Int32) → Array (List Incidence)
  | _, [] => table
  | e, (a, b) :: rest =>
    let edge := Int32.ofNat e
    enterEdges (addIncidence (addIncidence table a ⟨edge, 1⟩) b ⟨edge, -1⟩) (e + 1) rest

/-- the incidences of every vertex -/
def incidences (vertexCount : Nat) (edges : List (Int32 × Int32)) : List (List Incidence) :=
  (enterEdges (Array.replicate vertexCount []) 0 edges).toList

/-- the signs of a row, filled up with zeros -/
def paddedSigns (degree : Nat) (row : List Incidence) : List Int :=
  row.map Incidence.sign ++ List.replicate (degree - row.length) 0

/-- the bytes of an edge -/
def edgeBytes : Nat := 8

/-- the bytes of a list of incidences apart from its entries: address, capacity and length -/
def incidenceListBytes : Nat := 24

/-- the bytes of a sign -/
def signBytes : Nat := 8

/-- a mesh from its edges, each given by start and end. Room is asked for the vertices before an edge is checked, and
for the tables and the signs once all are. -/
def ofEdges (vertexCount : Nat) (edges : List (Int32 × Int32)) : Except Fault Mesh := do
  Buffer.reserve vertexCount incidenceListBytes
  checkEdges vertexCount 0 edges
  let rows := incidences vertexCount edges
  let vertexEdges ← Connectivity.collect (rows.map fun row => row.map Incidence.edge)
  Buffer.reserve (vertexCount * vertexEdges.maxDegree) signBytes
  Buffer.reserve edges.length edgeBytes
  let edgeVertices ← Connectivity.collect (edges.map fun (a, b) => [a, b])
  return {
    vertexCount
    edges
    edgeVertices
    vertexEdges
    signs := (rows.flatMap (paddedSigns vertexEdges.maxDegree)).toArray }

/-- `n` vertices in a ring, edge `e` from vertex `e` to the next -/
def ring (n : Nat) : Except Fault Mesh := do
  Buffer.reserve n edgeBytes
  ofEdges n ((List.range n).map fun e => (Int32.ofNat e, Int32.ofNat ((e + 1) % n)))

/-- six vertices in two rows of three, with one diagonal in each square -/
def strip : Except Fault Mesh :=
  ofEdges 6 [(0, 1), (1, 2), (3, 4), (4, 5), (0, 3), (1, 4), (2, 5), (1, 3), (2, 4)]

def edgeCount (m : Mesh) : Nat := m.edges.length

/-- the domain of the mesh with `k` levels -/
def domain (m : Mesh) (k : UInt64) : Domain := .ofCounts (clamp m.vertexCount) (clamp m.edgeCount) k

/-- the sign at a slot of a vertex; only the position in the flat array is checked -/
def sign (m : Mesh) (v slot : Nat) : Except Fault Int := do
  let start ← m.vertexEdges.rowStart v
  let some n := fits (start + slot) | throw (.overflow .add)
  match m.signs[n]? with
  | some s => return s
  | none => throw .outside

end Mesh

end Stencil
