import NornRune.Compile.Semantics
import NornRune.Lib.Loop

-- The third phase of validation: the expressions are acyclic, and every node is part of one.
namespace NornRune.Document

open Diagnostic

structure VisitFrame where
  node : Nat
  next : Nat
  deriving DecidableEq, Repr

-- A node is gray while it is on the stack and black once all of its edges were followed.
inductive Color
  | white
  | gray
  | black
  deriving DecidableEq, Repr

structure Walk where
  colors : List Color
  reachable : List Bool
  diagnostics : List Diagnostic

variable (d : Document)

namespace Walk

def color (w : Walk) (node : Nat) : Color := w.colors.getD (node - 1) .black

def enter (w : Walk) (reachable : Bool) (node : Nat) : Walk :=
  { w with
    colors := w.colors.set (node - 1) .gray
    reachable := if reachable then w.reachable.set (node - 1) true else w.reachable }

def leave (w : Walk) (node : Nat) : Walk :=
  { w with colors := w.colors.set (node - 1) .black }

def report (w : Walk) (diagnostic : Diagnostic) : Walk :=
  { w with diagnostics := w.diagnostics ++ [diagnostic] }

end Walk

def walkStep (reachable : Bool) : Walk × List VisitFrame → Walk × List VisitFrame ⊕ Walk
  | (w, []) => .inr w
  | (w, frame :: stack) =>
    let node := frame.node
    if frame.next < d.graphEdgeCount node then
      let target := d.graphChild node frame.next
      let stack := { frame with next := frame.next + 1 } :: stack
      if !d.nodeInRange target || d.nodeUnsafe (target - 1) then .inl (w, stack)
      else match w.color target with
        | .gray =>
          let span := d.validNodeSpan (node - 1)
          .inl (w.report { code := .cycle, table := .node, member := .child, row := node,
                           node := target, span }, stack)
        | .black => .inl (w, stack)
        | .white => .inl (w.enter reachable target, ⟨target, 0⟩ :: stack)
    else .inl (w.leave node, stack)

-- One round for each edge and one for leaving each node.
def walkRounds : Nat :=
  ((List.range d.nodeKinds.length).map fun i => d.graphEdgeCount (i + 1) + 1).sum + 1

def walkGraph (reachable : Bool) (w : Walk) (root : Nat) : Walk :=
  if !d.nodeInRange root || d.nodeUnsafe (root - 1) || w.color root != .white then w
  else Loop.run w (d.walkStep reachable) (d.walkRounds + 1) (w.enter reachable root, [⟨root, 0⟩])

def clauseReferenced (i : Nat) : Bool :=
  (List.range d.requirementRows).any fun r =>
    d.requirementClausesInRange r && (d.requirementClauses r).contains (i + 1)

def graphRoots : List Nat :=
  d.requirementApplicabilityRoots.take d.requirementRows ++
  (List.range d.clauseAssertionRoots.length).flatMap fun i =>
    if d.clauseReferenced i && !d.clauseUnsafe i then
      d.clauseAssertionRoots.getD i 0 :: d.clauseEvidence i
    else []

def validateGraph : List Diagnostic :=
  let n := d.nodeKinds.length
  let w := d.graphRoots.foldl (d.walkGraph true)
    ⟨List.replicate n .white, List.replicate n false, []⟩
  let w := (List.range' 1 n).foldl (d.walkGraph false) w
  w.diagnostics ++ rows n fun i =>
    when (!d.nodeUnsafe i && !w.reachable.getD i false)
      { code := .unreachableNode, table := .node, row := i + 1, node := i + 1,
        span := d.validNodeSpan i }

def validate (fields : Schema) : List Diagnostic :=
  d.validateStructure fields ++ d.validateSemantics fields ++ d.validateGraph

end NornRune.Document
