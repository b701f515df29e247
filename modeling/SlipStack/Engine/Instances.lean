import SlipStack.Engine.Node

/-!
# The nodes of a drive element

Every reference in use has a node of its own, so a definition that is used from several
places shares no state between them. A reference is told by its `Path`, the sites that
lead to it. `Instances` keeps the nodes by their paths: it is a tree in which a node stands
below the node that refers to it, written as first child and next sibling.

A node is made when evaluation first enters it, so a plan that refers to itself stays
finite.
-/

namespace SlipStack.Engine

/-- The sites that lead to a node, the root first. -/
abbrev Path := List Site

/-- Nodes by their paths. -/
inductive Instances where
  | empty
  /-- The node at one site, the nodes below it, and those at other sites. -/
  | slot (site : Site) (node : Node) (inner others : Instances)
  deriving DecidableEq, Repr

namespace Instances

/-- The node at a path. -/
def get? : Instances → Path → Option Node
  | .empty, _ => none
  | .slot _ _ _ _, [] => none
  | .slot site node inner others, first :: rest =>
    if first = site then
      if rest = [] then some node else inner.get? rest
    else others.get? (first :: rest)

/-- The tree with the given node at a path. A node below one that is not there is left
out. -/
def set : Instances → Path → Node → Instances
  | .empty, [site], node => .slot site node .empty .empty
  | .empty, _, _ => .empty
  | .slot site old inner others, first :: rest, node =>
    if first = site then
      if rest = [] then .slot site node inner others
      else .slot site old (inner.set rest node) others
    else .slot site old inner (others.set (first :: rest) node)
  | .slot site old inner others, [], _ => .slot site old inner others

/-- Changes every node. -/
def map (change : Node → Node) : Instances → Instances
  | .empty => .empty
  | .slot site node inner others =>
    .slot site (change node) (inner.map change) (others.map change)

/-- The tree with the given node at a path that has none yet. -/
def enter (instances : Instances) (path : Path) (node : Node) : Instances :=
  match instances.get? path with
  | some _ => instances
  | none => instances.set path node

end Instances

end SlipStack.Engine
