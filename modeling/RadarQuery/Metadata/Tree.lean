import RadarQuery.Metadata.Scalar
import RadarQuery.Text.Split

/-!
The metadata tree of a file. Nodes are numbered in the order in which they were
added, the root being node 0, and keep their numbers: a node that is replaced by
one of the same name is cut off from the tree but stays addressable. Children
keep the order of insertion.
-/

namespace RadarQuery

inductive NodeKind where
  | root
  | group
  | dataset
  | leaf (value : Scalar)
deriving DecidableEq

namespace NodeKind

def isContainer : NodeKind → Bool
  | leaf _ => false
  | _ => true

def value? : NodeKind → Option Scalar
  | leaf value => some value
  | _ => none

theorem value?_eq_some_iff {kind : NodeKind} {value : Scalar} :
    kind.value? = some value ↔ kind = .leaf value := by
  cases kind <;> simp [value?]

end NodeKind

structure Node where
  name : String
  kind : NodeKind
  parent : Option Nat
  children : List Nat
deriving DecidableEq

inductive MetadataError where
  | parentNotFound (path : String)
  | notAContainer (path : String)
  | invalidName (name : String)
deriving DecidableEq

def MetadataError.message : MetadataError → String
  | parentNotFound path => s!"parent node not found: {path}"
  | notAContainer path => s!"cannot add children to attribute {path}"
  | invalidName name => s!"invalid node name '{name}'"

structure Metadata where
  nodes : Array Node

namespace Metadata

def rootNode : Node := ⟨"", .root, none, []⟩

def empty : Metadata := ⟨#[rootNode]⟩

def node? (m : Metadata) (id : Nat) : Option Node :=
  m.nodes[id]?

/-- The node of a number. What has no node looks like an empty root. -/
def node (m : Metadata) (id : Nat) : Node :=
  (m.node? id).getD rootNode

def child? (m : Metadata) (id : Nat) (name : String) : Option Nat :=
  (m.node id).children.find? fun c => (m.node c).name == name

def descend (m : Metadata) : Nat → List String → Option Nat
  | id, [] => some id
  | id, name :: names => (m.child? id name).bind fun c => m.descend c names

def find? (m : Metadata) (path : String) : Option Nat :=
  m.descend 0 (Text.pathNames path)

/-- The names from a node up to the root. A parent has a smaller number than its
children. Nodes of the root's kind have no part in a path. -/
def namesUp (m : Metadata) (id : Nat) : List String :=
  let above :=
    match (m.node id).parent with
    | some p => if p < id then m.namesUp p else []
    | none => []
  if (m.node id).kind = .root then above else (m.node id).name :: above
termination_by id

def names (m : Metadata) (id : Nat) : List String :=
  (m.namesUp id).reverse

def path (m : Metadata) (id : Nat) : String :=
  "/" ++ "/".intercalate (m.names id)

/-- Adds a node to a container. A child of the same name gives its place to the new
node and is cut off; otherwise the new node comes last. -/
def attach (m : Metadata) (parent : Nat) (name : String) (kind : NodeKind) : Metadata :=
  let id := m.nodes.size
  let nodes := m.nodes.push ⟨name, kind, some parent, []⟩
  match m.child? parent name with
  | some old =>
    ⟨(nodes.modify parent fun n => { n with children := n.children.replace old id }).modify old
      fun n => { n with parent := none }⟩
  | none => ⟨nodes.modify parent fun n => { n with children := n.children ++ [id] }⟩

/-- Adds a node under the node at a path; the result has its number. -/
def add (m : Metadata) (parentPath name : String) (kind : NodeKind) :
    Except MetadataError (Nat × Metadata) :=
  if name.isEmpty || name.toList.contains '/' then .error (.invalidName name)
  else
    match m.find? parentPath with
    | none => .error (.parentNotFound parentPath)
    | some parent =>
      if (m.node parent).kind.isContainer then .ok (m.nodes.size, m.attach parent name kind)
      else .error (.notAContainer (m.path parent))

/-- The parent path and the name of an attribute's path, slashes at the end left out. -/
def splitPath (path : String) : String × String :=
  let trimmed := (path.toList.reverse.dropWhile (· == '/')).reverse
  match Text.cutLast '/' trimmed with
  | some (before, after) => (String.ofList before, String.ofList after)
  | none => ("", String.ofList trimmed)

def addAttribute (m : Metadata) (path : String) (value : Scalar) :
    Except MetadataError (Nat × Metadata) :=
  let (parentPath, name) := splitPath path
  m.add parentPath name (.leaf value)

end Metadata

end RadarQuery
