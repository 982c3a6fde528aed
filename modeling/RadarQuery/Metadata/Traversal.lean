import RadarQuery.Metadata.Source
import RadarQuery.Metadata.Tree

/-!
Traversal of a metadata tree in level order: the root, its children, their
children, each level from left to right. The attributes that matching looks at
are the leaves of this traversal. The attributes of the file format that have
names of their own can be asked for directly.
-/

namespace RadarQuery.Metadata

/-- Visits at most `fuel` nodes, the first of the queue and after it those behind it
in the queue, then its children. -/
def visit (m : Metadata) : Nat → List Nat → List Nat
  | 0, _ => []
  | _, [] => []
  | fuel + 1, id :: queue => id :: m.visit fuel (queue ++ (m.node id).children)

/-- The nodes in level order. No node is visited twice, so their number is fuel enough. -/
def levelOrder (m : Metadata) : List Nat :=
  m.visit m.nodes.size [0]

def attributes (m : Metadata) : List (Nat × Scalar) :=
  m.levelOrder.filterMap fun id => (m.node id).kind.value?.map fun value => (id, value)

def value? (m : Metadata) (path : String) : Option Scalar :=
  (m.find? path).bind fun id => (m.node id).kind.value?

def text? (m : Metadata) (path : String) : Option String :=
  (m.value? path).bind Scalar.text?

def object? (m : Metadata) : Option String :=
  m.text? "/what/object"

def date? (m : Metadata) : Option Calendar.Date :=
  (m.value? "/what/date").bind Scalar.date?

def time? (m : Metadata) : Option Calendar.Time :=
  (m.value? "/what/time").bind Scalar.time?

def sourceText? (m : Metadata) : Option String :=
  m.text? "/what/source"

def sourceName? (m : Metadata) : Option String :=
  m.text? "/_bdb/source_name"

def fileUuid? (m : Metadata) : Option String :=
  m.text? "/_bdb/uuid"

def metadataHash? (m : Metadata) : Option String :=
  m.text? "/_bdb/metadata_hash"

def fileSize? (m : Metadata) : Option Int64 :=
  (m.value? "/_bdb/file_size").bind Scalar.long?

/-- The source record, named if the tree holds a name for it. -/
def source? (m : Metadata) : Except SourceError (Option Source) :=
  match m.sourceText? with
  | none => .ok none
  | some text =>
    (Source.parse text).map fun source =>
      some (match m.sourceName? with
        | some name => source.withName name
        | none => source)

end RadarQuery.Metadata
