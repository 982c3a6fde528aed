import RadarQuery.Text.Blank
import RadarQuery.Text.Split

/-!
The source record names a station by keys and values. As text it is a list of
items between commas, each a key and a value around its first colon; blanks
around keys, values and items do not count, and blank items are skipped. The
entries are kept in increasing order of their keys, one for each key.
-/

namespace RadarQuery

structure Source where
  name : String
  parent : Option String
  entries : List (String × String)
  sorted : entries.Pairwise (·.1 < ·.1)

inductive SourceError where
  | malformedItem (item : String)
deriving DecidableEq

def SourceError.message : SourceError → String
  | malformedItem item => s!"malformed source item '{item}', expected 'key:value'"

namespace Source

def insertEntry (key value : String) : List (String × String) → List (String × String)
  | [] => [(key, value)]
  | (k, v) :: rest =>
    if key < k then (key, value) :: (k, v) :: rest
    else if key = k then (key, value) :: rest
    else (k, v) :: insertEntry key value rest

/-- An entry of the result is the new one or an old one. -/
theorem mem_insertEntry {key value : String} {entries : List (String × String)}
    {e : String × String} (h : e ∈ insertEntry key value entries) :
    e = (key, value) ∨ e ∈ entries := by
  induction entries with
  | nil => simpa [insertEntry] using h
  | cons first rest ih =>
    obtain ⟨k, v⟩ := first
    simp only [insertEntry] at h
    split at h
    · simpa using h
    · split at h
      · rcases List.mem_cons.mp h with rfl | h
        · exact .inl rfl
        · exact .inr (List.mem_cons_of_mem _ h)
      · rcases List.mem_cons.mp h with rfl | h
        · exact .inr (List.mem_cons_self ..)
        · exact (ih h).imp id (List.mem_cons_of_mem _)

theorem pairwise_insertEntry (key value : String) {entries : List (String × String)}
    (h : entries.Pairwise (·.1 < ·.1)) : (insertEntry key value entries).Pairwise (·.1 < ·.1) := by
  induction entries with
  | nil => simp [insertEntry]
  | cons first rest ih =>
    obtain ⟨k, v⟩ := first
    obtain ⟨hfirst, hrest⟩ := List.pairwise_cons.mp h
    simp only [insertEntry]
    split
    · rename_i hlt
      refine List.pairwise_cons.mpr ⟨fun e he => ?_, h⟩
      rcases List.mem_cons.mp he with rfl | he
      · exact hlt
      · exact String.lt_trans hlt (hfirst e he)
    · split
      · rename_i heq
        subst heq
        exact List.pairwise_cons.mpr ⟨hfirst, hrest⟩
      · rename_i hnot hne
        have hlt : k < key := by
          rcases Std.lt_trichotomy k key with hlt | heq | hlt
          · exact hlt
          · exact absurd heq.symm hne
          · exact absurd hlt hnot
        refine List.pairwise_cons.mpr ⟨fun e he => ?_, ih hrest⟩
        rcases mem_insertEntry he with rfl | he
        · exact hlt
        · exact hfirst e he

def ofName (name : String) : Source :=
  ⟨name, none, [], .nil⟩

def empty : Source :=
  ofName ""

def withParent (s : Source) (parent : String) : Source :=
  { s with parent := some parent }

def withName (s : Source) (name : String) : Source :=
  { s with name }

def get? (s : Source) (key : String) : Option String :=
  s.entries.lookup key

def contains (s : Source) (key : String) : Bool :=
  (s.get? key).isSome

def insert (s : Source) (key value : String) : Source :=
  { s with
    entries := insertEntry key value s.entries
    sorted := pairwise_insertEntry key value s.sorted }

def erase (s : Source) (key : String) : Source :=
  { s with
    entries := s.entries.filter (·.1 != key)
    sorted := s.sorted.filter _ }

def keys (s : Source) : List String :=
  s.entries.map (·.1)

def size (s : Source) : Nat :=
  s.entries.length

def itemsOf (text : List Char) : List (List Char) :=
  ((text.splitOn ',').map Text.trim).filter (!·.isEmpty)

def readItem (item : List Char) : Except SourceError (String × String) :=
  match Text.cutFirst ':' item with
  | some (key, value) => .ok (String.ofList (Text.trim key), String.ofList (Text.trim value))
  | none => .error (.malformedItem (String.ofList item))

/-- Reads a record. Of several items with one key the last counts. -/
def parse (text : String) : Except SourceError Source :=
  ((itemsOf text.toList).mapM readItem).map fun entries =>
    entries.foldl (fun s (key, value) => s.insert key value) empty

/-- The record of the entries in the order of their keys. -/
def render (s : Source) : String :=
  ",".intercalate (s.entries.map fun (key, value) => key ++ ":" ++ value)

def same (s t : Source) : Bool :=
  s.name == t.name && s.parent == t.parent && s.entries == t.entries

end Source

end RadarQuery
