import RadarQuery.Metadata.Source
import RadarQuery.Proofs.EarlyExit
import RadarQuery.Proofs.Text.Fields

/-!
Source records, written and read back. Reading goes item by item and sets a key at each, so
a key has the value of the last item that names it. What is read is clean: nothing in it can
be taken for a separator or lost as a blank. The clean records are those that are read back
as they were written.
-/

namespace RadarQuery.Source

open Text

/-- An entry whose key and value are written without commas and blanks around them, and the
key without a colon. -/
structure CleanEntry (entry : String × String) : Prop where
  key_comma : ',' ∉ entry.1.toList
  key_colon : ':' ∉ entry.1.toList
  key_trim : trim entry.1.toList = entry.1.toList
  value_comma : ',' ∉ entry.2.toList
  value_trim : trim entry.2.toList = entry.2.toList

structure Clean (s : Source) : Prop where
  name_eq : s.name = ""
  parent_eq : s.parent = none
  entry : ∀ e ∈ s.entries, CleanEntry e

/-- An item has the key in front of its first colon and the value behind it, blanks aside. -/
def Sets (item : List Char) (key value : String) : Prop :=
  ∃ before after, item = before ++ ':' :: after ∧ ':' ∉ before ∧
    trim before = key.toList ∧ trim after = value.toList

def insertAll (s : Source) (entries : List (String × String)) : Source :=
  entries.foldl (fun s (key, value) => s.insert key value) s

def spelling (entry : String × String) : List Char :=
  entry.1.toList ++ ':' :: entry.2.toList

section Equality

variable {s t : Source}

theorem eq_of_entries_eq (hname : s.name = t.name) (hparent : s.parent = t.parent)
    (hentries : s.entries = t.entries) : s = t := by
  cases s
  cases t
  simp_all

theorem same_iff : s.same t ↔ s = t := by
  constructor
  · intro h
    simp only [same, Bool.and_eq_true, beq_iff_eq] at h
    obtain ⟨⟨hname, hparent⟩, hentries⟩ := h
    exact eq_of_entries_eq hname hparent hentries
  · rintro rfl
    simp [same]

end Equality

section Insertion

variable {key value : String} {entries : List (String × String)}

/-- A key behind all others goes to the end. -/
theorem insertEntry_of_forall_lt (h : ∀ e ∈ entries, e.1 < key) :
    insertEntry key value entries = entries ++ [(key, value)] := by
  induction entries with
  | nil => rfl
  | cons first rest ih =>
    obtain ⟨hfirst, hrest⟩ := List.forall_mem_cons.mp h
    have hnot : ¬key < first.1 := String.lt_asymm hfirst
    have hne : key ≠ first.1 := fun heq => String.lt_irrefl key (heq ▸ hfirst)
    rw [insertEntry, if_neg hnot, if_neg hne, ih hrest, List.cons_append]

theorem lookup_cons_eq_if (k : String) (first : String × String) :
    (first :: entries).lookup k = if k = first.1 then some first.2 else entries.lookup k := by
  rw [List.lookup_cons]
  by_cases hk : k = first.1
  · simp [hk]
  · simp [hk, beq_eq_false_iff_ne.mpr hk]

theorem lookup_insertEntry (k : String) :
    (insertEntry key value entries).lookup k =
      if k = key then some value else entries.lookup k := by
  induction entries with
  | nil => exact lookup_cons_eq_if k (key, value)
  | cons first rest ih =>
    rw [insertEntry]
    split
    · exact lookup_cons_eq_if k (key, value)
    · split
      case isTrue heq =>
        rw [lookup_cons_eq_if, lookup_cons_eq_if, heq]
        split <;> rfl
      case isFalse hne =>
        rw [lookup_cons_eq_if, lookup_cons_eq_if, ih]
        by_cases hk : k = first.1
        · rw [if_pos hk, if_pos hk, if_neg (hk ▸ Ne.symm hne)]
        · rw [if_neg hk, if_neg hk]

theorem get?_insert (s : Source) (k : String) :
    (s.insert key value).get? k = if k = key then some value else s.get? k :=
  lookup_insertEntry k

variable (s : Source)

@[simp] theorem name_insertAll : (s.insertAll entries).name = s.name := by
  induction entries generalizing s with
  | nil => rfl
  | cons first rest ih => exact ih _

@[simp] theorem parent_insertAll : (s.insertAll entries).parent = s.parent := by
  induction entries generalizing s with
  | nil => rfl
  | cons first rest ih => exact ih _

theorem mem_insertAll {e : String × String} (h : e ∈ (s.insertAll entries).entries) :
    e ∈ s.entries ∨ e ∈ entries := by
  induction entries generalizing s with
  | nil => exact Or.inl h
  | cons first rest ih =>
    rcases ih _ h with hmem | hmem
    · rcases mem_insertEntry hmem with rfl | hold
      · exact Or.inr (List.mem_cons_self ..)
      · exact Or.inl hold
    · exact Or.inr (List.mem_cons_of_mem _ hmem)

/-- Entries in increasing order of their keys are kept as they are. -/
theorem entries_insertAll (h : (s.entries ++ entries).Pairwise (·.1 < ·.1)) :
    (s.insertAll entries).entries = s.entries ++ entries := by
  induction entries generalizing s with
  | nil => exact (List.append_nil _).symm
  | cons first rest ih =>
    have hlt : ∀ e ∈ s.entries, e.1 < first.1 := fun e he =>
      (List.pairwise_append.mp h).2.2 e he first (List.mem_cons_self ..)
    have hinsert : (s.insert first.1 first.2).entries = s.entries ++ [first] :=
      insertEntry_of_forall_lt hlt
    have hrest := ih (s.insert first.1 first.2)
    rw [hinsert, List.append_assoc] at hrest
    exact hrest h

/-- Of several entries with one key the last counts. -/
theorem get?_insertAll (k : String) :
    (s.insertAll entries).get? k = (entries.reverse.lookup k).or (s.get? k) := by
  induction entries generalizing s with
  | nil => rfl
  | cons first rest ih =>
    have hstep : s.insertAll (first :: rest) = (s.insert first.1 first.2).insertAll rest := rfl
    rw [hstep, ih, get?_insert, List.reverse_cons, List.lookup_append, Option.or_assoc,
      lookup_cons_eq_if, List.lookup_nil]
    split <;> simp

end Insertion

section Reading

variable {item : List Char} {entry : String × String} {cause : SourceError} {text : String}
  {s : Source}

theorem readItem_eq_ok_iff : readItem item = .ok entry ↔ Sets item entry.1 entry.2 := by
  unfold readItem
  split
  case h_1 key value hcut =>
    rw [Except.ok.injEq]
    constructor
    · rintro rfl
      obtain ⟨hitem, hcolon⟩ := eq_of_cutFirst hcut
      exact ⟨key, value, hitem, hcolon, String.toList_ofList.symm, String.toList_ofList.symm⟩
    · rintro ⟨before, after, hitem, hcolon, hkey, hvalue⟩
      rw [cutFirst_eq_some_iff.mpr ⟨hitem, hcolon⟩] at hcut
      cases hcut
      rw [hkey, hvalue, String.ofList_toList, String.ofList_toList]
  case h_2 hcut =>
    simp only [reduceCtorEq, false_iff]
    rintro ⟨before, after, rfl, -⟩
    exact cutFirst_eq_none_iff.mp hcut (by simp)

theorem readItem_eq_error_iff : readItem item = .error cause ↔
    ':' ∉ item ∧ cause = .malformedItem (String.ofList item) := by
  unfold readItem
  split
  case h_1 key value hcut =>
    simp only [reduceCtorEq, false_iff, not_and]
    intro hnot
    exact absurd (cutFirst_eq_none_iff.mpr hnot) (by simp [hcut])
  case h_2 hcut =>
    rw [Except.error.injEq, eq_comm, and_iff_right (cutFirst_eq_none_iff.mp hcut)]

theorem parse_eq_ok_iff : parse text = .ok s ↔ ∃ entries,
    (itemsOf text.toList).map readItem = entries.map .ok ∧ s = empty.insertAll entries := by
  unfold parse
  cases hread : (itemsOf text.toList).mapM readItem with
  | error cause =>
    simp only [Except.map, reduceCtorEq, false_iff]
    rintro ⟨entries, hentries, -⟩
    rw [mapM_eq_ok_iff.mpr hentries] at hread
    cases hread
  | ok entries =>
    simp only [Except.map, Except.ok.injEq, ← mapM_eq_ok_iff, hread, exists_eq_left']
    exact eq_comm

/-- The first item without a colon is the one that a record is refused for. -/
theorem parse_eq_error_iff : parse text = .error cause ↔ ∃ before item rest,
    itemsOf text.toList = before ++ item :: rest ∧ (∀ other ∈ before, ':' ∈ other) ∧
      ':' ∉ item ∧ cause = .malformedItem (String.ofList item) := by
  have hcolon : ∀ other, (∃ e, readItem other = .ok e) ↔ ':' ∈ other := by
    intro other
    rw [← not_exists_error_iff]
    simp [readItem_eq_error_iff]
  have hparse : parse text = .error cause ↔
      (itemsOf text.toList).mapM readItem = .error cause := by
    unfold parse
    cases (itemsOf text.toList).mapM readItem <;> simp [Except.map]
  simp only [hparse, mapM_eq_error_iff, hcolon, readItem_eq_error_iff]

theorem comma_notMem_of_mem_itemsOf {cs : List Char} (h : item ∈ itemsOf cs) : ',' ∉ item := by
  obtain ⟨piece, hpiece, rfl⟩ := List.mem_map.mp (List.mem_filter.mp h).1
  exact fun hcomma => not_mem_of_mem_splitOn hpiece ((trim_isInfix piece).subset hcomma)

theorem exists_item_of_mem {items : List (List Char)} {entries : List (String × String)}
    (h : items.map readItem = entries.map .ok) (he : entry ∈ entries) :
    ∃ item ∈ items, readItem item = .ok entry := by
  have hread : (.ok entry : Except SourceError _) ∈ items.map readItem := by
    rw [h]
    exact List.mem_map_of_mem he
  exact List.mem_map.mp hread

/-- What is read from an item of a record is clean. -/
theorem cleanEntry_of_readItem (hcomma : ',' ∉ item) (h : readItem item = .ok entry) :
    CleanEntry entry := by
  obtain ⟨before, after, rfl, hcolon, hkey, hvalue⟩ := readItem_eq_ok_iff.mp h
  simp only [List.mem_append, List.mem_cons, not_or] at hcomma
  obtain ⟨hbefore, -, hafter⟩ := hcomma
  constructor <;> simp only [← hkey, ← hvalue]
  case key_comma => exact fun hmem => hbefore ((trim_isInfix before).subset hmem)
  case key_colon => exact fun hmem => hcolon ((trim_isInfix before).subset hmem)
  case key_trim => exact trim_trim before
  case value_comma => exact fun hmem => hafter ((trim_isInfix after).subset hmem)
  case value_trim => exact trim_trim after

theorem clean_of_parse (h : parse text = .ok s) : s.Clean := by
  obtain ⟨entries, hentries, rfl⟩ := parse_eq_ok_iff.mp h
  refine ⟨name_insertAll _, parent_insertAll _, fun e he => ?_⟩
  have hmem : e ∈ entries := (mem_insertAll empty he).resolve_left List.not_mem_nil
  obtain ⟨item, hitem, hread⟩ := exists_item_of_mem hentries hmem
  exact cleanEntry_of_readItem (comma_notMem_of_mem_itemsOf hitem) hread

end Reading

section Lookup

variable {text key value : String} {s : Source}

theorem get?_eq_none_of_parse (h : parse text = .ok s)
    (hnone : ∀ item ∈ itemsOf text.toList, ∀ value, ¬Sets item key value) :
    s.get? key = none := by
  obtain ⟨entries, hentries, rfl⟩ := parse_eq_ok_iff.mp h
  have hlookup : entries.reverse.lookup key = none := by
    rw [List.lookup_eq_none_iff]
    intro e he
    obtain ⟨item, hitem, hread⟩ := exists_item_of_mem hentries (List.mem_reverse.mp he)
    rw [bne_iff_ne]
    rintro rfl
    exact hnone item hitem e.2 (readItem_eq_ok_iff.mp hread)
  rw [get?_insertAll, hlookup]
  rfl

/-- The last item that sets a key gives it its value. -/
theorem get?_eq_some_of_parse {before rest : List (List Char)} {item : List Char}
    (h : parse text = .ok s) (hitems : itemsOf text.toList = before ++ item :: rest)
    (hitem : Sets item key value) (hrest : ∀ other ∈ rest, ∀ value, ¬Sets other key value) :
    s.get? key = some value := by
  obtain ⟨entries, hentries, rfl⟩ := parse_eq_ok_iff.mp h
  rw [hitems, List.map_append, List.map_cons, eq_comm, List.map_eq_append_iff] at hentries
  obtain ⟨earlier, last, rfl, -, hlast⟩ := hentries
  obtain ⟨e, later, rfl, he, hlater⟩ := List.map_eq_cons_iff.mp hlast
  have hread : readItem item = .ok (key, value) := readItem_eq_ok_iff.mpr hitem
  obtain rfl : e = (key, value) := Except.ok.inj (he.trans hread)
  have hlookup : (earlier ++ (key, value) :: later).reverse.lookup key = some value := by
    refine List.lookup_eq_some_iff.mpr ⟨later.reverse, earlier.reverse, by simp, ?_⟩
    intro e he
    obtain ⟨other, hother, heq⟩ := exists_item_of_mem hlater.symm (List.mem_reverse.mp he)
    rw [bne_iff_ne]
    rintro rfl
    exact hrest other hother e.2 (readItem_eq_ok_iff.mp heq)
  rw [get?_insertAll, hlookup]
  rfl

end Lookup

section Writing

variable {s : Source} {entry : String × String}

theorem toList_render (s : Source) :
    s.render.toList = [','].intercalate (s.entries.map spelling) := by
  rw [render, String.toList_intercalate, List.map_map]
  congr 1
  refine List.map_congr_left fun e _ => ?_
  simp [spelling]

theorem CleanEntry.comma_notMem (h : CleanEntry entry) : ',' ∉ spelling entry := by
  simp [spelling, h.key_comma, h.value_comma]

theorem CleanEntry.trim_spelling (h : CleanEntry entry) :
    trim (spelling entry) = spelling entry :=
  trim_append_cons (by decide) h.key_trim h.value_trim

theorem CleanEntry.readItem_spelling (h : CleanEntry entry) :
    readItem (spelling entry) = .ok entry :=
  readItem_eq_ok_iff.mpr ⟨_, _, rfl, h.key_colon, h.key_trim, h.value_trim⟩

/-- The items of a record that was written are its entries, as they were written. -/
theorem itemsOf_render (h : ∀ e ∈ s.entries, CleanEntry e) :
    itemsOf s.render.toList = s.entries.map spelling := by
  rw [toList_render, itemsOf]
  cases hentries : s.entries with
  | nil => decide
  | cons first rest =>
    rw [← hentries, List.splitOn_intercalate ',' ?comma ?nonempty, List.map_map]
    case comma =>
      intro item hitem
      obtain ⟨e, he, rfl⟩ := List.mem_map.mp hitem
      exact (h e he).comma_notMem
    case nonempty => simp [hentries]
    have htrim : s.entries.map (trim ∘ spelling) = s.entries.map spelling :=
      List.map_congr_left fun e he => (h e he).trim_spelling
    rw [htrim, List.filter_eq_self]
    intro item hitem
    obtain ⟨e, he, rfl⟩ := List.mem_map.mp hitem
    simp [spelling]

theorem Clean.parse_render (h : s.Clean) : parse s.render = .ok s := by
  refine parse_eq_ok_iff.mpr ⟨s.entries, ?_, ?_⟩
  · rw [itemsOf_render h.entry, List.map_map]
    exact List.map_congr_left fun e he => (h.entry e he).readItem_spelling
  · have hentries : (empty.insertAll s.entries).entries = s.entries :=
      entries_insertAll empty s.sorted
    exact eq_of_entries_eq (h.name_eq.trans (name_insertAll empty).symm)
      (h.parent_eq.trans (parent_insertAll empty).symm) hentries.symm

end Writing

/-- A source is read back from its record exactly if it has neither a name nor a parent and all
its entries are clean, and all that is read is. -/
theorem reads_back_iff :
    (∀ s : Source, (∃ t, parse s.render = .ok t ∧ t.same s) ↔ s.Clean) ∧
    ∀ text s, parse text = .ok s → s.Clean ∧ parse s.render = .ok s := by
  constructor
  · intro s
    constructor
    · rintro ⟨t, hparse, hsame⟩
      obtain rfl := same_iff.mp hsame
      exact clean_of_parse hparse
    · intro hclean
      exact ⟨s, hclean.parse_render, same_iff.mpr rfl⟩
  · intro text s hparse
    have hclean := clean_of_parse hparse
    exact ⟨hclean, hclean.parse_render⟩

/-- Blanks, an empty item and an older value of a key are gone after the first reading. A key
with a colon is read back as another key. -/
theorem reads_back_iff_repeated_key :
    parse " RAD : SE50,, WMO:02606 ,RAD:SE:51" =
      .ok (empty.insertAll [("RAD", "SE50"), ("WMO", "02606"), ("RAD", "SE:51")]) ∧
    (empty.insertAll [("RAD", "SE50"), ("WMO", "02606"), ("RAD", "SE:51")]).render =
      "RAD:SE:51,WMO:02606" ∧
    parse "RAD:SE:51,WMO:02606" =
      .ok (empty.insertAll [("RAD", "SE50"), ("WMO", "02606"), ("RAD", "SE:51")]) ∧
    ¬∃ t, parse (empty.insert "RAD:SE" "51").render = .ok t ∧
      t.same (empty.insert "RAD:SE" "51") := by
  have hparse : parse " RAD : SE50,, WMO:02606 ,RAD:SE:51" =
      .ok (empty.insertAll [("RAD", "SE50"), ("WMO", "02606"), ("RAD", "SE:51")]) :=
    parse_eq_ok_iff.mpr ⟨_, by decide +kernel, rfl⟩
  have hrender : (empty.insertAll [("RAD", "SE50"), ("WMO", "02606"), ("RAD", "SE:51")]).render =
      "RAD:SE:51,WMO:02606" := by
    decide +kernel
  refine ⟨hparse, hrender, ?_, ?_⟩
  · rw [← hrender]
    exact (reads_back_iff.2 _ _ hparse).2
  · rw [reads_back_iff.1]
    intro hclean
    exact (hclean.entry ("RAD:SE", "51") (List.mem_cons_self ..)).key_colon (by decide)

end RadarQuery.Source
