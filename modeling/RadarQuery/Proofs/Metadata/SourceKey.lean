import RadarQuery.Proofs.Metadata.Record
import RadarQuery.Proofs.Metadata.Selection

/-!
References by source key. A path that names a source attribute and a key reads the one
record that this attribute holds, and of it one item: the last that sets the key. Whether the
record can be read comes first, so an item without a colon makes every key fail.
-/

namespace RadarQuery.Metadata

open Text Source

def keyPath (slashes : ℕ) (holder key : String) : String :=
  String.ofList (List.replicate slashes '/') ++ holder ++ ":" ++ key

section Path

variable {holder : String}

theorem dropWhile_keyPath (h : holder ∈ sourceAttributes) (slashes : ℕ) (key : String) :
    (keyPath slashes holder key).toList.dropWhile (· == '/') =
      holder.toList ++ ':' :: key.toList := by
  have hslashes : ∀ c ∈ List.replicate slashes '/', (c == '/') = true := by
    intro c hc
    rw [List.eq_of_mem_replicate hc]
    rfl
  have hpath : (keyPath slashes holder key).toList =
      List.replicate slashes '/' ++ (holder.toList ++ ':' :: key.toList) := by
    simp [keyPath]
  rw [hpath, List.dropWhile_append_of_pos hslashes]
  rcases List.mem_pair.mp h with rfl | rfl <;> rfl

theorem sourceKey?_keyPath (h : holder ∈ sourceAttributes) (slashes : ℕ) (key : String) :
    sourceKey? (keyPath slashes holder key) = some (holder, key) := by
  have hdrop : dropStart? (holder.toList ++ [':']) (holder.toList ++ ':' :: key.toList) =
      some key.toList := by
    rw [dropStart?_eq_some_iff, List.append_assoc, List.singleton_append]
  simp only [sourceKey?, dropWhile_keyPath h, sourceAttributes, List.findSome?_cons]
  rcases List.mem_pair.mp h with rfl | rfl
  · rw [hdrop]
    simp
  · have hother : dropStart? ("what/source".toList ++ [':'])
        ("_bdb/source".toList ++ ':' :: key.toList) = none := rfl
    rw [hother, hdrop]
    simp

end Path

section Key

variable {m : Metadata} {holder key text : String} {wanted : ScalarType}

theorem resolve_keyPath (h : holder ∈ sourceAttributes) (slashes : ℕ) :
    m.resolve (keyPath slashes holder key) wanted = m.resolveKey holder key wanted := by
  rw [resolve, sourceKey?_keyPath h]

theorem text?_eq_some_iff : m.text? holder = some text ↔ m.value? holder = some (.text text) := by
  rw [text?, Option.bind_eq_some_iff]
  constructor
  · rintro ⟨value, hvalue, htext⟩
    cases value with
    | text s => exact (Option.some.inj htext) ▸ hvalue
    | long => cases htext
    | double => cases htext
  · intro h
    exact ⟨_, h, rfl⟩

theorem resolveKey_of_absent (h : ∀ text, m.value? holder ≠ some (.text text)) :
    m.resolveKey holder key wanted = .ok [] := by
  have htext : m.text? holder = none := by
    rw [Option.eq_none_iff_forall_ne_some]
    exact fun text htext => h text (text?_eq_some_iff.mp htext)
  rw [resolveKey, htext]

theorem resolveKey_of_error {cause : SourceError} (h : m.value? holder = some (.text text))
    (hparse : Source.parse text = .error cause) :
    m.resolveKey holder key wanted =
      .error (.invalidArgument (.malformedSource holder cause)) := by
  rw [resolveKey, text?_eq_some_iff.mpr h]
  simp only [hparse]

theorem resolveKey_of_ok {s : Source} (h : m.value? holder = some (.text text))
    (hparse : Source.parse text = .ok s) : m.resolveKey holder key wanted =
      ((s.get? key).elim (.ok []) fun value =>
        (wanted.coerce (.text value)).map fun e => [e]) := by
  rw [resolveKey, text?_eq_some_iff.mpr h]
  simp only [hparse]
  cases s.get? key <;> rfl

theorem length_le_one_of_resolveKey {values : List Expr}
    (h : m.resolveKey holder key wanted = .ok values) : values.length ≤ 1 := by
  unfold resolveKey at h
  split at h
  case h_1 =>
    cases h
    exact Nat.zero_le 1
  case h_2 =>
    split at h
    case h_1 => cases h
    case h_2 =>
      split at h
      case h_1 =>
        cases h
        exact Nat.zero_le 1
      case h_2 value _ =>
        cases hvalue : wanted.coerce (.text value) with
        | error cause =>
          rw [hvalue] at h
          cases h
        | ok e =>
          rw [hvalue] at h
          cases h
          exact Nat.le_refl 1

theorem coerce_cases (wanted : ScalarType) (value : Scalar) :
    (∃ e, wanted.coerce value = .ok e) ∨
      wanted.coerce value = .error (.typeError (.attributeValue value wanted)) := by
  unfold ScalarType.coerce
  split
  · exact Or.inl ⟨_, rfl⟩
  · exact Or.inr rfl

end Key

/-- A path that names a source attribute and a key has no values if there is no such attribute
or it holds no text. If it does, the record is refused for its first item without a colon,
whatever the key. Otherwise the value is that of the last item that sets the key, read as the
type; without such an item there is none. So there is never more than one value, and nothing
but the attribute counts. -/
theorem resolve_key (m : Metadata) (slashes : ℕ) {holder : String}
    (h : holder ∈ ["what/source", "_bdb/source"]) (key : String) (wanted : ScalarType) :
    ((∀ text, m.value? holder ≠ some (.text text)) →
      m.resolve (keyPath slashes holder key) wanted = .ok []) ∧
    (∀ text, m.value? holder = some (.text text) →
      (∀ before item rest, itemsOf text.toList = before ++ item :: rest →
        (∀ other ∈ before, ':' ∈ other) → ':' ∉ item →
        m.resolve (keyPath slashes holder key) wanted =
          .error (.invalidArgument
            (.malformedSource holder (.malformedItem (String.ofList item))))) ∧
      ((∀ item ∈ itemsOf text.toList, ':' ∈ item) →
        ((∀ item ∈ itemsOf text.toList, ∀ value, ¬Sets item key value) →
          m.resolve (keyPath slashes holder key) wanted = .ok []) ∧
        ∀ before item rest value, itemsOf text.toList = before ++ item :: rest →
          Sets item key value → (∀ other ∈ rest, ∀ value, ¬Sets other key value) →
          (∃ e, wanted.coerce (.text value) = .ok e ∧
            m.resolve (keyPath slashes holder key) wanted = .ok [e]) ∨
          ∃ fault, wanted.coerce (.text value) = .error (.typeError fault) ∧
            m.resolve (keyPath slashes holder key) wanted = .error (.typeError fault))) ∧
    (∀ values, m.resolve (keyPath slashes holder key) wanted = .ok values → values.length ≤ 1) ∧
    ∀ m' : Metadata, m'.value? holder = m.value? holder →
      m'.resolve (keyPath slashes holder key) wanted =
        m.resolve (keyPath slashes holder key) wanted := by
  have hresolve : ∀ m : Metadata, m.resolve (keyPath slashes holder key) wanted =
      m.resolveKey holder key wanted := fun m => resolve_keyPath h slashes
  simp only [hresolve]
  refine ⟨resolveKey_of_absent, ?_, fun _ => length_le_one_of_resolveKey, ?_⟩
  · intro text htext
    refine ⟨?_, fun hcolons => ?_⟩
    · intro before item rest hitems hbefore hitem
      exact resolveKey_of_error htext
        (parse_eq_error_iff.mpr ⟨before, item, rest, hitems, hbefore, hitem, rfl⟩)
    · obtain ⟨s, hparse⟩ : ∃ s, Source.parse text = .ok s := by
        rw [← not_exists_error_iff]
        rintro ⟨cause, hcause⟩
        obtain ⟨before, item, rest, hitems, -, hitem, -⟩ := parse_eq_error_iff.mp hcause
        exact hitem (hcolons item (by simp [hitems]))
      rw [resolveKey_of_ok htext hparse]
      constructor
      · intro hnone
        rw [get?_eq_none_of_parse hparse hnone]
        rfl
      · intro before item rest value hitems hitem hrest
        rw [get?_eq_some_of_parse hparse hitems hitem hrest, Option.elim_some]
        rcases coerce_cases wanted (.text value) with ⟨e, he⟩ | herror
        · exact Or.inl ⟨e, he, by rw [he]; rfl⟩
        · exact Or.inr ⟨_, herror, by rw [herror]; rfl⟩
  · intro m' hvalue
    simp only [resolveKey, text?, hvalue]

def twoRecords : List Insertion :=
  [.group "/" "what", .leaf "/what/source" (.text "RAD:1, WMO:02606,, RAD : SE:51"),
    .group "/" "_bdb", .leaf "/_bdb/source" (.text "WMO:02606, NOD ")]

/-- The last value of the key is a text but no number. In the other record no key is found. -/
theorem resolve_key_twoRecords :
    (after twoRecords).resolve "//what/source:RAD" .string = .ok [.text "SE:51"] ∧
    (after twoRecords).resolve "what/source:RAD" .long =
      .error (.typeError (.attributeValue (.text "SE:51") .long)) ∧
    (after twoRecords).resolve "/_bdb/source:WMO" .long =
      .error (.invalidArgument (.malformedSource "_bdb/source" (.malformedItem "NOD"))) := by
  have hwhat : (after twoRecords).value? "what/source" =
      some (.text "RAD:1, WMO:02606,, RAD : SE:51") := by
    decide +kernel
  have hbdb : (after twoRecords).value? "_bdb/source" = some (.text "WMO:02606, NOD ") := by
    decide +kernel
  have hitems : itemsOf "RAD:1, WMO:02606,, RAD : SE:51".toList =
      ["RAD:1".toList, "WMO:02606".toList] ++ "RAD : SE:51".toList :: [] := by
    decide +kernel
  have hlast : Sets "RAD : SE:51".toList "RAD" "SE:51" :=
    ⟨"RAD ".toList, " SE:51".toList, by decide, by decide, by decide, by decide⟩
  have hcolons : ∀ item ∈ itemsOf "RAD:1, WMO:02606,, RAD : SE:51".toList, ':' ∈ item := by
    rw [hitems]
    decide
  obtain ⟨-, htext, -⟩ := resolve_key (after twoRecords) 2 (show "what/source" ∈ _ by simp)
    "RAD" .string
  obtain ⟨-, hlong, -⟩ := resolve_key (after twoRecords) 0 (show "what/source" ∈ _ by simp)
    "RAD" .long
  obtain ⟨-, hother, -⟩ := resolve_key (after twoRecords) 1 (show "_bdb/source" ∈ _ by simp)
    "WMO" .long
  refine ⟨?_, ?_, ?_⟩
  · rcases ((htext _ hwhat).2 hcolons).2 _ _ _ _ hitems hlast (by simp) with
      ⟨e, he, hresolve⟩ | ⟨fault, hfault, -⟩
    · cases he
      exact hresolve
    · cases hfault
  · rcases ((hlong _ hwhat).2 hcolons).2 _ _ _ _ hitems hlast (by simp) with
      ⟨e, he, -⟩ | ⟨fault, hfault, hresolve⟩
    · cases he
    · cases hfault
      exact hresolve
  · exact (hother _ hbdb).1 ["WMO:02606".toList] "NOD".toList [] (by decide +kernel) (by decide)
      (by decide)

end RadarQuery.Metadata
