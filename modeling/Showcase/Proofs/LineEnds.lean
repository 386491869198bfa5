import Showcase.Proofs.Registry.LineEndEdits
import Showcase.Proofs.Remaining

/-!
# Registries with the other line ends

A change or a deletion of a version does the same to a registry with either line
ends (`edits_crlf`), unless a deletion brings a slash before another slash or a
star: the comment that starts there ends at other characters (`delete_slashed`).
-/

namespace Showcase

open Files Registry

namespace Catalogue

/-- What a call does to a registry and to one with the other line ends: it fails
for both and changes nothing, or leaves both as they are, or what it writes into
the one it writes into the other with the other line ends. -/
inductive Commutes {α : Type} (tree tree' : Tree) (place place' : Place) :
    Outcome α → Outcome α → Prop where
  | failed (failure failure' : Failure) :
      Commutes tree tree' place place' (.error failure, tree) (.error failure',
        tree')
  | kept (answer : α) : Commutes tree tree' place place' (.ok answer,
      tree) (.ok answer, tree')
  | wrote (answer : α) {new : Text} {after after' : Tree} (replaced :
      tree.Replaced place new after)
      (replaced' : tree'.Replaced place' (crlf new) after') :
      Commutes tree tree' place place' (.ok answer, after) (.ok answer, after')

/-- What a deletion comes to when the registry has been written. -/
def concluded (catalogue : Catalogue) (ids : List CodePoint) (removal : Removal)
    (written : Tree) :
    Outcome Deletion :=
  let (answer, after) := catalogue.removeCompanion written removal
  (answer.map (⟨ids, true, ·⟩), after)

section Edits

variable {catalogue : Catalogue} {tree tree' : Tree} {place place' : Place}
  {text : Text}

private theorem change_crlf
    (replaceable : tree.Replaceable catalogue.registry place)
    (replaceable' : tree'.Replaceable catalogue.registry place')
    (read : catalogue.readRegistry tree = .ok text)
    (read' : catalogue.readRegistry tree' = .ok (crlf text))
    (oneLine : OneLineLiterals text) (id : Json) (change : Change) :
    Commutes tree tree' place place' (change.run catalogue tree id)
      (change.run catalogue tree' id) := by
  rw [change.run_eq, change.run_eq]
  cases checkId id with
  | error failure => exact .failed failure failure
  | ok ids =>
      cases change.value with
      | error failure => exact .failed failure failure
      | ok points =>
          simp only [ok_bind, map_ok, setField_eq read, setField_eq read']
          rcases setField_crlf oneLine catalogue.listName ids
            change.field points with
            ⟨failure, failure', edit, edit'⟩ | ⟨new?, edit, edit'⟩
          · rw [edit, edit']
            exact .failed failure failure'
          · rw [edit, edit']
            cases new? with
            | none => exact .kept points
            | some new =>
                obtain ⟨after, wrote, replaced⟩ := replaceable.writeText_eq new
                obtain ⟨after', wrote', replaced'⟩ :=
                  replaceable'.writeText_eq (crlf new)
                rw [Tree.writeText] at wrote wrote'
                simp only [Option.map_some, wrote, wrote', map_ok]
                exact .wrote points replaced replaced'

/-- A change or a deletion of a version does the same to a registry with either
line ends. -/
theorem edits_crlf (replaceable : tree.Replaceable catalogue.registry place)
    (replaceable' : tree'.Replaceable catalogue.registry place')
    (read : catalogue.readRegistry tree = .ok text)
    (read' : catalogue.readRegistry tree' = .ok (crlf text))
    (noReturn : '\r' ∉ text) (oneLine : OneLineLiterals text)
    (ahead : ImportsAhead text catalogue.listName) (id : Json) :
    (∀ change : Change,
      Commutes tree tree' place place' (change.run catalogue tree id)
        (change.run catalogue tree' id)) ∧
      ((∀ ids, checkId id = .ok ids → JoinsNoSlash text catalogue.listName ids) →
        (∃ failure failure', catalogue.delete tree id = (.error failure, tree) ∧
            catalogue.delete tree' id = (.error failure', tree')) ∨
          ∃ ids removal written written', catalogue.Asks tree id ids removal ∧
            catalogue.Asks tree' id ids removal.crlf ∧
            tree.Replaced place removal.text written ∧
            tree'.Replaced place' (crlf removal.text) written' ∧
            catalogue.delete tree id = catalogue.concluded ids removal written ∧
            catalogue.delete tree' id =
              catalogue.concluded ids removal written') := by
  refine ⟨change_crlf replaceable replaceable' read read' oneLine id,
    fun joins => ?_⟩
  cases accepted : checkId id with
  | error failure =>
      refine .inl ⟨failure, failure, ?_, ?_⟩
      · simp only [delete, accepted]
        rfl
      · simp only [delete, accepted]
        rfl
  | ok ids =>
      rcases toOption_eq_map_iff.1
        (remove_crlf noReturn oneLine ahead (joins ids accepted)) with
        ⟨failure, failure', removed, removed'⟩ | ⟨removal, removed, removed'⟩
      · refine .inl ⟨failure, failure', ?_, ?_⟩
        · simp only [delete, accepted, read, ok_bind, removed]
          rfl
        · simp only [delete, accepted, read', ok_bind, removed']
          rfl
      · have asks : catalogue.Asks tree id ids removal :=
          ⟨accepted, text, read, removed⟩
        have asks' : catalogue.Asks tree' id ids removal.crlf :=
          ⟨accepted, crlf text, read', removed'⟩
        obtain ⟨written, wrote, replaced⟩ := replaceable.writeText_eq removal.text
        obtain ⟨written', wrote', replaced'⟩ :=
          replaceable'.writeText_eq removal.crlf.text
        refine .inr ⟨ids, removal, written, written', asks, asks', replaced,
          replaced', ?_, ?_⟩
        · rw [delete_eq_of_asks asks, wrote]
          rfl
        · rw [delete_eq_of_asks asks', wrote']
          rfl

end Edits

private theorem oneLineLiterals_twoRecords : OneLineLiterals twoRecords := by
  intro tokens tokenized
  obtain rfl := Except.ok.inj (tokenized.symm.trans tokenize_twoRecords)
  decide

private theorem importsAhead_twoRecords :
    ImportsAhead twoRecords defaultListName := by
  intro doc scanned
  obtain rfl := Except.ok.inj (scanned.symm.trans scan_twoRecords)
  decide

private theorem joinsNoSlash_twoRecords (ids : List CodePoint) :
    JoinsNoSlash twoRecords defaultListName ids := by
  intro tokens doc record statement tokenized _ _ _
  obtain rfl := Except.ok.inj (tokenized.symm.trans tokenize_twoRecords)
  have noSlash : ∀ t ∈ twoRecordsTokens.tokens, t.text ≠ ['/'] := by decide
  exact ⟨fun _ _ t mem slash => absurd slash (noSlash t mem),
    fun _ _ _ t mem slash => absurd slash (noSlash t mem)⟩

theorem edits_crlf_twoRecords :
    (aloneTree twoRecords).Replaceable alone.registry ["index.ts".toList] ∧
      (aloneTree (crlf twoRecords)).Replaceable alone.registry ["index.ts".toList] ∧
      alone.readRegistry (aloneTree twoRecords) = .ok twoRecords ∧
      alone.readRegistry (aloneTree (crlf twoRecords)) = .ok (crlf twoRecords) ∧
      '\r' ∉ twoRecords ∧ OneLineLiterals twoRecords ∧
      ImportsAhead twoRecords alone.listName ∧
      (∀ ids, checkId (.ofString "a") = .ok ids →
        JoinsNoSlash twoRecords alone.listName ids) ∧
      (∀ change : Change,
        Commutes (aloneTree twoRecords) (aloneTree (crlf twoRecords))
        ["index.ts".toList] ["index.ts".toList]
        (change.run alone (aloneTree twoRecords) (.ofString "a"))
        (change.run alone (aloneTree (crlf twoRecords)) (.ofString "a"))) ∧
      ∃ ids removal written written',
        alone.Asks (aloneTree twoRecords) (.ofString "a") ids removal ∧
        alone.Asks (aloneTree (crlf twoRecords)) (.ofString "a") ids removal.crlf ∧
        (aloneTree twoRecords).Replaced ["index.ts".toList] removal.text written ∧
        (aloneTree (crlf twoRecords)).Replaced ["index.ts".toList]
          (crlf removal.text) written' ∧
        alone.delete (aloneTree twoRecords) (.ofString "a") =
          alone.concluded ids removal written ∧
        alone.delete (aloneTree (crlf twoRecords)) (.ofString "a") =
          alone.concluded ids removal written' := by
  obtain ⟨changes, deletion⟩ := edits_crlf (replaceable_alone twoRecords)
    (replaceable_alone (crlf twoRecords)) (readRegistry_alone twoRecords)
    (readRegistry_alone (crlf twoRecords)) (by decide) oneLineLiterals_twoRecords
    importsAhead_twoRecords (.ofString "a")
  obtain ⟨after, deleted, -⟩ := delete_of_not_relative remove_twoRecords (by decide)
  refine ⟨replaceable_alone _, replaceable_alone _, readRegistry_alone _,
    readRegistry_alone _, by decide,
    oneLineLiterals_twoRecords, importsAhead_twoRecords, fun ids _ =>
      joinsNoSlash_twoRecords ids, changes,
    (deletion fun ids _ => joinsNoSlash_twoRecords ids).resolve_left ?_⟩
  rintro ⟨failure, -, failed, -⟩
  simp [deleted] at failed

/-! ## A slash before a comment -/

/-- Behind the record stands a comment, and before its comma a slash. -/
def slashed : Text :=
  ("import A from 'a'\nconst versions=[ /,\x7bid:'a',component:A\x7d/**/]" ++
    " ; [ /*\n\"\\\n\" */ ]").toList

/-- The comment that starts at the slash takes in the end of the list, and what
stood in a comment behind it is read: a literal that goes on behind a backslash
if the line ends with a line feed only. -/
theorem delete_slashed : ∃ after,
    '\r' ∉ slashed ∧ OneLineLiterals slashed ∧ ImportsAhead slashed alone.listName ∧
      alone.delete (aloneTree slashed) (.ofString "a") =
        (.ok ⟨toPoints "a".toList, true, false⟩, after) ∧
      (aloneTree slashed).Replaced ["index.ts".toList]
        "const versions=[ //**/] ; [ /*\n\"\\\n\" */ ]".toList after ∧
      alone.delete (aloneTree (crlf slashed)) (.ofString "a") =
        (.error (.registry .unterminatedString), aloneTree (crlf slashed)) := by
  have removed : remove slashed alone.listName (toPoints "a".toList) =
      .ok ⟨"const versions=[ //**/] ; [ /*\n\"\\\n\" */ ]".toList, ['a'],
        false⟩ := by decide +kernel
  have failed : remove (crlf slashed) alone.listName (toPoints "a".toList) =
      .error (.registry .unterminatedString) := by decide +kernel
  have accepted : checkId (.ofString "a") = .ok (toPoints "a".toList) := by decide
  have oneLine : (tokenize slashed).toOption.any
      (fun tokens => tokens.all fun t => t.kind != .string ||
        !t.rest.contains '\n') = true := by
    decide +kernel
  have ahead : (scan slashed alone.listName).toOption.any
      (fun doc => doc.imports.all fun i => i.span.stop ≤ doc.listSpan.start) =
        true := by decide +kernel
  obtain ⟨after, deleted, replaced⟩ := delete_of_not_relative removed (by decide)
  refine ⟨after, by decide, ?_, ?_, deleted, replaced, ?_⟩
  · intro tokens tokenized t mem string
    simp only [tokenized, Except.toOption, Option.any_some, List.all_eq_true]
      at oneLine
    simpa [string] using oneLine t mem
  · intro doc scanned i mem
    simp only [scanned, Except.toOption, Option.any_some, List.all_eq_true] at ahead
    simpa using ahead i mem
  · simp only [delete, accepted, readRegistry_alone, ok_bind, failed]
    rfl

end Catalogue

end Showcase
