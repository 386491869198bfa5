import Showcase.Proofs.Registry.Reach
import Showcase.Proofs.Remaining

/-!
# The two cuts of a deletion

A deletion cuts a record and an import out of one text, each with the offsets of
the old text.  The two cuts only meet where the import statement itself runs
into what goes with the record (`delete_cuts`).
-/

namespace Showcase

/-! ## Deletions -/

namespace Catalogue

open Files Registry

variable {catalogue : Catalogue} {tree : Tree}

/-- A deletion that writes the registry replaces the region of the record and,
unless another record needs it, the whole lines of the import.  The two regions
are apart exactly if the import statement does not run into what goes with the
record, and then exactly these two are replaced. -/
theorem delete_cuts (named : tree.Named) (proper : catalogue.registry.Proper)
    {id : Json} (changed : (catalogue.delete tree id).2 ≠ tree) :
    ∃ ids text removal written doc record statement span filler reach,
      checkId id = .ok ids ∧ catalogue.readRegistry tree = .ok text ∧
      remove text catalogue.listName ids = .ok removal ∧
      tree.writeText catalogue.registry removal.text = (.ok (), written) ∧
      scan text catalogue.listName = .ok doc ∧ doc.recordOf ids = .ok record ∧
      doc.companionImport? record = some statement ∧
      recordCut doc record = .ok (span, filler) ∧ doc.reach? record = some reach ∧
      (removal.shared = true →
        removal.text = text.take span.start ++ filler ++ text.drop span.stop) ∧
      (removal.shared = false →
        ∃ lines, wholeLines text statement.span = .ok lines ∧
        (lines.Apart span ↔ statement.span.Apart reach) ∧
        (lines.Apart span → SplicesBoth text lines [] span filler removal.text ∨
          SplicesBoth text span filler lines [] removal.text)) := by
  rcases delete_unchanged_or_wrote named proper id with
    ⟨failure, unchanged⟩ | ⟨ids, removal, written, asks, wrote⟩
  · exact absurd (by rw [unchanged]) changed
  obtain ⟨text, read, removed⟩ := asks.edit
  obtain ⟨doc, found, record, statement, scanned, isId, isRecord, companion,
      cut, -, shared⟩ :=
    exists_of_remove removed
  obtain ⟨front, opener, chunks, closer, back, tokenized, -⟩ :=
    exists_located scanned
  have lexed := tokenize_eq_ok_iff.1 tokenized
  have text_eq := text_of_scan scanned
  obtain ⟨before, after, is, is', removable⟩ := exists_removable isRecord companion
  have mem : record ∈ doc.records := by simp [removable.records]
  have mem' : statement ∈ doc.imports := by simp [removable.imports]
  obtain ⟨⟨span, filler⟩, recordCut_eq, -⟩ := bind_eq_ok_iff.1 cut
  obtain ⟨reach, isReach, covers, widened⟩ :=
    exists_widened_of_recordCut scanned tokenized mem recordCut_eq
  have ordered : span.start < span.stop := by
    have := covers.ordered lexed
    have := widened.start_le
    have := widened.le_stop
    omega
  refine ⟨ids, text, removal, written, doc, record, statement, span, filler,
    reach, asks.accepted, read,
    removed, wrote, scanned, recordOf_eq_ok_iff.2 ⟨found, isId, isRecord⟩,
    companion, recordCut_eq, isReach, fun isShared => ?_, fun alone => ?_⟩
  · rw [← shared, isShared] at cut
    have made : cutText doc record statement true = _ :=
      cutText_shared (Nat.le_of_lt ordered) (text_eq ▸ widened.inside) recordCut_eq
    rw [text_eq] at made
    exact Except.ok.inj (cut.symm.trans made)
  · have covers' := covers_import scanned tokenized mem'
    obtain ⟨lines, isLines, widened'⟩ := covers'.exists_widened lexed
    have ordered' : lines.start < lines.stop := by
      have := covers'.ordered lexed
      have := widened'.start_le
      have := widened'.le_stop
      omega
    refine ⟨lines, isLines, widened'.apart_iff lexed widened covers' covers,
      fun apart => ?_⟩
    rw [← text_eq] at isLines
    obtain ⟨new, made, both⟩ :=
      cutText_alone isLines recordCut_eq apart ordered' ordered
      (text_eq ▸ widened'.inside) (text_eq ▸ widened.inside)
    rw [← shared, alone] at cut
    obtain rfl := Except.ok.inj (cut.symm.trans made)
    rwa [text_eq] at both

private theorem ne_aloneTree {text new : Text} {after : Tree}
    (differs : new ≠ text)
    (replaced : (aloneTree text).Replaced ["index.ts".toList] new after) :
    after ≠ aloneTree text := by
  rintro rfl
  have old := readRegistry_alone text
  rw [readRegistry_eq (replaceable_alone text),
    replaced.readText_eq (replaceable_alone text)] at old
  exact differs (Except.ok.inj old)

theorem delete_cuts_twoRecords :
    (aloneTree twoRecords).Named ∧ alone.registry.Proper ∧
      (alone.delete (aloneTree twoRecords) (.ofString "a")).2 ≠
        aloneTree twoRecords ∧
      ∃ removal reach span filler lines,
        remove twoRecords alone.listName (toPoints "a".toList) = .ok removal ∧
        recordCut twoRecordsDocument twoRecordsFirst = .ok (span, filler) ∧
        twoRecordsDocument.reach? twoRecordsFirst = some reach ∧
        removal.shared = false ∧ twoRecordsImport.span.Apart reach ∧
        wholeLines twoRecords twoRecordsImport.span = .ok lines ∧ lines.Apart span ∧
        (SplicesBoth twoRecords lines [] span filler removal.text ∨
          SplicesBoth twoRecords span filler lines [] removal.text) := by
  obtain ⟨after, deleted, replaced⟩ :=
    delete_of_not_relative remove_twoRecords (by decide)
  have changed : (alone.delete (aloneTree twoRecords) (.ofString "a")).2 ≠
      aloneTree twoRecords := by
    rw [deleted]
    exact ne_aloneTree (by decide) replaced
  obtain ⟨ids, text, removal, written, doc, record, statement, span, filler,
    reach, isId, read, removed, -,
    scanned, isRecord, companion, cut, isReach, -, alone'⟩ :=
    delete_cuts (named_aloneTree twoRecords) proper_alone changed
  obtain rfl : ids = toPoints "a".toList :=
    Except.ok.inj (isId.symm.trans
      (by decide : checkId (.ofString "a") = .ok (toPoints "a".toList)))
  obtain rfl : text = twoRecords :=
    Except.ok.inj (read.symm.trans (readRegistry_alone twoRecords))
  obtain rfl := Except.ok.inj (removed.symm.trans remove_twoRecords)
  obtain rfl := Except.ok.inj (scanned.symm.trans scan_twoRecords)
  obtain rfl : record = twoRecordsFirst :=
    Except.ok.inj (isRecord.symm.trans (by decide))
  obtain rfl : statement = twoRecordsImport :=
    Option.some.inj (companion.symm.trans (by decide))
  obtain rfl : reach = ⟨34, 55⟩ := Option.some.inj (isReach.symm.trans (by decide))
  have apart : twoRecordsImport.span.Apart ⟨34, 55⟩ := .inl (by decide)
  obtain ⟨lines, isLines, sameApart, both⟩ := alone' rfl
  have apart' := sameApart.2 apart
  exact ⟨named_aloneTree _, proper_alone, changed, _, _, span, filler, lines,
    removed, cut, isReach, rfl, apart, isLines, apart', both apart'⟩

/-! ## An import statement that runs into the list -/

/-- The clause of the import goes on up to the string in the record. -/
def overlapping : Text :=
  ("import A const versions=[\x7bid:'a',component:A\x7d];" ++
    "                   const versions=[]").toList

def overlappingImport : Import :=
  ⟨⟨0, 32⟩, ['a'], none, [['A'], "const".toList, "versions".toList, "id".toList]⟩

def overlappingRecord : Record :=
  ⟨⟨25, 45⟩, [⟨"id".toList, .string ['a'] '\'', ⟨29, 32⟩⟩,
    ⟨"component".toList, .name ['A'], ⟨43, 44⟩⟩], none, none⟩

def overlappingDocument : Document :=
  ⟨overlapping, ⟨24, 46⟩, [overlappingImport], [overlappingRecord], 1, false⟩

/-- The two regions overlap, and the second cut takes characters that belong to
neither. -/
theorem delete_overlapping : ∃ after,
    scan overlapping alone.listName = .ok overlappingDocument ∧
      overlappingDocument.recordOf (toPoints "a".toList) = .ok overlappingRecord ∧
      overlappingDocument.companionImport? overlappingRecord =
        some overlappingImport ∧
      recordCut overlappingDocument overlappingRecord =
        .ok (⟨24, 46⟩, "[]".toList) ∧
      wholeLines overlapping overlappingImport.span = .ok ⟨0, 32⟩ ∧
      ¬Span.Apart ⟨0, 32⟩ ⟨24, 46⟩ ∧
      alone.delete (aloneTree overlapping) (.ofString "a") =
        (.ok ⟨toPoints "a".toList, true, false⟩, after) ∧
      (aloneTree overlapping).Replaced ["index.ts".toList]
        "              const versions=[]".toList after := by
  have removed : remove overlapping alone.listName (toPoints "a".toList) =
      .ok ⟨"              const versions=[]".toList, ['a'], false⟩ := by
        decide +kernel
  have apart : ¬Span.Apart ⟨0, 32⟩ ⟨24, 46⟩ := by
    rintro (le | le) <;> exact absurd le (by decide)
  obtain ⟨after, deleted, replaced⟩ := delete_of_not_relative removed (by decide)
  exact ⟨after, by decide +kernel, by decide, by decide, by decide,
    by decide +kernel, apart, deleted, replaced⟩

end Catalogue

end Showcase
