import Showcase.Proofs.Registry.LineEndRegions
import Showcase.Proofs.Registry.Reach
import Showcase.Proofs.Registry.Validity

/-!
# Edits of texts with the other line ends

A field is written into a text with the other line ends exactly if it is written
into the text, and a record is removed from it exactly if it is removed from the
text; what is written is the same with the other line ends (`setField_crlf`,
`remove_crlf`).  For a removal, this needs that it brings no slash before
another slash or a star: what such a comment takes in depends on the line ends.
-/

namespace Showcase.Registry

section Moved

variable {text text' listName : Text} {doc : Document} {record : Record}

private theorem Document.recordOf_moved (move : Span → Span) (new : Text)
    (doc : Document) (ids : List CodePoint) :
    (doc.moved move new).recordOf ids =
      (doc.recordOf ids).map (Record.moved move) := by
  unfold Document.recordOf
  cases scalars? ids with
  | none => rfl
  | some id =>
      dsimp only
      rw [Document.record, Document.record, Document.find_moved]
      cases doc.find id <;> rfl

private theorem isRemoval_moved (move move' : Span → Span) (new new' : Text)
    (before after : Document) (id source : Text) (shared : Bool) :
    isRemoval (before.moved move new) (after.moved move' new') id source shared =
      isRemoval before after id source shared := by
  simp only [isRemoval, Document.moved, List.length_map, List.all_map,
    Function.comp_def, Record.id?_moved, Import.moved]

private theorem isShared_moved {move : Span → Span}
    (scanned : scan text listName = .ok doc)
    (scanned' : scan text' listName = .ok (doc.moved move text'))
    (mem : record ∈ doc.records) :
    isShared (doc.moved move text') (record.moved move) = isShared doc record := by
  obtain ⟨before, after, records⟩ := List.append_of_mem mem
  have records' : (doc.moved move text').records =
      before.map (Record.moved move) ++ record.moved move ::
        after.map (Record.moved move) := by
    simp [Document.moved, records]
  rw [isShared_eq scanned records, isShared_eq scanned' records',
    ← List.map_append, List.any_map]
  simp only [Function.comp_def, Record.value?_moved]

end Moved

/-! ## Writing a field -/

section Texts

variable {text listName : Text} {tokens ts : List Token} {doc : Document}

theorem OneLineLiterals.of_bare {new : Text} (oneLine : OneLineLiterals text)
    (tokenized : tokenize text = .ok tokens)
    (tokenized' : tokenize new = .ok ts)
    (among : ∀ t ∈ ts, t.bare ∈ bare tokens ∨ '\n' ∉ t.rest) :
    OneLineLiterals new := by
  intro ts' again t mem string
  obtain rfl := Except.ok.inj (tokenized'.symm.trans again)
  rcases among t mem with old | inLine
  · obtain ⟨u, mem', same⟩ := List.mem_map.1 old
    rw [← Token.bare_kind, ← same, Token.bare_kind] at string
    rw [← Token.bare_rest, ← same, Token.bare_rest]
    exact oneLine tokens tokenized u mem' string
  · exact inLine

private theorem OneLineLiterals.of_subset {new : Text} {us : List Token}
    (oneLine : OneLineLiterals text) (tokenized : tokenize text = .ok tokens)
    (lexed : Lexed 0 new ts none) (same : bare ts = bare us)
    (within : us ⊆ tokens) : OneLineLiterals new := by
  refine oneLine.of_bare tokenized (tokenize_eq_ok_iff.2 lexed) fun t mem => .inl ?_
  have among : t.bare ∈ bare ts := List.mem_map_of_mem mem
  rw [same] at among
  exact List.map_subset Token.bare within among

private theorem writeValue_crlf {record : Record} {field : Field} {name : Text}
    (oneLine : OneLineLiterals text) (scanned : scan text listName = .ok doc)
    (mem : record ∈ doc.records) (found : record.field? name = some field)
    (id value : Text) :
    (writeValue (doc.moved (Span.crlf text) (crlf text)) listName id name value
        (field.moved (Span.crlf text))).toOption =
      (writeValue doc listName id name value field).toOption.map crlf := by
  obtain ⟨before, after, records⟩ := List.append_of_mem mem
  obtain ⟨front, opener, chunks, closer, back, tokenized, located⟩ :=
    exists_located scanned
  obtain ⟨new, tokens', _, _, _, _, _, written, -⟩ :=
    exists_written_tokens value field.value.quoteText scanned tokenized
    located records found
  have literal : '\n' ∉ quote value field.value.quoteText := fun mem =>
    absurd (quote_inLine value field.value.quoteText _ mem) (by decide)
  have oneLine' : OneLineLiterals new := by
    refine oneLine.of_bare tokenized written.tokenized fun t mem =>
      (written.among t mem).imp_right ?_
    intro isLiteral inside
    exact literal (isLiteral ▸ List.mem_cons_of_mem t.first inside)
  have spliced := written.splice
  have spliced' := Span.splice_crlf spliced
  rw [crlf_of_oneLine literal] at spliced'
  obtain rfl := text_of_scan scanned
  unfold writeValue
  simp only [Field.moved, Document.moved, spliced, spliced', mapError_ok, ok_bind]
  rcases scan_crlf_cases oneLine' listName with
    ⟨check, scanned, scanned'⟩ | ⟨fault, fault', scanned, scanned'⟩
  · rw [scanText_eq scanned, scanText_eq scanned', ok_bind, ok_bind]
    have count : (check.moved (Span.crlf new) (crlf new)).records.length =
        check.records.length :=
      List.length_map _
    simp only [Document.record, Document.find_moved, count, List.length_map]
    split
    next => rfl
    next =>
      cases check.find id with
      | error failure => rfl
      | ok record =>
          simp only [map_ok, mapError_ok, ok_bind, Record.value?_moved]
          split <;> rfl
  · rw [scanText, scanText, scanned, scanned']
    rfl

theorem setField_crlf (oneLine : OneLineLiterals text) (listName : Text)
    (ids : List CodePoint) (field : Text) (value : List CodePoint) :
    (∃ failure failure', setField text listName ids field value = .error failure ∧
        setField (crlf text) listName ids field value = .error failure') ∨
      ∃ edit : Option Text, setField text listName ids field value =
        .ok (edit.map toPoints) ∧
        setField (crlf text) listName ids field value =
          .ok (edit.map fun new => toPoints (crlf new)) := by
  rcases scan_crlf_cases oneLine listName with ⟨doc, scanned, scanned'⟩ |
    ⟨fault, fault', scanned, scanned'⟩
  · rw [setField, setField, scanText_eq scanned, scanText_eq scanned',
      ok_bind, ok_bind, Document.recordOf_moved]
    cases named : doc.recordOf ids with
    | error failure => exact .inl ⟨failure, failure, rfl, rfl⟩
    | ok record =>
        obtain ⟨id', -, found⟩ := recordOf_eq_ok_iff.1 named
        obtain ⟨before, after, records, -⟩ := find_eq_ok_iff.1 found
        have mem : record ∈ doc.records := by simp [records]
        simp only [map_ok, ok_bind, Record.field?_moved, Record.id?_moved]
        cases found : record.field? field with
        | none => exact .inl ⟨.noVersion, .noVersion, rfl, rfl⟩
        | some current =>
            cases held : record.id? with
            | none => exact .inl ⟨.noVersion, .noVersion, rfl, rfl⟩
            | some id =>
                have kept : (current.moved (Span.crlf text)).value =
                  current.value := rfl
                simp only [Option.map_some, kept]
                by_cases same : current.value.holds value = true
                · rw [if_pos same, if_pos same]
                  exact .inr ⟨none, rfl, rfl⟩
                rw [if_neg same, if_neg same]
                cases spelled : scalars? value with
                | none =>
                    have refused (doc : Document) (current : Field) : ∃ failure,
                        writeField doc listName id field value current =
                          .error failure := by
                      cases wrote : writeField doc listName id field
                        value current with
                      | error failure => exact ⟨failure, rfl⟩
                      | ok new =>
                          obtain ⟨value', spelled'⟩ := exists_of_writeField wrote
                          simp [spelled] at spelled'
                    obtain ⟨failure, refused₁⟩ := refused doc current
                    obtain ⟨failure', refused₂⟩ :=
                      refused (doc.moved (Span.crlf text) (crlf text))
                      (current.moved (Span.crlf text))
                    exact .inl ⟨failure, failure', by rw [refused₁]; rfl,
                      by rw [refused₂]; rfl⟩
                | some value =>
                    obtain rfl := scalars?_eq_some_iff.1 spelled
                    rw [writeField_toPoints, writeField_toPoints]
                    rcases toOption_eq_map_iff.1
                      (writeValue_crlf oneLine scanned mem found id value) with
                      ⟨failure, failure', wrote, wrote'⟩ | ⟨new, wrote, wrote'⟩
                    · exact .inl ⟨failure, failure', by rw [wrote]; rfl,
                        by rw [wrote']; rfl⟩
                    · exact .inr ⟨some new, by rw [wrote]; rfl, by rw [wrote']; rfl⟩
  · rw [setField, setField, scanText, scanText, scanned, scanned']
    exact .inl ⟨.registry fault, .registry fault', rfl, rfl⟩

end Texts

/-! ## Cutting out a record -/

section Cuts

variable {text listName filler : Text} {tokens : List Token} {doc : Document}
  {record : Record} {statement : Import} {span : Span}
  {before after : List Record}

private theorem recordCut_crlf (noReturn : '\r' ∉ text)
    (scanned : scan text listName = .ok doc) (mem : record ∈ doc.records) :
    recordCut (doc.moved (Span.crlf text) (crlf text))
      (record.moved (Span.crlf text)) =
        (recordCut doc record).map fun cut => (cut.1.crlf text, cut.2) := by
  obtain ⟨front, opener, chunks, closer, back, tokenized, -⟩ :=
    exists_located scanned
  have lexed := tokenize_eq_ok_iff.1 tokenized
  obtain rfl := text_of_scan scanned
  have count : (doc.moved (Span.crlf doc.text) (crlf doc.text)).elementCount =
    doc.elementCount := rfl
  unfold recordCut
  rw [count]
  split
  next => rfl
  next several =>
    cases own : record.comma? with
    | some comma =>
        have reach : doc.reach? record = some ⟨record.span.start, comma.stop⟩ := by
          simp only [Document.reach?, several, if_false, own]
        have covers := covers_reach scanned tokenized mem reach
        have lines := wholeLines_crlf noReturn
          (Nat.le_of_lt (covers.ordered lexed)) (covers.inside lexed)
        simp only [Record.moved, own, Option.map_some]
        change (wholeLines (crlf doc.text)
          (Span.crlf doc.text ⟨record.span.start, comma.stop⟩)).map (·, []) = _
        rw [lines]
        cases wholeLines doc.text ⟨record.span.start, comma.stop⟩ <;> rfl
    | none =>
        simp only [Record.moved, own, Option.map_none]
        cases record.previousComma? <;> rfl

private theorem inLine_of_recordCut
    (cut : recordCut doc record = .ok (span, filler)) : '\n' ∉ filler := by
  unfold recordCut at cut
  split at cut
  next =>
    obtain ⟨-, rfl⟩ := Prod.mk.inj (Except.ok.inj cut)
    decide
  next =>
    split at cut
    next =>
      obtain ⟨_, -, same⟩ := map_eq_ok_iff.1 cut
      obtain ⟨-, rfl⟩ := Prod.mk.inj same
      simp
    next =>
      obtain ⟨-, rfl⟩ := Prod.mk.inj (Except.ok.inj cut)
      simp
    next => simp at cut

private theorem subset_getLast? (ts : List Token) : ts.getLast?.toList ⊆ ts := by
  intro t mem
  exact List.mem_of_getLast? (by simpa using mem)

/-- Regions that stand in front of one another are cut out one after the other
with either line ends. -/
private theorem cutText_crlf_ahead {lines : Span} {between new : Text}
    (noReturn : '\r' ∉ doc.text)
    (reach : wholeLines doc.text statement.span = .ok lines)
    (ordered : statement.span.start ≤ statement.span.stop)
    (inside : statement.span.stop ≤ doc.text.length)
    (cut : recordCut (doc.moved (Span.crlf doc.text) (crlf doc.text))
      (record.moved (Span.crlf doc.text)) = .ok (span.crlf doc.text, filler))
    (inLine : '\n' ∉ filler) (first : span.splice doc.text filler = .ok between)
    (second : lines.splice between [] = .ok new)
    (ahead : lines.stop ≤ span.start) :
    cutText (doc.moved (Span.crlf doc.text) (crlf doc.text))
      (record.moved (Span.crlf doc.text))
      (statement.moved (Span.crlf doc.text)) false = .ok (crlf new) := by
  have reach' := wholeLines_crlf noReturn ordered inside
  rw [reach, map_ok] at reach'
  have first' := Span.splice_crlf first
  rw [crlf_of_oneLine inLine] at first'
  have second' := Span.splice_crlf second
  obtain ⟨ordered, inside⟩ := Span.bounds_of_splice first
  obtain ⟨ordered', -⟩ := Span.bounds_of_splice second
  -- the import stands at the same place in both texts
  have place {n : Nat} (le : n ≤ span.start) : crlfPlace between n =
      crlfPlace doc.text n := by
    rw [Span.splice_eq_ok filler ordered inside] at first
    obtain rfl := Except.ok.inj first
    rw [crlfPlace, List.append_assoc,
      List.take_append_of_le_length (by rw [List.length_take]; omega),
      List.take_take, Nat.min_eq_left le]
    rfl
  have same : lines.crlf between = lines.crlf doc.text := by
    rw [Span.crlf_eq, Span.crlf_eq, place (by omega), place ahead]
  rw [same] at second'
  have later : ¬(span.crlf doc.text).start < (lines.crlf doc.text).start :=
    Nat.not_lt.2 (crlfPlace_mono (by omega))
  unfold cutText
  rw [cut, ok_bind]
  simp only [Document.moved, Import.moved, reach', ok_bind, Bool.false_eq_true,
    if_false, if_neg later, first', mapError_ok]
  exact mapError_eq_ok_iff.2 second'

namespace Declaration

variable {d : Declaration} {region : Span} {chunks : List Chunk}

/-- Without the record no literal runs over a line end, and with the other line
ends the same is cut out. -/
private theorem Cuts.exists_crlf_shared
    (cuts : d.Cuts doc.text span filler region chunks)
    (oneLine : OneLineLiterals doc.text)
    (tokenized : tokenize doc.text = .ok d.tokens)
    (cut : recordCut doc record = .ok (span, filler))
    (cut' : recordCut (doc.moved (Span.crlf doc.text) (crlf doc.text))
      (record.moved (Span.crlf doc.text)) = .ok (span.crlf doc.text, filler)) :
    ∃ new, cutText doc record statement true = .ok new ∧ OneLineLiterals new ∧
      cutText (doc.moved (Span.crlf doc.text) (crlf doc.text))
        (record.moved (Span.crlf doc.text))
        (statement.moved (Span.crlf doc.text)) true = .ok (crlf new) := by
  have spliced := cuts.splice_eq (tokenize_eq_ok_iff.1 tokenized)
  have spliced' := Span.splice_crlf spliced
  rw [crlf_of_oneLine (inLine_of_recordCut cut)] at spliced'
  obtain ⟨ts, lexed, same⟩ := cuts.lexed
  refine ⟨cutOut region doc.text, ?_, oneLine.of_subset tokenized lexed same ?_, ?_⟩
  · simp only [cutText, cut, ok_bind, if_true, spliced, mapError_ok]
  · exact ((List.Sublist.refl d.front).append cuts.sublist).subset
  · unfold cutText
    rw [cut', ok_bind]
    simp only [Document.moved, if_true, spliced', mapError_ok]

private theorem Cuts.exists_crlf_alone
    (cuts : d.Cuts doc.text span filler region chunks)
    (noReturn : '\r' ∉ doc.text) (oneLine : OneLineLiterals doc.text)
    (located : Located listName d.front d.opener d.chunks d.closer d.back)
    (tokenized : tokenize doc.text = .ok d.tokens)
    (scanned : scan doc.text listName = .ok doc) (mem : statement ∈ doc.imports)
    (ahead : statement.span.stop ≤ d.opener.start)
    (leaves : ∀ lines, wholeLines doc.text statement.span = .ok lines →
      LeavesSlash d.tokens doc.text lines)
    (cut : recordCut doc record = .ok (span, filler))
    (cut' : recordCut (doc.moved (Span.crlf doc.text) (crlf doc.text))
      (record.moved (Span.crlf doc.text)) = .ok (span.crlf doc.text, filler)) :
    ∃ new, cutText doc record statement false = .ok new ∧ OneLineLiterals new ∧
      cutText (doc.moved (Span.crlf doc.text) (crlf doc.text))
        (record.moved (Span.crlf doc.text))
        (statement.moved (Span.crlf doc.text)) false = .ok (crlf new) := by
  have lexed := tokenize_eq_ok_iff.1 tokenized
  obtain ⟨s, front, t, u, back, read, split, shape, word⟩ :=
    exists_statement_of_scan located tokenized scanned mem
  have leavesFront : ∀ lines, wholeLines doc.text statement.span = .ok lines →
      LeavesSlash front.getLast?.toList doc.text lines := by
    intro lines reach
    refine (leaves lines reach).mono fun t last => ?_
    rw [split]
    exact List.mem_append_left _ (List.mem_append_left _ (subset_getLast? _ last))
  obtain ⟨lines, reach, clears⟩ :=
    exists_lines_of_import (split ▸ lexed) (pairedReturns_of_not_mem noReturn)
    shape word read leavesFront
  obtain ⟨t₀, source, -, last, -, place, -⟩ := importOf_span read
  have final : s.all.getLast? = some (s.semicolon?.getD source) := by
    cases semicolon : s.semicolon? <;> simp [Statement.all, semicolon, last]
  rw [place] at ahead
  obtain ⟨x, front_eq, rfl⟩ := exists_ahead lexed.pairwise split final ahead
  obtain ⟨apart, ts, made, lexed', same, -⟩ :=
    cuts.exists_cutText_ahead lexed rfl cut reach front_eq clears
  refine ⟨_, made, oneLine.of_subset tokenized lexed' same ?_, ?_⟩
  · rw [split]
    exact ((List.sublist_append_left front s.all).append
      ((List.Sublist.refl x).append cuts.sublist)).subset
  · have covers := covers_import scanned tokenized mem
    have spliced := cuts.splice_eq lexed
    have later : ¬span.start < lines.start := by
      have := clears.ordered
      omega
    simp only [cutText, cut, ok_bind, reach, Bool.false_eq_true, if_false,
      if_neg later, spliced, mapError_ok] at made
    exact cutText_crlf_ahead noReturn reach (Nat.le_of_lt (covers.ordered lexed))
      (covers.inside lexed)
      cut' (inLine_of_recordCut cut) spliced (mapError_eq_ok_iff.1 made) apart

end Declaration

/-- The text without a record and, unless it is shared, its import: no literal
runs over a line end, and with the other line ends the same is cut out. -/
private theorem exists_cutText_crlf (noReturn : '\r' ∉ doc.text)
    (oneLine : OneLineLiterals doc.text)
    (scanned : scan doc.text listName = .ok doc)
    (tokenized : tokenize doc.text = .ok tokens)
    (ahead : ∀ i ∈ doc.imports, i.span.stop ≤ doc.listSpan.start)
    (records : doc.records = before ++ record :: after)
    (mem : statement ∈ doc.imports) {shared : Bool}
    (leaves : ∀ region, recordCut doc record = .ok (region, []) →
      LeavesSlash tokens doc.text region)
    (leaves' : shared = false → ∀ lines, wholeLines doc.text statement.span =
      .ok lines → LeavesSlash tokens doc.text lines) :
    ∃ new, cutText doc record statement shared = .ok new ∧ OneLineLiterals new ∧
      cutText (doc.moved (Span.crlf doc.text) (crlf doc.text))
        (record.moved (Span.crlf doc.text))
        (statement.moved (Span.crlf doc.text)) shared = .ok (crlf new) := by
  obtain ⟨d, tokenized', located⟩ := Declaration.exists_of_scan scanned
  obtain rfl := Except.ok.inj (tokenized'.symm.trans tokenized)
  have leavesChunk : ∀ region, recordCut doc record = .ok (region, []) →
      ∀ chunk ∈ d.chunks,
        LeavesSlash chunk.tokens.getLast?.toList doc.text region := by
    intro region cut chunk inside
    refine (leaves region cut).mono fun t last => Declaration.join_subset ?_
    exact List.mem_flatMap.2 ⟨chunk, inside,
      List.mem_append_left _ (subset_getLast? _ last)⟩
  obtain ⟨span, filler, region, chunks, -, -, -, cut, cuts, -⟩ :=
    Declaration.exists_recordCut located
    tokenized scanned (pairedReturns_of_not_mem noReturn) leavesChunk records
  have inList : record ∈ doc.records := by simp [records]
  have cut' := recordCut_crlf noReturn scanned inList
  rw [cut, map_ok] at cut'
  cases shared with
  | true => exact cuts.exists_crlf_shared oneLine tokenized cut cut'
  | false =>
      have ahead := ahead statement mem
      rw [Declaration.listSpan_of_scan located tokenized scanned] at ahead
      exact cuts.exists_crlf_alone noReturn oneLine located tokenized scanned mem
        ahead (leaves' rfl) cut cut'

end Cuts

/-! ## Removing a record -/

/-- Whether all import statements of a text end before its list starts. -/
def ImportsAhead (text listName : Text) : Prop :=
  ∀ doc, scan text listName = .ok doc → ∀ i ∈ doc.imports,
    i.span.stop ≤ doc.listSpan.start

/-- Whether no slash comes to stand before another slash or a star when what
goes with a record is cut out, and the lines of its import. -/
def JoinsNoSlash (text listName : Text) (ids : List CodePoint) : Prop :=
  ∀ tokens doc record statement, tokenize text = .ok tokens →
    scan text listName = .ok doc →
    doc.recordOf ids = .ok record → doc.companionImport? record = some statement →
    (∀ region, recordCut doc record = .ok (region, []) →
      LeavesSlash tokens text region) ∧
      (isShared doc record = false →
        ∀ lines, wholeLines text statement.span = .ok lines →
        LeavesSlash tokens text lines)

section Remove

variable {text listName : Text} {ids : List CodePoint}

/-- A removal with the other line ends. -/
def Removal.crlf (removal : Removal) : Removal :=
  { removal with text := Showcase.crlf removal.text }

theorem remove_crlf (noReturn : '\r' ∉ text) (oneLine : OneLineLiterals text)
    (ahead : ImportsAhead text listName) (joins : JoinsNoSlash text listName ids) :
    (remove (crlf text) listName ids).toOption =
      (remove text listName ids).toOption.map Removal.crlf := by
  rcases scan_crlf_cases oneLine listName with ⟨doc, scanned, scanned'⟩ |
    ⟨fault, fault', scanned, scanned'⟩
  · obtain rfl := text_of_scan scanned
    cases named : doc.recordOf ids with
    | error failure =>
        simp only [remove, scanText_eq scanned, scanText_eq scanned', ok_bind,
          Document.recordOf_moved, named]
        rfl
    | ok record =>
        obtain ⟨id, isId, found⟩ := recordOf_eq_ok_iff.1 named
        cases companion : doc.companionImport? record with
        | none =>
            simp only [remove, scanText_eq scanned, scanText_eq scanned', ok_bind,
              Document.recordOf_moved,
              named, map_ok, Document.companionImport?_moved, companion]
            rfl
        | some statement =>
            obtain ⟨before, after, is, is', removable⟩ :=
              exists_removable found companion
            obtain ⟨front, opener, chunks, closer, back, tokenized, -⟩ :=
              exists_located scanned
            obtain ⟨leaves, leaves'⟩ :=
              joins _ doc record statement tokenized scanned named companion
            obtain ⟨new, cut, oneLine', cut'⟩ :=
              exists_cutText_crlf noReturn oneLine scanned tokenized
              (ahead doc scanned) removable.records (by simp [removable.imports])
              leaves leaves'
            have found' := Document.find_moved (Span.crlf doc.text)
              (crlf doc.text) doc id
            have companion' :=
              Document.companionImport?_moved (Span.crlf doc.text)
              (crlf doc.text) doc record
            rw [found, map_ok] at found'
            rw [companion, Option.map_some] at companion'
            rw [remove_eq scanned isId found companion,
              remove_eq scanned' isId found' companion',
              isShared_moved scanned scanned' (by simp [removable.records]), cut,
              cut', ok_bind, ok_bind]
            rcases scan_crlf_cases oneLine' listName with
              ⟨check, scanned, scanned'⟩ | ⟨fault, fault', scanned, scanned'⟩
            · have kept : (statement.moved (Span.crlf doc.text)).source =
                statement.source := rfl
              rw [scanText_eq scanned, scanText_eq scanned', ok_bind, ok_bind,
                isRemoval_moved, kept]
              cases isRemoval doc check id statement.source (isShared doc record)
                <;> rfl
            · rw [scanText, scanText, scanned, scanned']
              rfl
  · rw [remove, remove, scanText, scanText, scanned, scanned']
    rfl

end Remove

end Showcase.Registry
