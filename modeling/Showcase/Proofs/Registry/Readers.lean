import Showcase.Proofs.Registry.Declaration
import Showcase.Proofs.Registry.LiteralBody

/-!
# Readers of literals

A registry is read alike by all readers that agree on the literals among its tokens
(`scanWith_congr`).  So the code points of a text are read as the text itself
(`scanPoints_toPoints`).
-/

namespace Showcase.Registry

/-! ## Readers that agree -/

section Agreeing

variable {read read' : LiteralReader}

theorem keyName_congr {key : Token} (same : read key = read' key) :
    Bracketed.keyName key read = Bracketed.keyName key read' := by
  rw [Bracketed.keyName, Bracketed.keyName, same]

private theorem fieldOf_congr {piece : List Token}
    (same : ∀ t ∈ piece, read t = read' t) :
    fieldOf piece read = fieldOf piece read' := by
  have value (name : Text) (ts : List Token) (same : ∀ t ∈ ts, read t = read' t) :
      valueOf name ts read = valueOf name ts read' := by
    match ts with
    | [] => rfl
    | [t] => rw [valueOf, valueOf, same t (by simp)]
    | _ :: _ :: _ => rfl
  match piece with
  | [] => rfl
  | [key] => rw [fieldOf, fieldOf, keyName_congr (same key (by simp))]
  | key :: colon :: ts =>
      rw [fieldOf, fieldOf, keyName_congr (same key (by simp))]
      dsimp only
      simp only [value _ ts fun t mem => same t (by simp [mem])]

theorem fieldsOf_congr {chunks : List Chunk}
    (same : ∀ t ∈ join chunks, read t = read' t) :
    fieldsOf chunks read = fieldsOf chunks read' := by
  induction chunks with
  | nil => rfl
  | cons chunk chunks ih =>
      rw [fieldsOf, fieldsOf, fieldOf_congr fun t mem =>
        same t (by simp [Chunk.all, mem]),
        ih fun t mem => same t (by simp [mem])]

private theorem recordOf_congr {piece : List Token}
    (same : ∀ t ∈ piece, read t = read' t) (balanced : Balanced piece)
    (comma? previousComma? : Option Span) :
    recordOf piece comma? previousComma? read =
      recordOf piece comma? previousComma? read' := by
  rw [recordOf, recordOf]
  cases body : groupBody? piece with
  | none => rfl
  | some inner =>
      obtain ⟨o, c, rfl, -, -, inside⟩ := groupBody?_eq_some balanced body
      obtain ⟨chunks, cut, rfl⟩ := inside.exists_cut
      dsimp only
      rw [chunksOf_join cut, fieldsOf_congr fun t mem => same t (by simp [mem])]

theorem elementsOf_congr {chunks : List Chunk} (cut : Cut chunks)
    (same : ∀ t ∈ join chunks, read t = read' t) (previousComma? : Option Span) :
    elementsOf previousComma? chunks read =
      elementsOf previousComma? chunks read' := by
  induction chunks generalizing previousComma? with
  | nil => rfl
  | cons chunk chunks ih =>
      rw [elementsOf, elementsOf]
      simp only [recordOf_congr (fun t mem => same t (by simp [Chunk.all, mem]))
        cut.balanced_head, ih cut.tail fun t mem => same t (by simp [mem])]

private theorem importsOf_congr {statements : List Statement}
    (same : ∀ s ∈ statements, ∀ t ∈ s.tokens, read t = read' t) :
    importsOf statements read = importsOf statements read' := by
  induction statements with
  | nil => rfl
  | cons s later ih =>
      have first : importOf s read = importOf s read' := by
        rw [importOf, importOf]
        cases source : s.tokens.getLast? with
        | none => rfl
        | some t =>
            dsimp only
            rw [same s (by simp) t (List.mem_of_getLast? source)]
      rw [importsOf, importsOf, first, ih fun s mem => same s (by simp [mem])]

/-- Imports can be read if each of their literals can. -/
theorem exists_importsOf {statements : List Statement} {imports : List Import}
    (readable : ∀ s ∈ statements, ∀ t ∈ s.tokens, ∀ value, read t = .ok value →
      ∃ value', read' t = .ok value')
    (found : importsOf statements read = .ok imports) :
    ∃ imports', importsOf statements read' = .ok imports' := by
  induction statements generalizing imports with
  | nil => exact ⟨[], rfl⟩
  | cons s later ih =>
      rw [importsOf] at found
      obtain ⟨first, here, rest⟩ := bind_eq_ok_iff.1 found
      obtain ⟨imports', behind, -⟩ := map_eq_ok_iff.1 rest
      obtain ⟨imports', behind'⟩ :=
        ih (fun s mem => readable s (by simp [mem])) behind
      have first' : ∃ i, importOf s read' = .ok i := by
        rw [importOf] at here ⊢
        cases source : s.tokens.getLast? with
        | none => simp [source] at here
        | some t =>
            simp only [source] at here ⊢
            split at here
            next string =>
              obtain ⟨value, decoded, -⟩ := map_eq_ok_iff.1 here
              obtain ⟨value', decoded'⟩ :=
                readable s (by simp) t (List.mem_of_getLast? source) value decoded
              exact ⟨_, by rw [if_pos string, decoded', map_ok]⟩
            next => simp at here
      obtain ⟨i, here'⟩ := first'
      exact ⟨_, by rw [importsOf, here', ok_bind, behind', map_ok]⟩

theorem mem_of_mem_statements {tokens : List Token} {s : Statement}
    (mem : s ∈ statements none 0 tokens) {t : Token} (inside : t ∈ s.tokens) :
    t ∈ tokens :=
  (statements_sublist none 0 tokens).subset
    (List.mem_flatMap.2 ⟨s, mem, List.mem_append_left _ inside⟩)

/-- Whether a text holds the list does not depend on its literals. -/
private theorem scanWith_cases (text listName : Text) :
    (∃ fault, ∀ read, scanWith read text listName = .error fault) ∨
      ∃ front opener chunks closer back,
        tokenize text = .ok (front ++ opener :: (join chunks ++ closer :: back)) ∧
          Located listName front opener chunks closer back := by
  unfold scanWith
  cases tokenized : tokenize text with
  | error fault => exact .inl ⟨fault, fun _ => rfl⟩
  | ok tokens =>
      simp only [ok_bind]
      cases bracketed : Bracketed.ofTokens tokens with
      | error fault => exact .inl ⟨fault, fun _ => rfl⟩
      | ok b =>
          have represents := Bracketed.represents_of_ofTokens bracketed
          simp only [ok_bind, findList_eq represents]
          cases search : listFrom? listName none tokens with
          | none => exact .inl ⟨_, fun _ => rfl⟩
          | some suffix =>
              obtain ⟨front, opener, chunks, closer, back, rfl, located⟩ :=
                exists_located_of_listFrom? represents.balanced
                  (tokenize_eq_ok_iff.1 tokenized).genuine search
              exact .inr ⟨front, opener, chunks, closer, back, rfl, located⟩

private theorem scanWith_congr {text listName : Text}
    (same : ∀ tokens, tokenize text = .ok tokens → ∀ t ∈ tokens, read t = read' t) :
    scanWith read text listName = scanWith read' text listName := by
  rcases scanWith_cases text listName with
    ⟨fault, failed⟩ | ⟨front, opener, chunks, closer, back, tokenized, located⟩
  · rw [failed, failed]
  · have same := same _ tokenized
    rw [scanWith_eq tokenized located, scanWith_eq tokenized located,
      elementsOf_congr located.cut fun t mem => same t (by simp [mem]),
      importsOf_congr fun s mem t inside =>
        same t (mem_of_mem_statements mem inside)]

end Agreeing

/-! ## Code points of a text -/

theorem Span.slice_map {α β : Type} (f : α → β) (span : Span) (xs : List α) :
    span.slice (xs.map f) = (span.slice xs).map f := by
  rw [Span.slice, Span.slice, List.map_drop, List.map_take]

/-- A token that stands in code points as it does in the text is read alike. -/
theorem readAt_eq_value {points : List CodePoint} {t : Token}
    (stands : t.span.slice points = toPoints t.text) :
    readAt points t = t.value := by
  rw [readAt, stands]
  rfl

theorem Lexed.slice_of_mem {text : Text} {tokens : List Token}
    (lexed : Lexed 0 text tokens none) {t : Token} (mem : t ∈ tokens) :
    t.span.slice text = t.text := by
  obtain ⟨front, back, rfl⟩ := List.append_of_mem mem
  exact lexed.slice_eq

/-- A text that holds no surrogate is read from its code points as it is itself. -/
theorem scanPoints_toPoints (text listName : Text) :
    scanPoints (toPoints text) listName = scan text listName := by
  rw [scanPoints, map_seen_toPoints]
  refine scanWith_congr fun tokens tokenized t mem => readAt_eq_value ?_
  rw [toPoints, Span.slice_map, (tokenize_eq_ok_iff.1 tokenized).slice_of_mem mem,
    toPoints]

end Showcase.Registry
