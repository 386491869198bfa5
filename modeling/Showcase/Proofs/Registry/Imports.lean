import Showcase.Proofs.Registry.Reading

/-!
# Where import statements stand

Every import of a document is a statement among its tokens, and covers their text.
-/

namespace Showcase.Registry

theorem importsOf_append (ss ss' : List Statement) :
    importsOf (ss ++ ss') = importsOf ss >>= fun is =>
      (importsOf ss').map (is ++ ·) := by
  induction ss with
  | nil =>
      rw [List.nil_append, importsOf, ok_bind]
      cases importsOf ss' <;> rfl
  | cons s ss ih =>
      rw [List.cons_append, importsOf, importsOf, ih]
      cases importOf s with
      | error fault => rfl
      | ok i =>
          cases importsOf ss with
          | error fault => rfl
          | ok is => cases importsOf ss' <;> rfl

theorem exists_statement {ss : List Statement} {before after : List Import}
    {i : Import} (h : importsOf ss = .ok (before ++ i :: after)) :
    ∃ xs s ys, ss = xs ++ s :: ys ∧ importsOf xs = .ok before ∧ importOf s = .ok i ∧
      importsOf ys = .ok after := by
  induction ss generalizing before with
  | nil => simp [importsOf] at h
  | cons s ss ih =>
      rw [importsOf] at h
      obtain ⟨first, here, rest⟩ := bind_eq_ok_iff.1 h
      obtain ⟨later, behind, all⟩ := map_eq_ok_iff.1 rest
      cases before with
      | nil =>
          obtain ⟨rfl, rfl⟩ := List.cons.inj all
          exact ⟨[], s, ss, rfl, rfl, here, behind⟩
      | cons first' before =>
          obtain ⟨rfl, rfl⟩ := List.cons.inj all
          obtain ⟨xs, s', ys, rfl, front, found, back⟩ := ih behind
          exact ⟨s :: xs, s', ys, rfl,
            by rw [importsOf, here, ok_bind, front, map_ok], found, back⟩

theorem exists_import {ss : List Statement} {is : List Import}
    (h : importsOf ss = .ok is) {s : Statement} (mem : s ∈ ss) :
    ∃ i ∈ is, importOf s = .ok i := by
  obtain ⟨xs, ys, rfl⟩ := List.append_of_mem mem
  rw [importsOf_append] at h
  obtain ⟨before, -, rest⟩ := bind_eq_ok_iff.1 h
  obtain ⟨later, behind, rfl⟩ := map_eq_ok_iff.1 rest
  rw [importsOf] at behind
  obtain ⟨i, here, rest⟩ := bind_eq_ok_iff.1 behind
  obtain ⟨after, -, rfl⟩ := map_eq_ok_iff.1 rest
  exact ⟨i, by simp, here⟩

theorem importOf_span {s : Statement} {i : Import} (h : importOf s = .ok i) :
    ∃ t source, s.tokens.head? = some t ∧ s.tokens.getLast? = some source ∧
      source.kind = .string ∧ i.span = ⟨t.start, (s.semicolon?.getD source).stop⟩ ∧
      source.value = .ok i.source := by
  rw [importOf] at h
  cases last : s.tokens.getLast? with
  | none => simp [last] at h
  | some source =>
      rw [last] at h
      dsimp only at h
      split at h
      next string =>
        obtain ⟨path, decoded, rfl⟩ := map_eq_ok_iff.1 h
        cases shape : s.tokens with
        | nil => simp [shape] at last
        | cons t ts => exact ⟨t, source, rfl, rfl, string, rfl, decoded⟩
      next => simp at h

theorem between_of_pairwise {ts : List Token}
    (h : ts.Pairwise fun t t' => t.stop ≤ t'.start) {first last t : Token}
    (head : ts.head? = some first) (final : ts.getLast? = some last)
    (mem : t ∈ ts) : first.start ≤ t.start ∧ t.stop ≤ last.stop := by
  constructor
  · obtain ⟨rest, rfl⟩ := List.head?_eq_some_iff.1 head
    rcases List.mem_cons.1 mem with rfl | inRest
    · exact Nat.le_refl _
    · have := (List.pairwise_cons.1 h).1 t inRest
      have := first.start_lt_stop
      omega
  · obtain ⟨front, rfl⟩ := List.getLast?_eq_some_iff.1 final
    rcases List.mem_append.1 mem with inFront | isLast
    · have := (List.pairwise_append.1 h).2.2 t inFront last (by simp)
      have := last.start_lt_stop
      omega
    · obtain rfl : t = last := by simpa using isLast
      exact Nat.le_refl _

theorem covers_statement {prev? : Option Token} {depth : Nat}
    {tokens : List Token} {s : Statement} {i : Import}
    (h : tokens.Pairwise fun t t' => t.stop ≤ t'.start)
    (mem : s ∈ statements prev? depth tokens) (read : importOf s = .ok i)
    {t : Token} (inside : t ∈ s.tokens) :
    i.span.start ≤ t.start ∧ t.stop ≤ i.span.stop := by
  obtain ⟨earlier, later, split⟩ := List.append_of_mem mem
  obtain ⟨front, first, u, back, rfl, there⟩ := exists_of_statements split
  obtain ⟨t', source, head, last, -, span, -⟩ := importOf_span read
  have ordered := List.pairwise_append.1 h
  have row : s.tokens.Pairwise fun t t' => t.stop ≤ t'.start := by
    rw [there.tokens]
    exact (List.pairwise_append.1 ordered.1).2.1
  obtain ⟨low, high⟩ := between_of_pairwise row head last inside
  rw [span]
  refine ⟨low, ?_⟩
  cases behind : s.semicolon? with
  | none => exact high
  | some c =>
      obtain ⟨ahead, -⟩ :=
        Option.filter_eq_some_iff.1 (there.semicolon.symm.trans behind)
      have sourceIn : source ∈ front ++ first :: u := by
        rw [← there.tokens]
        exact List.mem_append_right _ (List.mem_of_getLast? last)
      have := ordered.2.2 source sourceIn c (List.mem_of_mem_head? ahead)
      have := c.start_lt_stop
      simp only [Option.getD_some]
      omega

/-- Whether no import runs into the list. -/
def Document.Apart (doc : Document) : Prop :=
  ∀ i ∈ doc.imports, i.span.stop ≤ doc.listSpan.start ∨
    doc.listSpan.stop ≤ i.span.start

theorem Document.Apart.clear {text listName : Text} {doc : Document}
    {front : List Token} {opener : Token} {chunks : List Chunk} {closer : Token}
    {back : List Token} (apart : doc.Apart)
    (tokens : tokenize text =
      .ok (front ++ opener :: (join chunks ++ closer :: back)))
    (located : Located listName front opener chunks closer back)
    (h : scan text listName = .ok doc) :
    ∀ s ∈ statements none 0 (front ++ opener :: (join chunks ++ closer :: back)),
      opener ∉ s.tokens := by
  intro s mem inside
  have ordered := (tokenize_eq_ok_iff.1 tokens).pairwise
  rw [scan_eq tokens located] at h
  obtain ⟨elements, -, rest⟩ := bind_eq_ok_iff.1 h
  obtain ⟨imports, found, rfl⟩ := map_eq_ok_iff.1 rest
  obtain ⟨i, inImports, read⟩ := exists_import found mem
  obtain ⟨low, high⟩ := covers_statement ordered mem read inside
  have closing : opener.stop ≤ closer.start := by
    have := (List.pairwise_append.1 ordered).2.1
    exact (List.pairwise_cons.1 this).1 closer (by simp)
  have := opener.start_lt_stop
  have := closer.start_lt_stop
  rcases apart i inImports with before | behind
  · simp only at before
    omega
  · simp only at behind
    omega

end Showcase.Registry
