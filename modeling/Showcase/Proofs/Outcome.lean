/-!
# Steps that can fail

When a chain of steps gives a result, each step gave one.
-/

namespace Showcase

variable {ε ε' α β γ : Type}

@[simp] theorem ok_bind (a : α) (f : α → Except ε β) :
    (Except.ok a >>= f) = f a := rfl

@[simp] theorem error_bind (e : ε) (f : α → Except ε β) :
    (Except.error e >>= f) = .error e := rfl

@[simp] theorem map_ok (f : α → β) (a : α) :
    (Except.ok a : Except ε α).map f = .ok (f a) := rfl

@[simp] theorem map_error (f : α → β) (e : ε) :
    (Except.error e : Except ε α).map f = .error e := rfl

theorem bind_eq_ok_iff {x : Except ε α} {f : α → Except ε β} {b : β} :
    (x >>= f) = .ok b ↔ ∃ a, x = .ok a ∧ f a = .ok b := by
  cases x <;> simp

theorem bind_eq_error_iff {x : Except ε α} {f : α → Except ε β} {e : ε} :
    (x >>= f) = .error e ↔ x = .error e ∨ ∃ a, x = .ok a ∧ f a = .error e := by
  cases x <;> simp

theorem map_eq_ok_iff {x : Except ε α} {f : α → β} {b : β} :
    x.map f = .ok b ↔ ∃ a, x = .ok a ∧ f a = b := by
  cases x <;> simp

theorem map_eq_error_iff {x : Except ε α} {f : α → β} {e : ε} :
    x.map f = .error e ↔ x = .error e := by
  cases x <;> simp

/-- Steps that give the same but for their failures fail together. -/
theorem toOption_eq_map_iff {x : Except ε α} {y : Except ε' β} {f : α → β} :
    y.toOption = x.toOption.map f ↔
      (∃ e e', x = .error e ∧ y = .error e') ∨ ∃ a, x = .ok a ∧ y = .ok (f a) := by
  cases x <;> cases y <;> simp [Except.toOption]

/-- Two steps with the same outcome fail together or give what is the same. -/
theorem map_eq_map_iff {x : Except ε α} {y : Except ε β} {f : α → γ} {g : β → γ} :
    x.map f = y.map g ↔
      (∃ e, x = .error e ∧ y = .error e) ∨ ∃ a b, x = .ok a ∧ y = .ok b ∧
      f a = g b := by
  cases x <;> cases y <;> simp [eq_comm]

theorem exists_of_map_eq_map {x : Except ε α} {y : Except ε β} {f : α → γ}
    {g : β → γ} (same : x.map f = y.map g) {a : α} (h : x = .ok a) :
    ∃ b, y = .ok b ∧ f a = g b := by
  rw [h] at same
  obtain ⟨b, made, eq⟩ := map_eq_ok_iff.1 same.symm
  exact ⟨b, made, eq.symm⟩

theorem exists_of_mapM_error {f : α → Except ε β} {xs : List α} {e : ε}
    (h : xs.mapM f = .error e) :
    ∃ x ∈ xs, f x = .error e := by
  induction xs with
  | nil => simp [pure, Except.pure] at h
  | cons x xs ih =>
      rw [List.mapM_cons] at h
      rcases bind_eq_error_iff.1 h with h | ⟨y, -, h⟩
      · exact ⟨x, by simp, h⟩
      · rcases bind_eq_error_iff.1 h with h | ⟨ys, -, h⟩
        · obtain ⟨x', mem, failed⟩ := ih h
          exact ⟨x', by simp [mem], failed⟩
        · simp [pure, Except.pure] at h

theorem mapM_eq_map {f : α → Except ε β} {g : α → β} {xs : List α}
    (h : ∀ x ∈ xs, f x = .ok (g x)) :
    xs.mapM f = .ok (xs.map g) := by
  induction xs with
  | nil => rfl
  | cons x xs ih =>
      rw [List.mapM_cons, h x List.mem_cons_self, ok_bind,
        ih fun y mem => h y (List.mem_cons_of_mem _ mem)]
      rfl

theorem eq_map_of_mapM {f : α → Except ε β} {g : α → β} {xs : List α}
    {ys : List β} (made : xs.mapM f = .ok ys)
    (each : ∀ x y, f x = .ok y → y = g x) : ys = xs.map g := by
  induction xs generalizing ys with
  | nil =>
      cases made
      rfl
  | cons x xs ih =>
      rw [List.mapM_cons] at made
      obtain ⟨y, first, rest⟩ := bind_eq_ok_iff.1 made
      obtain ⟨ys, later, rest⟩ := bind_eq_ok_iff.1 rest
      cases rest
      rw [List.map_cons, each x y first, ih later]

theorem exists_of_mem_mapM {f : α → Except ε β} {xs : List α} {ys : List β}
    (h : xs.mapM f = .ok ys) {y : β} (mem : y ∈ ys) : ∃ x ∈ xs, f x = .ok y := by
  induction xs generalizing ys with
  | nil =>
      cases h
      simp at mem
  | cons x xs ih =>
      rw [List.mapM_cons] at h
      obtain ⟨first, made, rest⟩ := bind_eq_ok_iff.1 h
      obtain ⟨later, made', rest⟩ := bind_eq_ok_iff.1 rest
      cases rest
      rcases List.mem_cons.1 mem with rfl | mem
      · exact ⟨x, by simp, made⟩
      · obtain ⟨x', mem', made''⟩ := ih made' mem
        exact ⟨x', by simp [mem'], made''⟩

@[simp] theorem mapError_ok (f : ε → ε') (a : α) :
    (Except.ok a : Except ε α).mapError f = .ok a := rfl

@[simp] theorem mapError_error (f : ε → ε') (e : ε) :
    (Except.error e : Except ε α).mapError f = .error (f e) := rfl

theorem mapError_bind (x : Except ε α) (f : α → Except ε β) (g : ε → ε') :
    (x >>= f).mapError g = (x.mapError g >>= fun a => (f a).mapError g) := by
  cases x <;> rfl

theorem mapError_eq_ok_iff {x : Except ε α} {f : ε → ε'} {a : α} :
    x.mapError f = .ok a ↔ x = .ok a := by
  cases x <;> simp

end Showcase
