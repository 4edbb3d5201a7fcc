import Mathlib.Data.List.Forall2

/-!
Results that may be failures: when a computation in steps gives a value.
-/

namespace Except

universe u v

variable {ε : Type u} {α β γ δ : Type v}

theorem bind_eq_ok {x : Except ε α} {f : α → Except ε β} {b : β} :
    (x >>= f) = .ok b ↔ ∃ a, x = .ok a ∧ f a = .ok b := by
  cases x with
  | ok a => simp [bind, Except.bind]
  | error e => simp [bind, Except.bind]

theorem map_eq_ok {f : α → β} {x : Except ε α} {b : β} :
    x.map f = .ok b ↔ ∃ a, x = .ok a ∧ f a = b := by
  cases x with
  | ok a => simp [Except.map]
  | error e => simp [Except.map]

theorem exists_map_eq_ok {f : α → β} {x : Except ε α} :
    (∃ b, x.map f = .ok b) ↔ ∃ a, x = .ok a := by
  simp only [map_eq_ok]
  exact ⟨fun ⟨_, a, ha, _⟩ => ⟨a, ha⟩, fun ⟨a, ha⟩ => ⟨f a, a, ha, rfl⟩⟩

theorem exists_bind_eq_ok {f : α → β} {x : Except ε α} :
    (∃ b, (x >>= fun a => pure (f a)) = .ok b) ↔ ∃ a, x = .ok a := by
  cases x with
  | ok a => exact iff_of_true ⟨f a, rfl⟩ ⟨a, rfl⟩
  | error e => exact iff_of_false (fun ⟨_, h⟩ => nomatch h) (fun ⟨_, h⟩ => nomatch h)

theorem forall₂_of_mapM {f : α → Except ε β} {as : List α} {bs : List β} (h : as.mapM f = .ok bs) :
    List.Forall₂ (fun a b => f a = .ok b) as bs := by
  induction as generalizing bs with
  | nil =>
    cases h
    exact .nil
  | cons a as ih =>
    simp only [List.mapM_cons, bind_eq_ok, pure, Except.pure, Except.ok.injEq] at h
    obtain ⟨b, hb, more, hmore, rfl⟩ := h
    exact .cons hb (ih hmore)

/-- What is read from each of the things made is what it was made from. -/
theorem mapM_map_self {f : β → Except ε α} {g : α → β} {as : List α}
    (h : ∀ a ∈ as, f (g a) = .ok a) : (as.map g).mapM f = .ok as := by
  induction as with
  | nil => rfl
  | cons a as ih =>
    rw [List.map_cons, List.mapM_cons, h a List.mem_cons_self,
      ih fun b hb => h b (List.mem_cons_of_mem a hb)]
    rfl

theorem exists_error_of_ne_ok {x : Except ε α} (h : ∀ a, x ≠ .ok a) : ∃ e, x = .error e := by
  cases x with
  | ok a => exact absurd rfl (h a)
  | error e => exact ⟨e, rfl⟩

/-- Checks in a row all pass, or the first that fails is the outcome. -/
theorem forM_cases (f : α → Except ε PUnit) (as : List α) :
    (as.forM f = .ok ⟨⟩ ∧ ∀ a ∈ as, f a = .ok ⟨⟩) ∨
      ∃ before a after e, as = before ++ a :: after ∧ (∀ b ∈ before, f b = .ok ⟨⟩) ∧
        f a = .error e ∧ as.forM f = .error e := by
  induction as with
  | nil => exact .inl ⟨rfl, List.forall_mem_nil _⟩
  | cons a as ih =>
    have hstep : (a :: as).forM f = f a >>= fun _ => as.forM f := rfl
    rw [hstep]
    cases ha : f a with
    | error e => exact .inr ⟨[], a, as, e, rfl, List.forall_mem_nil _, ha, rfl⟩
    | ok =>
      rcases ih with ⟨hall, has⟩ | ⟨before, b, after, e, rfl, hbefore, hb, hall⟩
      · exact .inl ⟨hall, List.forall_mem_cons.mpr ⟨ha, has⟩⟩
      · exact .inr ⟨a :: before, b, after, e, rfl, List.forall_mem_cons.mpr ⟨ha, hbefore⟩, hb, hall⟩

/-- Two computations that look alike at every step look alike as a whole. -/
theorem map_bind_congr {x y : Except ε α} {g h : α → Except ε β} {f : α → γ} {k : β → δ}
    (hxy : x.map f = y.map f) (hgh : ∀ a b, f a = f b → (g a).map k = (h b).map k) :
    (x >>= g).map k = (y >>= h).map k := by
  cases x with
  | ok a =>
    cases y with
    | ok b => exact hgh a b (Except.ok.inj hxy)
    | error e => cases hxy
  | error e =>
    cases y with
    | ok b => cases hxy
    | error e' =>
      cases hxy
      rfl

/-- Two computations that look alike both fail, in the same way, or both give values that look
alike. -/
theorem map_eq_map_cases {x y : Except ε α} {f : α → β} (h : x.map f = y.map f) :
    (∃ e, x = .error e ∧ y = .error e) ∨ ∃ a b, x = .ok a ∧ y = .ok b ∧ f a = f b := by
  cases x with
  | ok a =>
    cases y with
    | ok b => exact .inr ⟨a, b, rfl, rfl, Except.ok.inj h⟩
    | error e => cases h
  | error e =>
    cases y with
    | ok b => cases h
    | error e' =>
      cases h
      exact .inl ⟨e, rfl, rfl⟩

end Except
