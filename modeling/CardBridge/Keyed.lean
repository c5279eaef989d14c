/-!
# Finite maps

A finite map as a list of keys with their values. `put` keeps the place of a key that is there
already, and a key is looked up by `List.lookup`.
-/

namespace CardBridge

/-- A finite map. A key stands in it once if it was made with `put`. -/
abbrev Keyed (κ α : Type) := List (κ × α)

namespace Keyed

variable {κ α : Type} [DecidableEq κ]

/-- Give a key a value. -/
def put (k : κ) (v : α) : Keyed κ α → Keyed κ α
  | [] => [(k, v)]
  | (k', v') :: rest => if k' = k then (k, v) :: rest else (k', v') :: put k v rest

/-- Take a key away. -/
def erase (k : κ) (m : Keyed κ α) : Keyed κ α :=
  m.filter fun p => p.1 ≠ k

theorem lookup_cons (k k' : κ) (v : α) (m : Keyed κ α) :
    List.lookup k ((k', v) :: m) = if k' = k then some v else List.lookup k m := by
  by_cases h : k' = k
  · subst h; simp
  · have : (k == k') = false := by simp [Ne.symm h]
    simp [List.lookup_cons, this, h]

@[simp] theorem lookup_put_self (k : κ) (v : α) (m : Keyed κ α) :
    (put k v m).lookup k = some v := by
  induction m with
  | nil => simp [put]
  | cons p m ih =>
    obtain ⟨k', v'⟩ := p
    by_cases h : k' = k <;> simp [put, h, lookup_cons, ih]

theorem lookup_put_of_ne {k k' : κ} (h : k' ≠ k) (v : α) (m : Keyed κ α) :
    (put k v m).lookup k' = m.lookup k' := by
  induction m with
  | nil => simp [put, lookup_cons, Ne.symm h]
  | cons p m ih =>
    obtain ⟨k₂, v₂⟩ := p
    by_cases h₂ : k₂ = k
    · subst h₂; simp [put, lookup_cons, Ne.symm h]
    · simp [put, h₂, lookup_cons, ih]

/-- What is found after `put` is what was put or what was there under another key. -/
theorem lookup_put_cases {k k' : κ} {v w : α} {m : Keyed κ α}
    (h : (put k v m).lookup k' = some w) : (k' = k ∧ w = v) ∨ (k' ≠ k ∧ m.lookup k' = some w) := by
  by_cases eq : k' = k
  · subst eq
    rw [lookup_put_self] at h
    exact .inl ⟨rfl, (Option.some.inj h).symm⟩
  · rw [lookup_put_of_ne eq] at h
    exact .inr ⟨eq, h⟩

@[simp] theorem put_put (k : κ) (v v' : α) (m : Keyed κ α) : put k v (put k v' m) = put k v m := by
  induction m with
  | nil => simp [put]
  | cons p m ih =>
    obtain ⟨k', w⟩ := p
    by_cases h : k' = k <;> simp [put, h, ih]

@[simp] theorem lookup_erase_self (k : κ) (m : Keyed κ α) : (erase k m).lookup k = none := by
  induction m with
  | nil => rfl
  | cons p m ih =>
    obtain ⟨k', v⟩ := p
    by_cases h : k' = k
    · subst h; simpa [erase] using ih
    · simpa [erase, h, lookup_cons] using ih

theorem lookup_erase_of_ne {k k' : κ} (h : k' ≠ k) (m : Keyed κ α) :
    (erase k m).lookup k' = m.lookup k' := by
  induction m with
  | nil => rfl
  | cons p m ih =>
    obtain ⟨k₂, v⟩ := p
    by_cases h₂ : k₂ = k
    · subst h₂; simpa [erase, lookup_cons, Ne.symm h] using ih
    · by_cases h₃ : k₂ = k'
      · subst h₃; simp [erase, h₂]
      · simpa [erase, h₂, h₃, lookup_cons] using ih

/-- What is found after `erase` was there under another key. -/
theorem lookup_erase_cases {k k' : κ} {v : α} {m : Keyed κ α}
    (h : (erase k m).lookup k' = some v) : k' ≠ k ∧ m.lookup k' = some v := by
  by_cases eq : k' = k
  · subst eq
    rw [lookup_erase_self] at h
    cases h
  · rw [lookup_erase_of_ne eq] at h
    exact ⟨eq, h⟩

end Keyed

end CardBridge
