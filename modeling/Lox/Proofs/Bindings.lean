import Lox.Bindings

/-!
# Looking up what was bound
-/

namespace Lox.Bindings

variable {α : Type}

@[simp] theorem find?_nil (name : String) : find? ([] : Bindings α) name = none := rfl

theorem find?_set (bindings : Bindings α) (name other : String) (value : α) :
    (bindings.set name value).find? other =
      if name = other then some value else bindings.find? other := by
  induction bindings with
  | nil => simp only [set, find?]
  | cons entry rest ih =>
      obtain ⟨key, old⟩ := entry
      simp only [set]
      by_cases hkey : key = name
      · subst hkey
        by_cases hother : key = other
        · simp [find?, hother]
        · simp [find?, hother]
      · by_cases hother : key = other
        · subst hother
          simp [find?, hkey, Ne.symm hkey]
        · simp [find?, hkey, hother, ih]

@[simp] theorem find?_set_self (bindings : Bindings α) (name : String) (value : α) :
    (bindings.set name value).find? name = some value := by
  simp [find?_set]

theorem find?_set_of_ne {bindings : Bindings α} {name other : String} {value : α}
    (h : name ≠ other) : (bindings.set name value).find? other = bindings.find? other := by
  simp [find?_set, h]

@[simp] theorem binds_nil (name : String) : binds ([] : Bindings α) name = false := rfl

theorem binds_set (bindings : Bindings α) (name other : String) (value : α) :
    (bindings.set name value).binds other =
      (decide (name = other) || bindings.binds other) := by
  unfold binds
  rw [find?_set]
  by_cases h : name = other <;> simp [h]

theorem binds_iff {bindings : Bindings α} {name : String} :
    bindings.binds name = true ↔ ∃ value, bindings.find? name = some value :=
  Option.isSome_iff_exists

theorem binds_eq_false {bindings : Bindings α} {name : String} :
    bindings.binds name = false ↔ bindings.find? name = none :=
  Option.isSome_eq_false_iff.trans Option.isNone_iff_eq_none

end Lox.Bindings
