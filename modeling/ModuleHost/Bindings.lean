/-!
# Bindings

Names bound to values: each name at most once, in the order in which the names were first bound.
-/

namespace ModuleHost

structure Bindings (α : Type) where
  entries : List (String × α) := []
deriving DecidableEq, Repr

namespace Bindings

variable {α : Type}

instance : Inhabited (Bindings α) := ⟨{}⟩

def get? (b : Bindings α) (name : String) : Option α := b.entries.lookup name

/-- The entries with `name` bound to `value`, in its old place if it had one. -/
def put (name : String) (value : α) : List (String × α) → List (String × α)
  | [] => [(name, value)]
  | entry :: rest => if entry.1 = name then (name, value) :: rest else entry :: put name value rest

def set (b : Bindings α) (name : String) (value : α) : Bindings α :=
  { entries := put name value b.entries }

theorem lookup_put (name key : String) (value : α) (entries : List (String × α)) :
    (put name value entries).lookup key
      = if key = name then some value else entries.lookup key := by
  induction entries with
  | nil =>
    by_cases h : key = name
    · simp [put, h]
    · have hb : (key == name) = false := by simp [h]
      simp [put, List.lookup_cons, hb, h]
  | cons entry rest ih =>
    obtain ⟨bound, old⟩ := entry
    by_cases he : bound = name
    · subst he
      by_cases h : key = bound
      · simp [put, h]
      · have hb : (key == bound) = false := by simp [h]
        simp [put, List.lookup_cons, hb, h]
    · by_cases hk : key = bound
      · subst hk
        simp [put, he]
      · have hb : (key == bound) = false := by simp [hk]
        simp [put, he, List.lookup_cons, hb, ih]

theorem get?_set (b : Bindings α) (name key : String) (value : α) :
    (b.set name value).get? key = if key = name then some value else b.get? key :=
  lookup_put name key value b.entries

end Bindings

end ModuleHost
