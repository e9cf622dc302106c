import AssetCompiler.Models
import Mathlib.Tactic.Common

/-!
What it takes to read a value: a reading of several fields succeeds exactly if each field does, and a
list of texts is read only from texts.
-/
namespace AssetCompiler

namespace Reading

variable {α β : Type}

theorem apply_eq_ok {f : Reading (α → β)} {x : Reading α} {b : β} :
    Reading.apply f x = .ok b ↔ ∃ g a, f = .ok g ∧ x = .ok a ∧ g a = b := by
  constructor
  · intro h
    cases f with
    | error e => cases x <;> cases h
    | ok g =>
      cases x with
      | error e => cases h
      | ok a =>
        cases h
        exact ⟨g, a, rfl, rfl, rfl⟩
  · rintro ⟨g, a, rfl, rfl, rfl⟩
    rfl

@[simp] theorem apply_ok_ok (g : α → β) (a : α) :
    Reading.apply (.ok g) (.ok a) = .ok (g a) := rfl

@[simp] theorem within_eq_ok {place : Place} {x : Reading α} {a : α} :
    x.within place = .ok a ↔ x = .ok a := by
  cases x <;> simp [within]

theorem map_eq_ok {f : α → β} {x : Reading α} {b : β} :
    Except.map f x = .ok b ↔ ∃ a, x = .ok a ∧ f a = b := by
  cases x <;> simp [Except.map]

@[simp] theorem checked_eq_ok {model : String} {x : Reading α} {a : α} :
    x.checked model = .ok a ↔ x = .ok a := by
  cases x <;> simp [checked]

end Reading

namespace Schema

theorem text_eq_ok {v : Json} {s : String} : text v = .ok s ↔ v = .str s := by
  cases v <;> simp [text, Reading.fail]

/-- The items of a list are read as texts exactly if they are texts. -/
theorem itemsFrom_text_eq_ok (n : Nat) (items : List Json) (ds : List String) :
    itemsFrom text n items = .ok ds ↔ items = ds.map .str := by
  induction items generalizing n ds with
  | nil =>
    simp only [itemsFrom, Except.ok.injEq]
    constructor
    · rintro rfl
      rfl
    · intro h
      exact (List.map_eq_nil_iff.mp h.symm).symm
  | cons v rest ih =>
    rw [itemsFrom, Reading.apply_eq_ok]
    constructor
    · rintro ⟨g, tail, hhead, htail, rfl⟩
      obtain ⟨d, hd, rfl⟩ := Reading.map_eq_ok.mp hhead
      rw [Reading.within_eq_ok, text_eq_ok] at hd
      rw [hd, (ih (n + 1) tail).mp htail]
      rfl
    · intro h
      cases ds with
      | nil => simp at h
      | cons d tail =>
        simp only [List.map_cons, List.cons.injEq] at h
        refine ⟨List.cons d, tail, ?_, (ih (n + 1) tail).mpr h.2, rfl⟩
        exact Reading.map_eq_ok.mpr ⟨d, Reading.within_eq_ok.mpr (text_eq_ok.mpr h.1), rfl⟩

theorem list_text_eq_ok {v : Json} {ds : List String} :
    list text v = .ok ds ↔ v = Json.strings ds := by
  cases v with
  | arr items => simp [list, itemsFrom_text_eq_ok, Json.strings]
  | _ => simp [list, Reading.fail, Json.strings]

end Schema
end AssetCompiler
