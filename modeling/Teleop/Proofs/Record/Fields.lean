import Mathlib.Data.List.Nodup
import Teleop.Proofs.Json.Number

/-!
# Fields that were written are read

The members that an object is written with are the members that it has. Where their names differ, no field
is repeated, and a field is read from the value that was written under its name
(`Fields.required?_of_mem`).
-/

namespace Teleop

open Numeric

namespace Json

theorem members?_ofMembers (members : List (String × Json)) :
    (ofMembers members).members? = some members := by
  rw [ofMembers, members?]
  induction members with
  | nil => rfl
  | cons m rest ih =>
    rw [List.map_cons, List.mapM_cons, ih]
    simp [unescape?_escape]

theorem asString?_ofString (s : String) : (ofString s).asString? = some s := by
  simp [ofString, ofChars, asString?, unescape?_escape]

theorem asTagged?_ofString (s : String) : (ofString s).asTagged? = some (s, none) := by
  simp [ofString, ofChars, asTagged?, unescape?_escape]

theorem asTagged?_ofMembers (name : String) (value : Json) :
    (ofMembers [(name, value)]).asTagged? = some (name, some value) := by
  simp [ofMembers, asTagged?, unescape?_escape]

/-- A choice is read from its name if it is the first one of that name. -/
theorem asChoice?_ofString {α : Type} {isNothing : Json → Bool} {choices : List α} {name : α → String}
    {a : α} (h : choices.find? (name · = name a) = some a) :
    asChoice? isNothing choices name (ofString (name a)) = some a := by
  rw [asChoice?, asTagged?_ofString]
  exact h

/-- Elements that are read back one by one are read back together. -/
theorem asList?_map {α : Type} {read : Json → Option α} {write : α → Json} {as : List α}
    (h : ∀ a ∈ as, read (write a) = some a) : asList? read (array (as.map write)) = some as := by
  rw [asList?]
  induction as with
  | nil => rfl
  | cons a rest ih =>
    have hhead : read (write a) = some a := h a List.mem_cons_self
    rw [List.map_cons, List.mapM_cons, hhead, ih fun b hb => h b (List.mem_cons_of_mem _ hb)]
    rfl

end Json

namespace Fields

variable {given : List (String × Json)} {name : String} {value : Json} {α : Type}

theorem isUnique_of_nodup (h : (given.map Prod.fst).Nodup) (names : List String) :
    isUnique names given = true := by
  simp only [isUnique, List.all_eq_true, decide_eq_true_eq]
  intro name _
  have hcount := List.nodup_iff_count_le_one.mp h name
  rw [List.count, List.countP_map, List.countP_eq_length_filter] at hcount
  exact hcount

theorem lookup_of_mem (hnames : (given.map Prod.fst).Nodup) (h : (name, value) ∈ given) :
    given.lookup name = some value := by
  obtain ⟨before, behind, rfl⟩ := List.append_of_mem h
  refine List.lookup_eq_some_iff.mpr ⟨before, behind, rfl, fun m hm => ?_⟩
  rw [List.map_append, List.map_cons] at hnames
  have hapart := (List.nodup_append.mp hnames).2.2 m.1 (List.mem_map_of_mem hm) name
    List.mem_cons_self
  simpa using hapart.symm

theorem required?_of_mem (hnames : (given.map Prod.fst).Nodup) (h : (name, value) ∈ given)
    (read : Json → Option α) : required? ⟨given, false⟩ name read = read value := by
  rw [required?, lookup_of_mem hnames h, Option.bind_some]

theorem optional?_of_mem (hnames : (given.map Prod.fst).Nodup) (h : (name, value) ∈ given)
    (read : Json → Option α) :
    optional? ⟨given, false⟩ name read = Json.asOptional? read value := by
  rw [optional?, lookup_of_mem hnames h]

end Fields

end Teleop
