/-!
# Associations

Entries in the order in which their keys came first. A key that comes again keeps its place and
takes the new value: `keys_assign` says where the keys stand, `lookup_assign` what they lead to.
-/

namespace Planar.Association

variable {κ β : Type}

/-- `entries` with `value` under `key`; `same` tells when two keys are one. -/
def assign (same : κ → κ → Bool) (entries : List (κ × β)) (key : κ) (value : β) : List (κ × β) :=
  if entries.any (same ·.1 key) then
    entries.map fun entry => if same entry.1 key then (entry.1, value) else entry
  else entries ++ [(key, value)]

/-- The entries that are left when some are assigned one after another. -/
def ofEntries (same : κ → κ → Bool) (entries : List (κ × β)) : List (κ × β) :=
  entries.foldl (fun done entry => assign same done entry.1 entry.2) []

/-- Assigning keeps every key in its place and puts a new one last. -/
theorem keys_assign (same : κ → κ → Bool) (entries : List (κ × β)) (key : κ) (value : β) :
    (assign same entries key value).map Prod.fst =
      entries.map Prod.fst ++ if entries.any (same ·.1 key) then [] else [key] := by
  unfold assign
  split
  · rw [List.map_map, List.append_nil]
    refine List.map_congr_left fun entry _ => ?_
    show (if same entry.1 key then (entry.1, value) else entry).1 = entry.1
    split <;> rfl
  · simp

variable [BEq κ]

theorem lookup_append_singleton (entries : List (κ × β)) (key other : κ) (value : β) :
    (entries ++ [(key, value)]).lookup other =
      (entries.lookup other).or (if other == key then some value else none) := by
  induction entries with
  | nil => cases h : other == key <;> simp [List.lookup_cons, h]
  | cons entry rest ih =>
    rw [List.cons_append, List.lookup_cons, List.lookup_cons, ih]
    cases other == entry.1 <;> rfl

variable [LawfulBEq κ]

theorem lookup_map_value (entries : List (κ × β)) (key other : κ) (value : β) :
    (entries.map fun entry => if entry.1 == key then (entry.1, value) else entry).lookup other =
      (entries.lookup other).map fun old => if other == key then value else old := by
  induction entries with
  | nil => rfl
  | cons entry rest ih =>
    obtain ⟨name, old⟩ := entry
    cases hname : other == name with
    | false => by_cases h : name == key <;> simp [List.lookup_cons, hname, h, ih]
    | true =>
      rw [eq_of_beq hname]
      by_cases h : name == key <;> simp [h]

theorem isSome_lookup (entries : List (κ × β)) (key : κ) :
    (entries.lookup key).isSome = entries.any (·.1 == key) := by
  induction entries with
  | nil => rfl
  | cons entry rest ih =>
    rw [List.any_cons, ← ih, List.lookup_cons, BEq.comm]
    cases entry.1 == key <;> rfl

/-- After assigning, the key leads to the new value and every other key to what it led to. -/
theorem lookup_assign (entries : List (κ × β)) (key other : κ) (value : β) :
    (assign (· == ·) entries key value).lookup other =
      if other == key then some value else entries.lookup other := by
  unfold assign
  rw [← isSome_lookup]
  cases hother : other == key with
  | true =>
    rw [eq_of_beq hother]
    split
    next h =>
      obtain ⟨old, hold⟩ := Option.isSome_iff_exists.1 h
      simp [lookup_map_value, hold]
    next h => simp [lookup_append_singleton, Option.not_isSome_iff_eq_none.1 h]
  | false =>
    split
    · rw [lookup_map_value]
      simp [hother]
    · simp [lookup_append_singleton, hother]

end Planar.Association
