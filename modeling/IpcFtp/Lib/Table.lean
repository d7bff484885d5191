import Mathlib.Data.List.Nodup
import Mathlib.Logic.Function.Basic

/-!
# Tables with a key

The rows of a table no two of which agree on a key are a partial map from keys to rows.  A new
row enters it under its key, and a change that leaves the keys alone maps over it.  A change of
the rows with one value in another column that is unique changes at most one row.
-/

namespace IpcFtp.Lib

variable {ρ κ ι : Type} {key : ρ → κ} {rows : List ρ} {row : ρ} {k : κ}

/-- Rows that agree on a key are the same. -/
theorem eq_of_key (nodup : (rows.map key).Nodup) {other : ρ} (member : row ∈ rows)
    (member' : other ∈ rows) (same : key row = key other) : row = other :=
  List.inj_on_of_nodup_map nodup member member' same

theorem nodup_append (nodup : (rows.map key).Nodup) (fresh : ∀ other ∈ rows, key other ≠ key row) :
    ((rows ++ [row]).map key).Nodup := by
  rw [List.map_append, List.map_singleton]
  refine List.nodup_append.mpr ⟨nodup, List.nodup_singleton _, ?_⟩
  intro k member k' last
  obtain ⟨other, inside, rfl⟩ := List.mem_map.mp member
  rw [List.mem_singleton.mp last]
  exact fresh other inside

theorem map_key_map {change : ρ → ρ} (keeps : ∀ row, key (change row) = key row) :
    (rows.map change).map key = rows.map key := by
  rw [List.map_map]
  exact List.map_congr_left fun row _ => keeps row

/-! ## Entries -/

variable [DecidableEq κ]

/-- The row with a key. -/
def entry (key : ρ → κ) (rows : List ρ) (k : κ) : Option ρ := rows.find? fun row => key row = k

theorem entry_eq_none_iff : entry key rows k = none ↔ ∀ row ∈ rows, key row ≠ k := by
  unfold entry
  simp

theorem of_entry_eq_some (found : entry key rows k = some row) : row ∈ rows ∧ key row = k :=
  ⟨List.mem_of_find?_eq_some found, by simpa using List.find?_some found⟩

theorem entry_eq_some_iff (nodup : (rows.map key).Nodup) :
    entry key rows k = some row ↔ row ∈ rows ∧ key row = k := by
  constructor
  · exact of_entry_eq_some
  · intro given
    obtain ⟨member, rfl⟩ := given
    cases found : entry key rows (key row) with
    | none => exact absurd rfl (entry_eq_none_iff.mp found row member)
    | some other =>
        obtain ⟨inside, same⟩ := of_entry_eq_some found
        rw [eq_of_key nodup inside member same]

/-- The rows with a key that pass a test. -/
theorem filter_eq_entry (nodup : (rows.map key).Nodup) (p : ρ → Prop) [DecidablePred p] :
    (rows.filter fun row => key row = k ∧ p row) = (entry key rows k).toList.filter p := by
  induction rows with
  | nil => rfl
  | cons first rows ih =>
      rw [List.map_cons, List.nodup_cons] at nodup
      rw [List.filter_cons, ih nodup.2]
      unfold entry
      by_cases same : key first = k
      · have others : rows.find? (fun row => key row = k) = none := by
          rw [List.find?_eq_none]
          intro row member hit
          rw [decide_eq_true_eq, ← same] at hit
          exact nodup.1 (hit ▸ List.mem_map_of_mem member)
        rw [others, List.find?_cons_of_pos (by simpa using same)]
        by_cases passes : p first <;> simp [same, passes]
      · rw [List.find?_cons_of_neg (by simpa using same)]
        simp [same]

/-- A new row under a new key. -/
theorem entry_append (fresh : ∀ other ∈ rows, key other ≠ key row) :
    entry key (rows ++ [row]) = Function.update (entry key rows) (key row) (some row) := by
  funext k
  unfold entry
  rw [List.find?_append]
  rcases eq_or_ne k (key row) with rfl | other
  · have absent : rows.find? (fun other => key other = key row) = none :=
      entry_eq_none_iff.mpr fresh
    rw [absent, Function.update_self, Option.none_or, List.find?_cons_of_pos (by simp)]
  · rw [Function.update_of_ne other, List.find?_cons_of_neg (by simpa using other.symm),
      List.find?_nil, Option.or_none]

/-! ## Changing rows -/

section Change

variable {change : ρ → ρ}

theorem entry_map (keeps : ∀ row, key (change row) = key row) :
    entry key (rows.map change) k = (entry key rows k).map change := by
  unfold entry
  rw [List.find?_map]
  congr 2
  funext row
  simp only [Function.comp_apply, keeps]

/-- A change of the rows with one value in a column that is unique changes the entry of one row. -/
theorem entry_change [DecidableEq ι] {column : ρ → ι} (alter : ρ → ρ)
    (nodup : (rows.map key).Nodup) (unique : (rows.map column).Nodup) (member : row ∈ rows)
    (keeps : ∀ row, key (alter row) = key row) :
    entry key (rows.map fun other => if column other = column row then alter other else other) =
      Function.update (entry key rows) (key row) (some (alter row)) := by
  have kept : ∀ other, key (if column other = column row then alter other else other) = key other := by
    intro other
    split_ifs
    · exact keeps other
    · rfl
  funext k
  rw [entry_map kept]
  rcases eq_or_ne k (key row) with rfl | different
  · rw [(entry_eq_some_iff nodup).mpr ⟨member, rfl⟩, Function.update_self, Option.map_some,
      if_pos rfl]
  · rw [Function.update_of_ne different]
    cases found : entry key rows k with
    | none => rfl
    | some other =>
        obtain ⟨inside, rfl⟩ := of_entry_eq_some found
        have apart : column other ≠ column row := by
          intro same
          exact different (congrArg key (eq_of_key unique inside member same))
        rw [Option.map_some, if_neg apart]

end Change

end IpcFtp.Lib
