import Mathlib.Data.List.Induction
import Mathlib.Data.List.Nodup

/-!
# Tables filled by observations

A table is a list of entries with a key.  An observation changes the first entry that has its key,
or appends a new one.  From an empty table on, the entries are then those of the keys in the order
in which they were first observed, each made by the observations of its key (`entries_eq`).
-/

namespace IpcFtp.Lib

variable {α β Ω : Type}

/-! ## Keys in the order in which they come -/

section Keys

variable [DecidableEq α]

theorem eraseDups_concat (keys : List α) (k : α) :
    (keys ++ [k]).eraseDups = if k ∈ keys then keys.eraseDups else keys.eraseDups ++ [k] := by
  rw [List.eraseDups_append]
  split_ifs with known <;> simp [List.removeAll, List.eraseDups_cons, known]

theorem nodup_eraseDups (keys : List α) : keys.eraseDups.Nodup := by
  induction keys using List.reverseRecOn with
  | nil => exact List.nodup_nil
  | append_singleton keys k ih =>
      rw [eraseDups_concat]
      split_ifs with known
      · exact ih
      · refine List.nodup_append.mpr ⟨ih, List.nodup_singleton k, ?_⟩
        intro a earlier b last
        rw [List.mem_singleton.mp last]
        intro same
        subst same
        exact known (List.mem_eraseDups.mp earlier)

/-- A renaming that keeps the keys of a list apart keeps their order. -/
theorem eraseDups_map {γ : Type} [DecidableEq γ] {f : α → γ} {keys : List α}
    (apart : ∀ a ∈ keys, ∀ b ∈ keys, f a = f b → a = b) :
    (keys.map f).eraseDups = keys.eraseDups.map f := by
  induction keys using List.reverseRecOn with
  | nil => rfl
  | append_singleton keys k ih =>
      have front := ih fun a first b second => apart a (List.mem_append_left _ first) b
        (List.mem_append_left _ second)
      have known : f k ∈ keys.map f ↔ k ∈ keys := by
        constructor
        · intro member
          obtain ⟨a, first, same⟩ := List.mem_map.mp member
          rwa [← apart a (List.mem_append_left _ first) k (by simp) same]
        · exact List.mem_map_of_mem
      rw [List.map_append, List.map_singleton, eraseDups_concat, eraseDups_concat, front]
      simp only [known]
      split_ifs
      · rfl
      · rw [List.map_append, List.map_singleton]

end Keys

/-! ## One observation -/

/-- Change the first entry with this key, or append one. -/
def record [DecidableEq α] (key : β → α) (k : α) (change : β → β) (new : β) : List β → List β
  | [] => [new]
  | entry :: entries =>
    if key entry = k then change entry :: entries else entry :: record key k change new entries

section Record

variable [DecidableEq α] {key : β → α} {k : α} {change : β → β} {new : β} {entries : List β}

theorem record_of_new (unknown : k ∉ entries.map key) :
    record key k change new entries = entries ++ [new] := by
  induction entries with
  | nil => rfl
  | cons entry entries ih =>
      rw [List.map_cons, List.mem_cons, not_or] at unknown
      rw [record, if_neg (Ne.symm unknown.1), ih unknown.2, List.cons_append]

theorem record_of_known (known : k ∈ entries.map key) (nodup : (entries.map key).Nodup) :
    record key k change new entries =
      entries.map fun entry => if key entry = k then change entry else entry := by
  induction entries with
  | nil => cases known
  | cons entry entries ih =>
      rw [List.map_cons, List.nodup_cons] at nodup
      rw [List.map_cons, List.mem_cons] at known
      rw [record, List.map_cons]
      by_cases here : key entry = k
      · -- the entries behind it have other keys
        have others : entries.map (fun entry => if key entry = k then change entry else entry) =
            entries := by
          refine (List.map_congr_left fun other member => ?_).trans (List.map_id entries)
          rw [if_neg, id]
          intro same
          exact nodup.1 (here ▸ same ▸ List.mem_map_of_mem member)
        rw [if_pos here, if_pos here, others]
      · rw [if_neg here, if_neg here, ih (known.resolve_left (Ne.symm here)) nodup.2]

end Record

/-! ## All observations -/

/-- What an observation does to an entry of its key, and the entry it makes if there is none. -/
structure Registry (Ω α β : Type) : Type where
  of : Ω → α
  key : β → α
  new : Ω → β
  change : Ω → β → β
  key_new : ∀ o, key (new o) = of o
  key_change : ∀ o entry, key (change o entry) = key entry

namespace Registry

variable (r : Registry Ω α β)

/-- The entry that the observations of one key make. -/
def entry : List Ω → Option β
  | [] => none
  | o :: os => some (os.foldl (fun entry o => r.change o entry) (r.new o))

theorem entry_concat {os : List Ω} (nonempty : os ≠ []) (o : Ω) :
    r.entry (os ++ [o]) = (r.entry os).map (r.change o) := by
  obtain ⟨first, os, rfl⟩ := List.exists_cons_of_ne_nil nonempty
  simp only [List.cons_append, entry, List.foldl_append, List.foldl_cons, List.foldl_nil,
    Option.map_some]

theorem key_entry {os : List Ω} {k : α} {made : β} (same : ∀ o ∈ os, r.of o = k)
    (makes : r.entry os = some made) : r.key made = k := by
  induction os using List.reverseRecOn generalizing made with
  | nil => cases makes
  | append_singleton os o ih =>
      rcases eq_or_ne os [] with rfl | nonempty
      · cases makes
        exact (r.key_new o).trans (same o (by simp))
      · rw [r.entry_concat nonempty] at makes
        obtain ⟨earlier, before, rfl⟩ := Option.map_eq_some_iff.mp makes
        exact (r.key_change o earlier).trans
          (ih (fun o member => same o (List.mem_append_left _ member)) before)

variable [DecidableEq α]

def step (entries : List β) (o : Ω) : List β := record r.key (r.of o) (r.change o) (r.new o) entries

def entries (os : List Ω) : List β := os.foldl r.step []

/-- The observations of a key. -/
def observed (os : List Ω) (k : α) : List Ω := os.filter fun o => r.of o = k

theorem of_mem_observed {os : List Ω} {k : α} {o : Ω} (member : o ∈ r.observed os k) : r.of o = k := by
  simpa using (List.mem_filter.mp member).2

theorem key_observed {os : List Ω} {k : α} {made : β} (makes : r.entry (r.observed os k) = some made) :
    r.key made = k :=
  r.key_entry (fun _ member => r.of_mem_observed member) makes

theorem observed_ne_nil {os : List Ω} {k : α} (known : k ∈ os.map r.of) : r.observed os k ≠ [] := by
  obtain ⟨o, member, rfl⟩ := List.mem_map.mp known
  exact List.ne_nil_of_mem (List.mem_filter.mpr ⟨member, by simp⟩)

/-- The keys of what was made of some keys are these keys. -/
theorem keys_filterMap {os : List Ω} {keys : List α} (known : ∀ k ∈ keys, k ∈ os.map r.of) :
    (keys.filterMap fun k => r.entry (r.observed os k)).map r.key = keys := by
  rw [List.map_filterMap]
  have all : ∀ k ∈ keys, (r.entry (r.observed os k)).map r.key = some k := by
    intro k member
    obtain ⟨o, rest, split⟩ := List.exists_cons_of_ne_nil (r.observed_ne_nil (known k member))
    have makes : r.entry (r.observed os k) =
        some (rest.foldl (fun entry o => r.change o entry) (r.new o)) := by
      rw [split, entry]
    rw [makes, Option.map_some, r.key_observed makes]
  rw [List.filterMap_congr all, List.filterMap_some]

/-- Each key has one entry, in the order in which the keys were first observed, and its entry is
made by its own observations. -/
theorem entries_eq (os : List Ω) :
    r.entries os = (os.map r.of).eraseDups.filterMap fun k => r.entry (r.observed os k) := by
  induction os using List.reverseRecOn with
  | nil => rfl
  | append_singleton os o ih =>
      have keys : (r.entries os).map r.key = (os.map r.of).eraseDups := by
        rw [ih, r.keys_filterMap fun k member => List.mem_eraseDups.mp member]
      have observes (k : α) : r.observed (os ++ [o]) k =
          r.observed os k ++ if r.of o = k then [o] else [] := by
        simp only [observed, List.filter_append, List.filter_cons, List.filter_nil, decide_eq_true_eq]
      have here : r.entries (os ++ [o]) = r.step (r.entries os) o := by
        simp only [entries, List.foldl_append, List.foldl_cons, List.foldl_nil]
      rw [here, step, List.map_append, List.map_singleton, eraseDups_concat]
      split_ifs with known
      · rw [record_of_known (by rwa [keys, List.mem_eraseDups]) (by rw [keys]; exact nodup_eraseDups _),
          ih, List.map_filterMap]
        apply List.filterMap_congr
        intro k member
        rw [observes]
        split_ifs with same
        · subst same
          rw [r.entry_concat (r.observed_ne_nil known)]
          cases makes : r.entry (r.observed os (r.of o)) with
          | none => rfl
          | some made => rw [Option.map_some, Option.map_some, if_pos (r.key_observed makes)]
        · rw [List.append_nil]
          cases makes : r.entry (r.observed os k) with
          | none => rfl
          | some made =>
              rw [Option.map_some, if_neg]
              rw [r.key_observed makes]
              exact Ne.symm same
      · rw [record_of_new (by rwa [keys, List.mem_eraseDups]), ih, List.filterMap_append]
        congr 1
        · apply List.filterMap_congr
          intro k member
          rw [observes, if_neg, List.append_nil]
          intro same
          subst same
          exact known (List.mem_eraseDups.mp member)
        · -- the key is new
          have none : r.observed os (r.of o) = [] := by
            rw [observed, List.filter_eq_nil_iff]
            intro other member
            rw [decide_eq_true_eq]
            intro same
            exact known (same ▸ List.mem_map_of_mem member)
          simp [observes, none, entry]

/-- The entries, when it is known what the observations of each key make. -/
theorem entries_eq_map {os : List Ω} {made : α → β}
    (makes : ∀ k, r.observed os k ≠ [] → r.entry (r.observed os k) = some (made k)) :
    r.entries os = (os.map r.of).eraseDups.map made := by
  have all : ∀ k ∈ (os.map r.of).eraseDups, r.entry (r.observed os k) = some (made k) := by
    intro k member
    exact makes k (r.observed_ne_nil (List.mem_eraseDups.mp member))
  rw [r.entries_eq, List.filterMap_congr all, List.filterMap_eq_map']

end Registry

end IpcFtp.Lib
