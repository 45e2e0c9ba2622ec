import NamedRoutes.OrderedMap

/-!
What a change of an ordered map does to its lookups and to the order of its keys.
-/

namespace NamedRoutes.OrderedMap

variable {κ α : Type} [DecidableEq κ]

def keys (m : OrderedMap κ α) : List κ := m.entries.map (·.1)

theorem get?_empty (key : κ) : (empty : OrderedMap κ α).get? key = none := rfl

theorem lookup_alterEntries (key other : κ) (change : Option α → α) (entries : List (κ × α)) :
    (alterEntries key change entries).lookup other =
      if other = key then some (change (entries.lookup key)) else entries.lookup other := by
  induction entries with
  | nil =>
      by_cases h : other = key
      · simp [alterEntries, h]
      · simp [alterEntries, h]
  | cons pair rest ih =>
      obtain ⟨k, a⟩ := pair
      unfold alterEntries
      by_cases hk : k = key
      · subst hk
        rw [if_pos rfl, List.lookup_cons_self, List.lookup_cons, List.lookup_cons]
        by_cases h : other = k
        · simp [h]
        · have hbeq : (other == k) = false := beq_false_of_ne h
          rw [hbeq, if_neg h]
      · have hkey : (key == k) = false := beq_false_of_ne (Ne.symm hk)
        rw [if_neg hk, List.lookup_cons, ih, List.lookup_cons, List.lookup_cons, hkey]
        by_cases h : other = k
        · subst h
          simp [hk]
        · have hbeq : (other == k) = false := beq_false_of_ne h
          rw [hbeq]

theorem get?_alter (m : OrderedMap κ α) (key other : κ) (change : Option α → α) :
    (m.alter key change).get? other =
      if other = key then some (change (m.get? key)) else m.get? other :=
  lookup_alterEntries key other change m.entries

theorem get?_insert (m : OrderedMap κ α) (key other : κ) (value : α) :
    (m.insert key value).get? other = if other = key then some value else m.get? other :=
  get?_alter m key other fun _ => value

theorem get?_insert_self (m : OrderedMap κ α) (key : κ) (value : α) :
    (m.insert key value).get? key = some value := by
  rw [get?_insert, if_pos rfl]

theorem keys_alter (m : OrderedMap κ α) (key : κ) (change : Option α → α) :
    (m.alter key change).keys = if key ∈ m.keys then m.keys else m.keys ++ [key] := by
  unfold keys alter
  induction m.entries with
  | nil => rfl
  | cons pair rest ih =>
      obtain ⟨k, a⟩ := pair
      simp only at ih
      simp only [alterEntries, List.map_cons, List.mem_cons]
      by_cases hk : k = key
      · simp [hk]
      · rw [if_neg hk, List.map_cons, ih]
        have hne : ¬ key = k := Ne.symm hk
        by_cases hmem : key ∈ rest.map (·.1)
        · simp [hmem]
        · simp [hmem, hne]

theorem nodup_keys_alter {m : OrderedMap κ α} (h : m.keys.Nodup) (key : κ)
    (change : Option α → α) : (m.alter key change).keys.Nodup := by
  rw [keys_alter]
  by_cases hmem : key ∈ m.keys
  · rw [if_pos hmem]
    exact h
  · rw [if_neg hmem]
    apply List.nodup_append.mpr
    refine ⟨h, List.nodup_cons.mpr ⟨by simp, List.nodup_nil⟩, ?_⟩
    intro a ha b hb hab
    rw [List.mem_singleton.mp hb] at hab
    exact hmem (hab ▸ ha)

theorem get?_of_mem {m : OrderedMap κ α} (h : m.keys.Nodup) {key : κ} {value : α}
    (hmem : (key, value) ∈ m.entries) : m.get? key = some value := by
  obtain ⟨entries⟩ := m
  unfold keys at h
  unfold get?
  induction entries with
  | nil => cases hmem
  | cons pair rest ih =>
      obtain ⟨k, a⟩ := pair
      rw [List.map_cons, List.nodup_cons] at h
      rw [List.lookup_cons]
      rcases List.mem_cons.mp hmem with hhead | htail
      · cases hhead
        simp
      · have hne : key ≠ k := by
          intro hkey
          apply h.1
          rw [← hkey]
          exact List.mem_map.mpr ⟨(key, value), htail, rfl⟩
        rw [beq_false_of_ne hne]
        exact ih h.2 htail

theorem mem_of_get? {m : OrderedMap κ α} {key : κ} {value : α} (h : m.get? key = some value) :
    (key, value) ∈ m.entries := by
  obtain ⟨before, after, hentries, _⟩ := List.lookup_eq_some_iff.mp h
  rw [hentries]
  exact List.mem_append_right _ (List.mem_cons_self ..)

theorem mem_values_of_get? {m : OrderedMap κ α} {key : κ} {value : α}
    (h : m.get? key = some value) : value ∈ m.values :=
  List.mem_map_of_mem (mem_of_get? h)

theorem mem_values_insert_self (m : OrderedMap κ α) (key : κ) (value : α) :
    value ∈ (m.insert key value).values :=
  mem_values_of_get? (get?_insert_self m key value)

theorem mem_values_alter {m : OrderedMap κ α} {key : κ} {change : Option α → α} {value : α}
    (h : value ∈ (m.alter key change).values) :
    value ∈ m.values ∨ ∃ old, value = change old := by
  obtain ⟨entries⟩ := m
  unfold values alter at h
  unfold values
  induction entries with
  | nil =>
      exact Or.inr ⟨none, List.mem_singleton.mp h⟩
  | cons pair rest ih =>
      obtain ⟨k, a⟩ := pair
      rw [List.map_cons, List.mem_cons]
      simp only [alterEntries] at h
      by_cases hk : k = key
      · rw [if_pos hk, List.map_cons, List.mem_cons] at h
        rcases h with rfl | h
        · exact Or.inr ⟨_, rfl⟩
        · exact Or.inl (Or.inr h)
      · rw [if_neg hk, List.map_cons, List.mem_cons] at h
        rcases h with rfl | h
        · exact Or.inl (Or.inl rfl)
        · rcases ih h with hrest | hnew
          · exact Or.inl (Or.inr hrest)
          · exact Or.inr hnew

/-- What is listed of the values of a map grows by what the changed value has more than the old one.
-/
theorem flatMap_values_alter {β : Type} (f : α → List β) (new : List β) (m : OrderedMap κ α)
    (key : κ) (change : Option α → α)
    (h : (f (change (m.get? key))).Perm (((m.get? key).map f).getD [] ++ new)) :
    ((m.alter key change).values.flatMap f).Perm (m.values.flatMap f ++ new) := by
  obtain ⟨entries⟩ := m
  unfold get? at h
  unfold values alter
  induction entries with
  | nil =>
      simpa [alterEntries] using h
  | cons pair rest ih =>
      obtain ⟨k, a⟩ := pair
      simp only [alterEntries]
      by_cases hk : k = key
      · subst hk
        rw [List.lookup_cons_self] at h
        rw [if_pos rfl, List.map_cons, List.flatMap_cons, List.map_cons, List.flatMap_cons,
          List.append_assoc]
        have hfront := h.append_right ((rest.map (·.2)).flatMap f)
        rw [Option.map_some, Option.getD_some, List.append_assoc] at hfront
        exact hfront.trans (List.perm_append_comm.append_left (f a))
      · have hkey : (key == k) = false := beq_false_of_ne (Ne.symm hk)
        rw [List.lookup_cons, hkey] at h
        rw [if_neg hk, List.map_cons, List.flatMap_cons, List.map_cons, List.flatMap_cons,
          List.append_assoc]
        exact (ih h).append_left (f a)

/-- A new key comes with one more value. -/
theorem values_insert_of_get?_none {m : OrderedMap κ α} {key : κ} (h : m.get? key = none)
    (value : α) :
    (m.insert key value).values.Perm (m.values ++ [value]) := by
  have hsingles := flatMap_values_alter (fun a => [a]) [value] m key (fun _ => value) (by simp [h])
  rw [List.flatMap_singleton', List.flatMap_singleton'] at hsingles
  exact hsingles

end NamedRoutes.OrderedMap
