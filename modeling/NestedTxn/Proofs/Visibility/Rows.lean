import NestedTxn.Proofs.Visibility.Reading

/-!
# The rows of a range

* `RowStore.valueSeen`: the value of the newest version of a key that is seen.
* `SnapshotFilter.rowsSeen_inRange`: the rows of a range are the keys of the range that have such a
  value, ascending, each once. `lookup_rowsSeen`: so they show of a key of the range what is seen
  of it.
-/

namespace NestedTxn

/-- The value of the newest version of `key` that is seen. -/
def RowStore.valueSeen (sees : RowVersion → Bool) (r : RowStore) (key : Key) : Option Bytes :=
  ((r.versionsOf key).find? sees).bind (·.value)

theorem RowStore.versionsOf_of_not_mem {r : RowStore} {key : Key} (h : key ∉ r.keys) :
    r.versionsOf key = [] :=
  List.filter_eq_nil_iff.2 fun v hv hk => h (mem_keys.2 ⟨v, hv, of_decide_eq_true hk⟩)

namespace SnapshotFilter

variable {sees : RowVersion → Bool} {r : RowStore} {key : Key} {vs ws : List RowVersion}
  {decided : Option Key}

/-- The versions of a key whose visible version was found are passed over. -/
theorem rowsSeen_decided (h : ∀ v ∈ vs, v.key = key) :
    rowsSeen sees (some key) (vs ++ ws) = rowsSeen sees (some key) ws := by
  induction vs with
  | nil => rfl
  | cons v vs ih =>
    obtain ⟨hv, hvs⟩ := List.forall_mem_cons.1 h
    rw [List.cons_append, rowsSeen, if_pos (congrArg some hv.symm), ih hvs]

/-- The versions of a key come to at most one row. -/
theorem rowsSeen_append (ws : List RowVersion) (h : ∀ v ∈ vs, v.key = key)
    (hd : decided ≠ some key) :
    ∃ decided', (decided' = decided ∨ decided' = some key) ∧
      rowsSeen sees decided (vs ++ ws) =
        (((vs.find? sees).bind (·.value)).map (key, ·)).toList ++ rowsSeen sees decided' ws := by
  induction vs with
  | nil => exact ⟨decided, .inl rfl, rfl⟩
  | cons v vs ih =>
    obtain ⟨rfl, hvs⟩ := List.forall_mem_cons.1 h
    rw [List.cons_append, rowsSeen, if_neg hd]
    cases hsee : sees v with
    | true =>
      refine ⟨some v.key, .inr rfl, ?_⟩
      rw [if_pos rfl, rowsSeen_decided hvs, List.find?_cons_of_pos hsee]
      rfl
    | false =>
      rw [if_neg (by decide), List.find?_cons_of_neg (by simp [hsee])]
      exact ih hvs

theorem rowsSeen_flatMap {keys : List Key} (hkeys : keys.Nodup)
    (hd : ∀ key ∈ keys, decided ≠ some key) :
    rowsSeen sees decided (keys.flatMap r.versionsOf) =
      keys.filterMap fun key => (r.valueSeen sees key).map (key, ·) := by
  induction keys generalizing decided with
  | nil => rfl
  | cons key keys ih =>
    obtain ⟨hnot, hkeys⟩ := List.nodup_cons.1 hkeys
    obtain ⟨hkey, hd⟩ := List.forall_mem_cons.1 hd
    have hversions : ∀ v ∈ r.versionsOf key, v.key = key := fun v hv =>
      of_decide_eq_true (List.mem_filter.1 hv).2
    obtain ⟨decided', hd', heq⟩ :=
      @rowsSeen_append sees _ _ _ (keys.flatMap r.versionsOf) hversions hkey
    rw [List.flatMap_cons, heq, ih hkeys]
    · rw [List.filterMap_cons, RowStore.valueSeen]
      cases ((r.versionsOf key).find? sees).bind (·.value) <;> rfl
    · intro other hother
      rcases hd' with rfl | rfl
      · exact hd other hother
      · exact fun heq => hnot (Option.some.inj heq ▸ hother)

/-- The rows of a range are its keys of which a value is seen. -/
theorem rowsSeen_inRange (r : RowStore) (start : Key) (stop : Option Key) :
    rowsSeen sees none (r.inRange start stop) =
      (r.keys.filter (RowStore.within start stop)).filterMap fun key =>
        (r.valueSeen sees key).map (key, ·) := by
  have hnodup : r.keys.Nodup := r.keys_ascending.imp fun {a b} hlt heq => by
    rw [heq] at hlt
    exact List.lt_irrefl b hlt
  exact rowsSeen_flatMap (hnodup.filter _) nofun

theorem lookup_filterMap {β : Type} (f : Key → Option β) (keys : List Key) (key : Key) :
    (keys.filterMap fun k => (f k).map (k, ·)).lookup key = if key ∈ keys then f key else none := by
  induction keys with
  | nil => rfl
  | cons k keys ih =>
    by_cases hk : key = k
    · subst hk
      cases hf : f key with
      | none =>
        rw [List.filterMap_cons_none (by rw [hf]; rfl), ih, hf]
        simp
      | some b => simp [hf]
    · rw [List.filterMap_cons]
      cases f k <;> simp [ih, hk, List.lookup_cons, beq_eq_false_iff_ne.2 hk]

/-- The rows of a range show what is seen of its keys. -/
theorem lookup_rowsSeen {start : Key} {stop : Option Key} (h : RowStore.within start stop key) :
    (rowsSeen sees none (r.inRange start stop)).lookup key = r.valueSeen sees key := by
  rw [rowsSeen_inRange, lookup_filterMap]
  split
  · rfl
  · next hn =>
    have hkey : key ∉ r.keys := fun hm => hn (List.mem_filter.2 ⟨hm, h⟩)
    rw [RowStore.valueSeen, RowStore.versionsOf_of_not_mem hkey]
    rfl

end SnapshotFilter

end NestedTxn
