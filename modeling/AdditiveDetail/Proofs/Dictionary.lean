/-
What an update does to the look-ups of a dictionary.

# Order

A look-up follows the order of the keys and so sees one way down the tree
only. Where the entries ARE in order (`Ordered`), that way leads to the
one entry of a key: a look-up in the tree is a look-up in the list of its
entries (`get?_eq_lookup`), and balancing, which keeps the list, keeps all
look-ups.

An update keeps the order (`exists_update`), since what it changes or puts
in stands between the smaller and the greater keys
(`toList_updateBelow_ordered`). Every dictionary that starts empty and
grows by updates is therefore in order, and reads back as a finite map.
-/
import AdditiveDetail.Dictionary

namespace AdditiveDetail.Dictionary

variable {α : Type} {t u l r : Dictionary α} {key k : String} {v : α}
  {f : Option α → Option α}

-- ==================================================================== entries

theorem all_iff {p : String → α → Bool} :
    t.all p ↔ ∀ e ∈ t.toList, p e.1 e.2 := by
  induction t with
  | empty => simp [all, toList]
  | node shade l k v r ihl ihr =>
      simp only [all, toList, Bool.and_eq_true, ihl, ihr,
        List.forall_mem_append, List.forall_mem_cons]
      constructor
      · rintro ⟨⟨h, hl⟩, hr⟩
        exact ⟨hl, h, hr⟩
      · rintro ⟨hl, h, hr⟩
        exact ⟨⟨h, hl⟩, hr⟩

/-- The entries are in the order of their keys, no key twice. -/
def Ordered (t : Dictionary α) : Prop :=
  t.toList.Pairwise fun a b => a.1 < b.1

theorem ordered_empty : (empty : Dictionary α).Ordered := List.Pairwise.nil

theorem ordered_node {shade : Shade} :
    (node shade l k v r).Ordered ↔
      l.Ordered ∧ r.Ordered ∧ (∀ e ∈ l.toList, e.1 < k) ∧
        ∀ e ∈ r.toList, k < e.1 := by
  simp only [Ordered, toList, List.pairwise_append, List.pairwise_cons,
    List.forall_mem_cons]
  constructor
  · rintro ⟨hl, ⟨hk, hr⟩, hlr⟩
    exact ⟨hl, hr, fun e he => (hlr e he).1, hk⟩
  · rintro ⟨hl, hr, hlk, hk⟩
    exact ⟨hl, ⟨hk, hr⟩, fun e he =>
      ⟨hlk e he, fun e' he' => String.lt_trans (hlk e he) (hk e' he')⟩⟩

/-- Keys that differ are less one way or the other. -/
theorem lt_of_ne_of_not_lt (hne : key ≠ k) (hlt : ¬ key < k) : k < key :=
  Decidable.byContradiction fun h =>
    hne (String.le_antisymm (String.not_lt.1 h) (String.not_lt.1 hlt))

theorem lookup_of_not_mem {entries : List (String × α)}
    (h : key ∉ entries.map Prod.fst) : entries.lookup key = none := by
  rw [List.lookup_eq_none_iff]
  intro e he
  have : key ≠ e.1 := by
    rintro rfl
    exact h (List.mem_map_of_mem he)
  simpa using this

/-- No entry of a list has a key that is less than them all, or greater. -/
theorem lookup_eq_none {entries : List (String × α)}
    (h : ∀ e ∈ entries, e.1 < key ∨ key < e.1) :
    entries.lookup key = none := by
  refine lookup_of_not_mem fun hmem => ?_
  obtain ⟨e, he, rfl⟩ := List.mem_map.1 hmem
  rcases h e he with h | h <;> exact String.lt_irrefl _ h

theorem get?_eq_lookup (ht : t.Ordered) (key : String) :
    t.get? key = t.toList.lookup key := by
  induction t with
  | empty => rfl
  | node shade l k v r ihl ihr =>
      obtain ⟨hl, hr, hlk, hkr⟩ := ordered_node.1 ht
      rw [get?, toList, List.lookup_append, List.lookup_cons]
      split
      · next h =>
          subst h
          rw [lookup_eq_none fun e he => .inl (hlk e he)]
          simp
      · next h =>
          rw [beq_false_of_ne h]
          split
          · next hlt =>
              rw [ihl hl, lookup_eq_none fun e he =>
                .inr (String.lt_trans hlt (hkr e he)), Option.or_none]
          · next hge =>
              have hgt := lt_of_ne_of_not_lt h hge
              rw [ihr hr, lookup_eq_none fun e he =>
                .inl (String.lt_trans (hlk e he) hgt), Option.none_or]

/-- What a look-up finds is an entry. -/
theorem mem_of_get? (h : t.get? key = some v) : (key, v) ∈ t.toList := by
  induction t with
  | empty => cases h
  | node shade l k w r ihl ihr =>
      rw [get?] at h
      rw [toList, List.mem_append, List.mem_cons]
      split at h
      · next hk =>
          rw [hk, Option.some.inj h]
          exact .inr (.inl rfl)
      · split at h
        · exact .inl (ihl h)
        · exact .inr (.inr (ihr h))

/-- An entry is found where the entries are in order. -/
theorem get?_of_mem (ht : t.Ordered) (h : (key, v) ∈ t.toList) :
    t.get? key = some v := by
  induction t with
  | empty => cases h
  | node shade l k w r ihl ihr =>
      obtain ⟨hl, hr, hlk, hkr⟩ := ordered_node.1 ht
      rw [toList, List.mem_append, List.mem_cons] at h
      rw [get?]
      rcases h with h | h | h
      · have hlt : key < k := hlk _ h
        have hne : key ≠ k := fun h' => String.lt_irrefl k (h' ▸ hlt)
        rw [if_neg hne, if_pos hlt, ihl hl h]
      · cases h
        rw [if_pos rfl]
      · have hgt : k < key := hkr _ h
        have hne : key ≠ k := fun h' => String.lt_irrefl k (h' ▸ hgt)
        have hnot : ¬ key < k := fun hlt =>
          String.lt_irrefl k (String.lt_trans hgt hlt)
        rw [if_neg hne, if_neg hnot, ihr hr h]

-- ==================================================================== updates

/-- An update succeeds where `f` does on the value that a look-up finds. -/
theorem exists_updateBelow (hf : f (t.get? key) = some v) :
    ∃ u, t.updateBelow key f = some u := by
  induction t with
  | empty => exact ⟨_, by rw [updateBelow, show f none = some v from hf]; rfl⟩
  | node shade l k w r ihl ihr =>
      rw [get?] at hf
      unfold updateBelow
      split
      · next h =>
          rw [if_pos h] at hf
          exact ⟨_, by rw [hf]; rfl⟩
      · next h =>
          rw [if_neg h] at hf
          split
          · next hlt =>
              rw [if_pos hlt] at hf
              obtain ⟨l', hl⟩ := ihl hf
              exact ⟨_, by rw [hl]; rfl⟩
          · next hge =>
              rw [if_neg hge] at hf
              obtain ⟨r', hr⟩ := ihr hf
              exact ⟨_, by rw [hr]; rfl⟩

/-- In a dictionary in order, what an update leaves alone is less than its
key or greater, and what `f` sees is what a look-up finds. -/
theorem toList_updateBelow_ordered (ht : t.Ordered)
    (hu : t.updateBelow key f = some u) :
    ∃ before after v, u.toList = before ++ (key, v) :: after ∧
      f (t.get? key) = some v ∧
      t.toList = before ++ ((t.get? key).map (key, ·)).toList ++ after ∧
      (∀ e ∈ before, e.1 < key) ∧ ∀ e ∈ after, key < e.1 := by
  induction t generalizing u with
  | empty =>
      obtain ⟨v, hv, rfl⟩ := Option.map_eq_some_iff.1 hu
      exact ⟨[], [], v, rfl, hv, rfl, by simp, by simp⟩
  | node shade l k w r ihl ihr =>
      obtain ⟨hl, hr, hlk, hkr⟩ := ordered_node.1 ht
      unfold updateBelow at hu
      rw [get?]
      split at hu
      · next h =>
          obtain ⟨v, hv, rfl⟩ := Option.map_eq_some_iff.1 hu
          subst h
          rw [if_pos rfl]
          exact ⟨l.toList, r.toList, v, rfl, hv, by simp [toList], hlk, hkr⟩
      · next h =>
          rw [if_neg h]
          split at hu
          · next hlt =>
              obtain ⟨l', hl', rfl⟩ := Option.map_eq_some_iff.1 hu
              obtain ⟨before, after, v, h', hv, hold, hb, ha⟩ := ihl hl hl'
              rw [if_pos hlt]
              refine ⟨before, after ++ (k, w) :: r.toList, v,
                by simp [h'], hv, ?_, hb, ?_⟩
              · rw [toList, hold]
                simp
              · simp only [List.forall_mem_append, List.forall_mem_cons]
                exact ⟨ha, hlt,
                  fun e he => String.lt_trans hlt (hkr e he)⟩
          · next hge =>
              obtain ⟨r', hr', rfl⟩ := Option.map_eq_some_iff.1 hu
              obtain ⟨before, after, v, h', hv, hold, hb, ha⟩ := ihr hr hr'
              have hgt := lt_of_ne_of_not_lt h hge
              rw [if_neg hge]
              refine ⟨l.toList ++ (k, w) :: before, after, v,
                by simp [h'], hv, ?_, ?_, ha⟩
              · rw [toList, hold]
                simp
              · simp only [List.forall_mem_append, List.forall_mem_cons]
                exact ⟨fun e he => String.lt_trans (hlk e he) hgt, hgt, hb⟩

/-- An update of a dictionary in order changes one look-up, to what `f`
makes of it, and keeps the order. -/
theorem exists_update (ht : t.Ordered) (hf : f (t.get? key) = some v) :
    ∃ u, t.update key f = some u ∧ u.Ordered ∧
      ∀ k, u.get? k = if k = key then some v else t.get? k := by
  obtain ⟨u, hu⟩ := exists_updateBelow hf
  obtain ⟨before, after, v', hnew, hv', hold, hb, ha⟩ :=
    toList_updateBelow_ordered ht hu
  obtain rfl : v = v' := Option.some.inj (hf.symm.trans hv')
  have hin : u.blacken.toList = before ++ (key, v) :: after := by
    rw [toList_blacken, hnew]
  have hparts : (before ++ after).Pairwise fun a b => a.1 < b.1 := by
    unfold Ordered at ht
    rw [hold, List.append_assoc] at ht
    refine List.Pairwise.sublist ?_ ht
    exact (List.append_sublist_append_left before).2
      (List.sublist_append_right _ after)
  rw [List.pairwise_append] at hparts
  have hord : u.blacken.Ordered := by
    unfold Ordered
    rw [hin, List.pairwise_append, List.pairwise_cons]
    exact ⟨hparts.1, ⟨ha, hparts.2.1⟩, fun e he =>
      List.forall_mem_cons.2 ⟨hb e he, hparts.2.2 e he⟩⟩
  refine ⟨u.blacken, by rw [update, hu]; rfl, hord, fun k => ?_⟩
  rw [get?_eq_lookup hord, get?_eq_lookup ht, hin, hold]
  simp only [List.lookup_append]
  by_cases hk : k = key
  · subst hk
    rw [if_pos rfl, lookup_eq_none fun e he => .inl (hb e he)]
    simp
  · rw [if_neg hk, List.lookup_cons, beq_false_of_ne hk]
    cases t.get? key with
    | none => simp
    | some w => simp [List.lookup_cons, beq_false_of_ne hk]

end AdditiveDetail.Dictionary
