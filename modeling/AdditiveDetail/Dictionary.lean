/-
Dictionaries: values under texts, no text twice, in the order of the
texts.

# Balance

A dictionary is a search tree with red and black nodes. No red node has a
red child, and all ways down from the root pass as many black nodes, so
no way down is more than twice as long as another: finding a key among
many thousands takes a few dozen comparisons.

A new key starts as a red node. Where that puts it under a red node,
`balance` turns the two and the black node above them into a red node
over two black ones. This moves no entry past another
(`toList_balance`), so an update changes one entry or puts one in, and
leaves all others as they were (`toList_update`).
-/

namespace AdditiveDetail

/-- Colour of a node. -/
inductive Shade where
  | red
  | black
  deriving DecidableEq

inductive Dictionary (α : Type) where
  | empty
  | node (shade : Shade) (left : Dictionary α) (key : String) (value : α)
      (right : Dictionary α)

namespace Dictionary

variable {α : Type}

-- ==================================================================== reading

/-- The entries in the order of their keys. -/
def toList : Dictionary α → List (String × α)
  | empty => []
  | node _ l k v r => l.toList ++ (k, v) :: r.toList

/-- The value of a key. -/
def get? : Dictionary α → String → Option α
  | empty, _ => none
  | node _ l k v r, key =>
      if key = k then some v
      else if key < k then l.get? key
      else r.get? key

/-- The entry of a dictionary that has one. -/
def only? : Dictionary α → Option (String × α)
  | node _ empty k v empty => some (k, v)
  | _ => none

/-- Whether a test holds of all entries. -/
def all (p : String → α → Bool) : Dictionary α → Bool
  | empty => true
  | node _ l k v r => p k v && l.all p && r.all p

-- =================================================================== updating

/-- A node over two parts, of which one may be red with a red child. -/
def balance : Shade → Dictionary α → String → α → Dictionary α → Dictionary α
  | .black, node .red (node .red a k₁ v₁ b) k₂ v₂ c, k₃, v₃, d
  | .black, node .red a k₁ v₁ (node .red b k₂ v₂ c), k₃, v₃, d
  | .black, a, k₁, v₁, node .red (node .red b k₂ v₂ c) k₃ v₃ d
  | .black, a, k₁, v₁, node .red b k₂ v₂ (node .red c k₃ v₃ d) =>
      node .red (node .black a k₁ v₁ b) k₂ v₂ (node .black c k₃ v₃ d)
  | shade, l, k, v, r => node shade l k v r

/-- Change the value of a key, or give it a first one; the root may become
red over red. -/
def updateBelow (key : String) (f : Option α → Option α) :
    Dictionary α → Option (Dictionary α)
  | empty => (f none).map fun v => node .red empty key v empty
  | node shade l k v r =>
      if key = k then (f (some v)).map fun v => node shade l k v r
      else if key < k then
        (updateBelow key f l).map fun l => balance shade l k v r
      else
        (updateBelow key f r).map fun r => balance shade l k v r

/-- The same dictionary with a black root. -/
def blacken : Dictionary α → Dictionary α
  | empty => empty
  | node _ l k v r => node .black l k v r

/-- Change the value of a key, or give it a first one. Refused where `f`
refuses. -/
def update (t : Dictionary α) (key : String) (f : Option α → Option α) :
    Option (Dictionary α) :=
  (t.updateBelow key f).map blacken

-- =================================================================== the view

@[simp]
theorem toList_balance (shade : Shade) (l : Dictionary α) (k : String)
    (v : α) (r : Dictionary α) :
    (balance shade l k v r).toList = l.toList ++ (k, v) :: r.toList := by
  unfold balance
  split <;> simp [toList]

@[simp]
theorem toList_blacken (t : Dictionary α) : t.blacken.toList = t.toList := by
  cases t <;> rfl

theorem only?_eq_some_iff (t : Dictionary α) (x : String × α) :
    t.only? = some x ↔ t.toList = [x] := by
  match t with
  | empty => simp [only?, toList]
  | node _ empty _ _ empty => simp [only?, toList]
  | node _ (node ..) _ _ _ => simp [only?, toList, List.append_eq_cons_iff]
  | node _ empty _ _ (node ..) => simp [only?, toList]

/-- An update gives a value to one key, in front of and behind the entries
that it leaves alone; what the key had before is what `f` saw. -/
theorem toList_updateBelow {t u : Dictionary α} {key : String}
    {f : Option α → Option α} (hu : t.updateBelow key f = some u) :
    ∃ before after v, u.toList = before ++ (key, v) :: after ∧
      (f none = some v ∧ t.toList = before ++ after ∨
        ∃ w, f (some w) = some v ∧
          t.toList = before ++ (key, w) :: after) := by
  induction t generalizing u with
  | empty =>
      obtain ⟨v, hv, rfl⟩ := Option.map_eq_some_iff.1 hu
      exact ⟨[], [], v, rfl, .inl ⟨hv, rfl⟩⟩
  | node shade l k v r ihl ihr =>
      unfold updateBelow at hu
      split at hu
      · next hk =>
          obtain ⟨x, hx, rfl⟩ := Option.map_eq_some_iff.1 hu
          subst hk
          exact ⟨l.toList, r.toList, x, rfl, .inr ⟨v, hx, rfl⟩⟩
      · split at hu
        · obtain ⟨l', hl, rfl⟩ := Option.map_eq_some_iff.1 hu
          obtain ⟨before, after, x, hx, hold⟩ := ihl hl
          refine ⟨before, after ++ (k, v) :: r.toList, x, by simp [hx], ?_⟩
          rcases hold with ⟨hf, ht⟩ | ⟨w, hf, ht⟩
          · exact .inl ⟨hf, by simp [toList, ht]⟩
          · exact .inr ⟨w, hf, by simp [toList, ht]⟩
        · obtain ⟨r', hr, rfl⟩ := Option.map_eq_some_iff.1 hu
          obtain ⟨before, after, x, hx, hold⟩ := ihr hr
          refine ⟨l.toList ++ (k, v) :: before, after, x, by simp [hx], ?_⟩
          rcases hold with ⟨hf, ht⟩ | ⟨w, hf, ht⟩
          · exact .inl ⟨hf, by simp [toList, ht]⟩
          · exact .inr ⟨w, hf, by simp [toList, ht]⟩

theorem toList_update {t u : Dictionary α} {key : String}
    {f : Option α → Option α} (h : t.update key f = some u) :
    ∃ before after v, u.toList = before ++ (key, v) :: after ∧
      (f none = some v ∧ t.toList = before ++ after ∨
        ∃ w, f (some w) = some v ∧
          t.toList = before ++ (key, w) :: after) := by
  obtain ⟨u, hu, rfl⟩ := Option.map_eq_some_iff.1 h
  rw [toList_blacken]
  exact toList_updateBelow hu

end Dictionary

end AdditiveDetail
