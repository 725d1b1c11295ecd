/-
A plain document reads as what it says.

A `Document` has keys with strings, booleans and naturals, first its own,
then those of tables under headers. `Document.read?_text` is the contract
between a writer of such documents and the reader: where no key stands
twice, the table that is read has the value of each key, and no other
keys.

# From lines to look-ups

The lines under one header go into their table together. That table
starts empty, or as what stands in front of the first header, and grows by
updates at distinct keys (`exists_assignAll`, `exists_sections`). Look-ups
are all that is told of it, since its shape depends on the order of the
lines, and so `HoldIn` also speaks of tables that were written otherwise,
in braces or by dotted keys.
-/
import AdditiveDetail.Proofs.Dictionary
import AdditiveDetail.Proofs.Toml.Lines

namespace AdditiveDetail.Toml

open RunConfig (keyLine headerLine)

variable {key : String} {t t' u : Entries} {present : Section}

-- ==================================================================== tables

/-- A new key gets its value, and no look-up of another changes. -/
theorem exists_assign (ht : t.Ordered) (hnew : t.get? key = none) (v : Value) :
    ∃ u, Entries.assign v [key] t = some u ∧ u.Ordered ∧
      ∀ k, u.get? k = if k = key then some v else t.get? k := by
  refine Dictionary.exists_update ht ?_
  rw [hnew]

/-- Lines with new keys, no key twice, give each its value. -/
theorem exists_assignAll {lines : Lines} (ht : t.Ordered)
    (hnew : ∀ l ∈ lines, t.get? l.1 = none)
    (hd : (lines.map Prod.fst).Nodup) :
    ∃ u, Entries.assignAll lines.fields t = some u ∧ u.Ordered ∧
      ∀ key, u.get? key
        = ((lines.lookup key).map Leaf.value).or (t.get? key) := by
  induction lines generalizing t with
  | nil => exact ⟨t, rfl, ht, fun key => rfl⟩
  | cons l lines ih =>
      obtain ⟨hl, hnew⟩ := List.forall_mem_cons.1 hnew
      rw [List.map_cons, List.nodup_cons] at hd
      obtain ⟨t₁, ht₁, hord, hget⟩ := exists_assign ht hl l.2.value
      have hnew₁ : ∀ l' ∈ lines, t₁.get? l'.1 = none := by
        intro l' hl'
        rw [hget, if_neg, hnew l' hl']
        intro h
        exact hd.1 (h ▸ List.mem_map_of_mem hl')
      obtain ⟨u, hu, huord, huget⟩ := ih hord hnew₁ hd.2
      refine ⟨u, ?_, huord, fun key => ?_⟩
      · unfold Entries.assignAll at hu ⊢
        rw [Lines.fields_cons, List.foldrM_append, List.foldrM_cons,
          List.foldrM_nil, pure_bind, ht₁]
        exact hu
      · rw [huget, hget, List.lookup_cons]
        by_cases hkey : key = l.1
        · -- the key of the first line has no other line
          subst hkey
          rw [Dictionary.lookup_of_not_mem hd.1]
          simp
        · rw [if_neg hkey, beq_false_of_ne hkey]

/-- A table in which keys have the values of lines, and no others have
any. -/
structure Lines.HoldIn (lines : Lines) (t : Entries) : Prop where
  get?_eq : ∀ key, t.get? key = (lines.lookup key).map Leaf.value
  only : ∀ e ∈ t.toList, e.1 ∈ lines.map Prod.fst

theorem exists_table {lines : Lines} (h : lines.Proper) :
    ∃ sub, Entries.assignAll lines.fields .empty = some sub ∧
      lines.HoldIn sub := by
  obtain ⟨sub, hsub, hord, hget⟩ := exists_assignAll
    Dictionary.ordered_empty (fun l _ => rfl) h.distinct
  have hget (key) : sub.get? key = (lines.lookup key).map Leaf.value :=
    (hget key).trans Option.or_none
  refine ⟨sub, hsub, hget, fun e he => Decidable.byContradiction fun h => ?_⟩
  have hmem := Dictionary.get?_of_mem hord he
  rw [hget, Dictionary.lookup_of_not_mem h] at hmem
  cases hmem

/-- A header with a new key opens a table with the lines under it. -/
theorem exists_addSection {lines : Lines} {sub : Entries} (ht : t.Ordered)
    (hnew : t.get? key = none)
    (hsub : Entries.assignAll lines.fields .empty = some sub) :
    ∃ u, t.addSection { header := .table [key], fields := lines.fields }
        = some u ∧ u.Ordered ∧
      ∀ k, u.get? k
        = if k = key then some (.table .explicit sub) else t.get? k := by
  refine Dictionary.exists_update ht ?_
  rw [hnew]
  simp only
  rw [hsub]
  rfl

-- ================================================================= documents

/-- Tables under headers, in the order of their headers. -/
abbrev Sections := List (String × Lines)

namespace Sections

def text (sections : Sections) : String :=
  String.join (sections.map fun s => headerLine s.1 ++ s.2.text)

/-- Sections that can be written as they are, no header twice. -/
structure Proper (sections : Sections) : Prop where
  bare : ∀ s ∈ sections, IsBare s.1
  proper : ∀ s ∈ sections, s.2.Proper
  distinct : (sections.map Prod.fst).Nodup

variable {s : String × Lines} {sections : Sections}

theorem Proper.nil : Proper [] where
  bare _ h := nomatch h
  proper _ h := nomatch h
  distinct := List.nodup_nil

theorem Proper.cons (hb : IsBare key) {lines : Lines} (hl : lines.Proper)
    (hnew : key ∉ sections.map Prod.fst) (h : sections.Proper) :
    Proper ((key, lines) :: sections) where
  bare := List.forall_mem_cons.2 ⟨hb, h.bare⟩
  proper := List.forall_mem_cons.2 ⟨hl, h.proper⟩
  distinct := List.nodup_cons.2 ⟨hnew, h.distinct⟩

/-- Some of the sections can be written if all of them can. -/
theorem Proper.sublist {some all : Sections} (h : all.Proper)
    (hs : List.Sublist some all) : some.Proper where
  bare s hmem := h.bare s (hs.subset hmem)
  proper s hmem := h.proper s (hs.subset hmem)
  distinct := h.distinct.sublist (hs.map Prod.fst)

theorem text_cons :
    text (s :: sections) = headerLine s.1 ++ s.2.text ++ text sections := by
  simp [text]

end Sections

/-- Sections with new keys, no key twice, each give their table. -/
theorem exists_sections {sections : Sections} (hs : sections.Proper)
    (ht : t.addSection present = some t') (hord : t'.Ordered)
    (hnew : ∀ s ∈ sections, t'.get? s.1 = none) :
    ∃ u, ReadsTo t present sections.text.toList u ∧ u.Ordered ∧
      (∀ key, sections.lookup key = none → u.get? key = t'.get? key) ∧
      ∀ key lines, sections.lookup key = some lines →
        ∃ sub, u.get? key = some (.table .explicit sub) ∧
          lines.HoldIn sub := by
  obtain ⟨hbare, hproper, hd⟩ := hs
  induction sections generalizing t present t' with
  | nil =>
      refine ⟨t', readsTo_nil ht, hord, fun _ _ => rfl, ?_⟩
      intro key lines h
      cases h
  | cons s sections ih =>
      obtain ⟨hb, hbare⟩ := List.forall_mem_cons.1 hbare
      obtain ⟨hp, hproper⟩ := List.forall_mem_cons.1 hproper
      obtain ⟨hs, hnew⟩ := List.forall_mem_cons.1 hnew
      rw [List.map_cons, List.nodup_cons] at hd
      obtain ⟨sub, hsub, hholds⟩ := exists_table hp
      obtain ⟨t₁, ht₁, hord₁, hget⟩ := exists_addSection hord hs hsub
      have hnew₁ : ∀ s' ∈ sections, t₁.get? s'.1 = none := by
        intro s' hs'
        rw [hget, if_neg, hnew s' hs']
        intro h
        exact hd.1 (h ▸ List.mem_map_of_mem hs')
      obtain ⟨u, hu, huord, hothers, htables⟩ :=
        ih ht₁ hord₁ hnew₁ hbare hproper hd.2
      refine ⟨u, ?_, huord, fun key h => ?_, fun key lines h => ?_⟩
      · rw [Sections.text_cons, String.toList_append, String.toList_append,
          List.append_assoc]
        refine readsTo_headerLine hb ht (readsTo_lines hp.bare hp.held ?_)
        rwa [List.append_nil]
      · rw [List.lookup_cons] at h
        split at h
        · cases h
        · next hne =>
            rw [hothers key h, hget, if_neg (by simpa using hne)]
      · rw [List.lookup_cons] at h
        split at h
        · next heq =>
            obtain rfl := Option.some.inj h
            obtain rfl : key = s.1 := by simpa using heq
            have hlast := Dictionary.lookup_of_not_mem hd.1
            rw [hothers _ hlast, hget, if_pos rfl]
            exact ⟨sub, rfl, hholds⟩
        · exact htables key lines h

/-- What a writer of settings produces. -/
structure Document where
  top : Lines
  sections : Sections

namespace Document

def text (d : Document) : String := d.top.text ++ d.sections.text

/-- No key of the document itself stands twice. -/
structure Proper (d : Document) : Prop where
  top : d.top.Proper
  sections : d.sections.Proper
  apart : ∀ s ∈ d.sections, s.1 ∉ d.top.map Prod.fst

/-- A table that says what a document does, and nothing else, however its
own tables were written. -/
structure HoldIn (d : Document) (t : Entries) : Prop where
  get?_top : ∀ key leaf, d.top.lookup key = some leaf →
    t.get? key = some leaf.value
  get?_section : ∀ key lines, d.sections.lookup key = some lines →
    ∃ origin sub, t.get? key = some (.table origin sub) ∧ lines.HoldIn sub
  only : ∀ e ∈ t.toList,
    e.1 ∈ d.top.map Prod.fst ∨ e.1 ∈ d.sections.map Prod.fst

theorem HoldIn.get?_none {d : Document} (h : d.HoldIn t)
    (ht : key ∉ d.top.map Prod.fst) (hs : key ∉ d.sections.map Prod.fst) :
    t.get? key = none := by
  cases hget : t.get? key with
  | none => rfl
  | some v =>
      exact ((h.only _ (Dictionary.mem_of_get? hget)).elim ht hs).elim

/-- A document does not start with a byte order mark. -/
theorem dropMark_text {d : Document} (h : d.Proper) :
    dropMark d.text.toList = d.text.toList := by
  obtain ⟨top, sections⟩ := d
  unfold dropMark
  split
  · next rest hs =>
      cases top with
      | nil =>
          cases sections with
          | nil => cases hs
          | cons s sections =>
              simp [text, Lines.text, Sections.text_cons, headerLine] at hs
      | cons l lines =>
          obtain ⟨c, cs, hk, -, hc⟩ :=
            (h.top.bare l List.mem_cons_self).exists_eq
          simp only [text, Lines.text_cons, keyLine, String.toList_append,
            hk, List.cons_append] at hs
          rw [(List.cons.inj hs).1] at hc
          exact absurd (by decide) hc
  · rfl

/-- The reader takes a document for what it says. -/
theorem read?_text {d : Document} (h : d.Proper) :
    ∃ t, read? d.text = some t ∧ d.HoldIn t := by
  obtain ⟨t', ht', hord, hget⟩ := exists_assignAll
    Dictionary.ordered_empty (fun _ _ => rfl) h.top.distinct
  have hget (key) : t'.get? key = (d.top.lookup key).map Leaf.value :=
    (hget key).trans Option.or_none
  have hnew : ∀ s ∈ d.sections, t'.get? s.1 = none := by
    intro s hs
    rw [hget, Dictionary.lookup_of_not_mem (h.apart s hs)]
    rfl
  have htop : Entries.addSection { header := .top, fields := d.top.fields }
      .empty = some t' := ht'
  obtain ⟨t, ht, htord, hothers, htables⟩ :=
    exists_sections h.sections htop hord hnew
  refine ⟨t, ?_, fun key leaf hkey => ?_, fun key lines hkey => ?_,
    fun e he => ?_⟩
  · unfold read?
    rw [dropMark_text h]
    have hreads : ReadsTo .empty { header := .top, fields := [] }
        d.text.toList t := by
      rw [text, String.toList_append]
      refine readsTo_lines h.top.bare h.top.held ?_
      rwa [List.append_nil]
    exact hreads _ (Nat.lt_succ_self _)
  · have hnone : d.sections.lookup key = none := by
      refine Dictionary.lookup_of_not_mem fun hmem => ?_
      obtain ⟨s, hs, rfl⟩ := List.mem_map.1 hmem
      rw [Dictionary.lookup_of_not_mem (h.apart s hs)] at hkey
      cases hkey
    rw [hothers key hnone, hget, hkey]
    rfl
  · obtain ⟨sub, hsub, hholds⟩ := htables key lines hkey
    exact ⟨.explicit, sub, hsub, hholds⟩
  · rw [or_iff_not_imp_right]
    intro hs
    refine Decidable.byContradiction fun htop => ?_
    have hmem := Dictionary.get?_of_mem htord he
    rw [hothers _ (Dictionary.lookup_of_not_mem hs), hget,
      Dictionary.lookup_of_not_mem htop] at hmem
    cases hmem

end Document

end AdditiveDetail.Toml
