/-
A configuration that is written reads back, and what a document leaves out
has its default.

# Parts

Six parts of a document may be left out. `Parts` says which are there;
`outline` is the document with these parts of a configuration, in the
order in which they are written, and `keeping` the configuration that it
stands for. The whole document is the outline with all parts
(`outline_all`), so that one argument covers both.

# What is read

A table is looked at by its keys, and how it came about does not matter:
`ofEntries?_keeping` is about any table that holds what an outline holds.
The text of an outline is one way to write such a table.
-/
import AdditiveDetail.Proofs.Toml.Document

namespace AdditiveDetail

-- one power on naturals, whatever else is imported
attribute [local instance(high)] instPowNat

open Toml (Entries Lines Leaf)

/-- Which of the parts that may be left out are there. -/
structure Parts where
  parallel : Bool
  /-- The whole table of the stream. -/
  stream : Bool
  /-- The pixel format, in the table of the stream. -/
  format : Bool
  /-- The whole table of the stats. -/
  stats : Bool
  /-- The stats file, in the table of the stats. -/
  file : Bool
  /-- The stats label, in the table of the stats. -/
  label : Bool

def Parts.all : Parts := ⟨true, true, true, true, true, true⟩

/-- A list, if it is there. -/
def given {α : Type} (there : Bool) (l : List α) : List α :=
  if there then l else []

namespace RunConfig

def streamLines (c : Config) (p : Parts) : Lines :=
  [("width", .natural c.dims.width), ("height", .natural c.dims.height)]
    ++ given p.format [("pixel_format", .string c.format.name)]

def statsLines (c : StatsConfig) (p : Parts) : Lines :=
  given p.file (c.file.toList.map fun file => ("file", .string file))
    ++ given p.label [("label", .string c.label.text)]

/-- A document with some parts of a configuration. -/
def outline (c : RunConfig) (p : Parts) : Toml.Document where
  top :=
    [("reference", .string c.reference), ("distorted", .string c.distorted)]
      ++ given p.parallel [("parallel", .boolean c.parallel)]
  sections :=
    given p.stream [("adm", streamLines c.stream p)]
      ++ given p.stats [("stats", statsLines c.stats p)]

/-- A configuration with some of its parts, and the others at their
defaults. -/
def keeping (c : RunConfig) (p : Parts) : RunConfig where
  reference := c.reference
  distorted := c.distorted
  parallel := if p.parallel then c.parallel else false
  stream :=
    if p.stream then
      { dims := c.stream.dims
        format := if p.format then c.stream.format else default }
    else default
  stats :=
    if p.stats then
      { file := if p.file then c.stats.file else none
        label := if p.label then c.stats.label else default }
    else default

theorem keeping_all (c : RunConfig) : c.keeping .all = c := rfl

variable {c : RunConfig} {p : Parts} {t : Entries}

-- =================================================================== writing

/-- The whole of a configuration is written as the document with all
parts. -/
theorem text_outline_all (c : RunConfig) :
    (c.outline .all).text = c.toText := by
  unfold toText
  cases hfile : c.stats.file with
  | none =>
      simp [outline, given, Parts.all, streamLines, statsLines, hfile,
        Toml.Document.text, Lines.text, Toml.Sections.text, Leaf.text,
        String.append_assoc]
  | some file =>
      simp [outline, given, Parts.all, streamLines, statsLines, hfile,
        Toml.Document.text, Lines.text, Toml.Sections.text, Leaf.text,
        String.append_assoc]

theorem given_sublist {α : Type} (there : Bool) (l : List α) :
    (given there l).Sublist l := by
  cases there with
  | true => exact List.Sublist.refl l
  | false => exact List.nil_sublist l

theorem mem_topKeys {key : String}
    (h : key ∈ (c.outline p).top.map Prod.fst) :
    key ∈ ["reference", "distorted", "parallel"] :=
  (((List.Sublist.refl _).append (given_sublist p.parallel _)).map
    Prod.fst).subset h

theorem mem_sectionKeys {key : String}
    (h : key ∈ (c.outline p).sections.map Prod.fst) :
    key ∈ ["adm", "stats"] :=
  (((given_sublist p.stream _).append (given_sublist p.stats _)).map
    Prod.fst).subset h

theorem mem_streamKeys {s : Config} {key : String}
    (h : key ∈ (streamLines s p).map Prod.fst) :
    key ∈ ["width", "height", "pixel_format"] :=
  (((List.Sublist.refl _).append (given_sublist p.format _)).map
    Prod.fst).subset h

theorem mem_statsKeys {s : StatsConfig} {key : String}
    (h : key ∈ (statsLines s p).map Prod.fst) : key ∈ ["file", "label"] := by
  have h := (((given_sublist p.file _).append (given_sublist p.label _)).map
    Prod.fst).subset h
  cases hfile : s.file with
  | none =>
      rw [hfile] at h
      exact List.mem_cons_of_mem _ h
  | some file =>
      rw [hfile] at h
      exact h

theorem streamLines_proper {s : Config}
    (hw : s.dims.width < 2 ^ (128 : Nat))
    (hh : s.dims.height < 2 ^ (128 : Nat)) : (streamLines s p).Proper := by
  refine Lines.Proper.sublist ?_
    ((List.Sublist.refl _).append (given_sublist p.format _))
  exact .cons (by decide) hw (by simp)
    (.cons (by decide) hh (by simp)
      (.cons (by decide) trivial (by simp) .nil))

theorem statsLines_proper (s : StatsConfig) : (statsLines s p).Proper := by
  refine Lines.Proper.sublist ?_
    ((given_sublist p.file _).append (given_sublist p.label _))
  have hlabel : Lines.Proper [("label", .string s.label.text)] :=
    .cons (by decide) trivial (by simp) .nil
  cases s.file with
  | none => exact hlabel
  | some file => exact .cons (by decide) trivial (by simp) hlabel

theorem outline_proper (hw : c.stream.dims.width < 2 ^ (128 : Nat))
    (hh : c.stream.dims.height < 2 ^ (128 : Nat)) :
    (c.outline p).Proper where
  top := by
    refine Lines.Proper.sublist ?_
      ((List.Sublist.refl _).append (given_sublist p.parallel _))
    exact .cons (by decide) trivial (by simp)
      (.cons (by decide) trivial (by simp)
        (.cons (by decide) trivial (by simp) .nil))
  sections := by
    refine Toml.Sections.Proper.sublist ?_
      ((given_sublist p.stream _).append (given_sublist p.stats _))
    exact .cons (by decide) (streamLines_proper hw hh) (by simp)
      (.cons (by decide) (statsLines_proper _) (by simp) .nil)
  apart := by
    intro s hs htop
    have : ∀ key ∈ ["adm", "stats"],
        key ∉ ["reference", "distorted", "parallel"] := by decide
    exact this _ (mem_sectionKeys (List.mem_map_of_mem hs)) (mem_topKeys htop)

-- =================================================================== reading

/-- The keys of a table are among those that are known. -/
theorem knownFields?_eq {keys : List String}
    (h : ∀ e ∈ t.toList, e.1 ∈ keys) : knownFields? keys t = some t := by
  unfold knownFields?
  rw [if_pos]
  refine Dictionary.all_iff.2 fun e he => ?_
  simp [h e he]

theorem size?_natural {n : Nat} (h : n < 2 ^ (64 : Nat)) :
    size? (.integer n) = some n := by
  unfold size?
  simp only
  rw [if_pos (by omega), Int.toNat_natCast]

theorem format?_name (f : PixelFormat) :
    format? (.string f.name) = some f := by
  obtain ⟨subsampling, depth⟩ := f
  cases subsampling <;> cases depth <;> rfl

theorem label?_text (l : Stats.Label) : label? (.string l.text) = some l := by
  cases l <;> rfl

theorem stream?_table {s : Config} {origin : Toml.Origin}
    (h : (streamLines s p).HoldIn t)
    (hw : s.dims.width < 2 ^ (64 : Nat))
    (hh : s.dims.height < 2 ^ (64 : Nat)) :
    stream? (.table origin t) = some
      { dims := s.dims
        format := if p.format then s.format else default } := by
  have hkeys : ∀ e ∈ t.toList, e.1 ∈ ["width", "height", "pixel_format"] :=
    fun e he => mem_streamKeys (h.only e he)
  have hwidth : (t.get? "width").bind size? = some s.dims.width := by
    have : t.get? "width" = some (.integer s.dims.width) := by
      simp [h.get?_eq, streamLines, Leaf.value]
    rw [this, Option.bind_some, size?_natural hw]
  have hheight : (t.get? "height").bind size? = some s.dims.height := by
    have : t.get? "height" = some (.integer s.dims.height) := by
      simp [h.get?_eq, streamLines, List.lookup_cons, Leaf.value]
    rw [this, Option.bind_some, size?_natural hh]
  have hformat : orDefault (t.get? "pixel_format") format? default
      = some (if p.format then s.format else default) := by
    cases hp : p.format with
    | true =>
        simpa [h.get?_eq, streamLines, List.lookup_cons, given, hp, orDefault,
          Leaf.value] using format?_name s.format
    | false =>
        simp [h.get?_eq, streamLines, List.lookup_cons, given, hp, orDefault]
  unfold stream? fields?
  simp only [knownFields?_eq hkeys, Option.map_some, Option.bind_eq_bind,
    Option.bind_some, hwidth, hheight, hformat]
  rfl

theorem stats?_table {s : StatsConfig} {origin : Toml.Origin}
    (h : (statsLines s p).HoldIn t) :
    stats? (.table origin t) = some
      { file := if p.file then s.file else none
        label := if p.label then s.label else default } := by
  have hkeys : ∀ e ∈ t.toList, e.1 ∈ ["file", "label"] :=
    fun e he => mem_statsKeys (h.only e he)
  have hfile : t.get? "file"
      = (if p.file then s.file else none).map Toml.Value.string := by
    rw [h.get?_eq, statsLines, List.lookup_append]
    cases p.file <;> cases p.label <;> cases s.file <;>
      simp [given, List.lookup_cons, Leaf.value]
  have hlabel : orDefault (t.get? "label") label? default
      = some (if p.label then s.label else default) := by
    have : t.get? "label"
        = if p.label then some (.string s.label.text) else none := by
      rw [h.get?_eq, statsLines, List.lookup_append]
      cases p.file <;> cases p.label <;> cases s.file <;>
        simp [given, List.lookup_cons, Leaf.value]
    rw [this]
    cases p.label with
    | true => exact label?_text s.label
    | false => rfl
  unfold stats? fields?
  simp only [knownFields?_eq hkeys, Option.map_some, Option.bind_eq_bind,
    Option.bind_some, hfile, hlabel]
  cases (if p.file then s.file else none) with
  | none => rfl
  | some file => rfl

/-- A table that holds what an outline holds is read as the configuration
that the outline stands for. -/
theorem ofEntries?_keeping (h : (c.outline p).HoldIn t)
    (hw : c.stream.dims.width < 2 ^ (64 : Nat))
    (hh : c.stream.dims.height < 2 ^ (64 : Nat)) :
    ofEntries? t = some (c.keeping p) := by
  have hkeys : ∀ e ∈ t.toList,
      e.1 ∈ ["reference", "distorted", "parallel", "adm", "stats"] := by
    intro e he
    rcases h.only e he with htop | hsection
    · exact List.mem_append_left ["adm", "stats"] (mem_topKeys htop)
    · exact List.mem_append_right ["reference", "distorted", "parallel"]
        (mem_sectionKeys hsection)
  have hreference : t.get? "reference" = some (.string c.reference) :=
    h.get?_top _ (.string c.reference) (by simp [outline])
  have hdistorted : t.get? "distorted" = some (.string c.distorted) :=
    h.get?_top _ (.string c.distorted) (by simp [outline, List.lookup_cons])
  have hparallel : orDefault (t.get? "parallel") boolean? false
      = some (c.keeping p).parallel := by
    cases hp : p.parallel with
    | true =>
        rw [h.get?_top "parallel" (.boolean c.parallel) (by
          simp [outline, given, hp, List.lookup_cons]), keeping, if_pos hp]
        rfl
    | false =>
        rw [h.get?_none (by simp [outline, given, hp])
          fun hsection => absurd (mem_sectionKeys hsection) (by decide)]
        simp [keeping, hp, orDefault]
  have hstream : orDefault (t.get? "adm") stream? default
      = some (c.keeping p).stream := by
    cases hp : p.stream with
    | true =>
        obtain ⟨origin, sub, hsub, hholds⟩ :=
          h.get?_section "adm" (streamLines c.stream p) (by
            simp [outline, given, hp])
        simpa [hsub, keeping, hp, orDefault]
          using stream?_table hholds hw hh
    | false =>
        rw [h.get?_none (fun htop => absurd (mem_topKeys htop) (by decide))
          (by cases hs : p.stats <;> simp [outline, given, hp, hs])]
        simp [keeping, hp, orDefault]
  have hstats : orDefault (t.get? "stats") stats? default
      = some (c.keeping p).stats := by
    cases hp : p.stats with
    | true =>
        obtain ⟨origin, sub, hsub, hholds⟩ :=
          h.get?_section "stats" (statsLines c.stats p) (by
            cases hs : p.stream <;>
              simp [outline, given, hp, hs, List.lookup_cons])
        simpa [hsub, keeping, hp, orDefault] using stats?_table hholds
    | false =>
        rw [h.get?_none (fun htop => absurd (mem_topKeys htop) (by decide))
          (by cases hs : p.stream <;> simp [outline, given, hp, hs])]
        simp [keeping, hp, orDefault]
  unfold ofEntries?
  simp only [knownFields?_eq hkeys, Option.bind_eq_bind, Option.bind_some,
    hreference, hdistorted, hparallel, hstream, hstats]
  rfl

-- ================================================================ round trip

/-- A configuration reads back from the text that is written for it. A
document with some of its parts, written line by line or in any other way
that TOML has, reads as the configuration with its other parts at their
defaults. -/
theorem ofText?_toText (c : RunConfig)
    (hw : c.stream.dims.width ≤ 2 ^ (63 : Nat) - 1)
    (hh : c.stream.dims.height ≤ 2 ^ (63 : Nat) - 1) :
    ofText? c.toText = some c ∧
      ∀ p : Parts, ofText? (c.outline p).text = some (c.keeping p) ∧
        ∀ text t, Toml.read? text = some t → (c.outline p).HoldIn t →
          ofText? text = some (c.keeping p) := by
  have hread (p : Parts) (text : String) (t : Entries)
      (ht : Toml.read? text = some t) (h : (c.outline p).HoldIn t) :
      ofText? text = some (c.keeping p) := by
    unfold ofText?
    rw [ht]
    exact ofEntries?_keeping h (by omega) (by omega)
  have hwrite (p : Parts) :
      ofText? (c.outline p).text = some (c.keeping p) := by
    obtain ⟨t, ht, h⟩ := Toml.Document.read?_text
      (outline_proper (c := c) (p := p) (by omega) (by omega))
    exact hread p _ t ht h
  refine ⟨?_, fun p => ⟨hwrite p, hread p⟩⟩
  rw [← text_outline_all, hwrite, keeping_all]

/-- Paths that need an escape or tripled marks, and the greatest width. -/
def awkward : RunConfig where
  reference := "it's \"one\" \\ path"
  distorted := "C:\\new\\\"\"\"\n'''\x00\x7f\t\r\n"
  parallel := true
  stream := { dims := ⟨2 ^ (63 : Nat) - 1, 1⟩, format := ⟨.horizontal, .ten⟩ }
  stats := { file := some "back\\slash", label := .adm }

theorem ofText?_toText_awkward :
    (awkward.stream.dims.width ≤ 2 ^ (63 : Nat) - 1 ∧
      awkward.stream.dims.height ≤ 2 ^ (63 : Nat) - 1) ∧
    ofText? awkward.toText = some awkward ∧
      ofText? (awkward.outline ⟨false, true, false, true, false, true⟩).text
        = some
          { awkward with
            parallel := false
            stream := { dims := ⟨2 ^ (63 : Nat) - 1, 1⟩, format := default }
            stats := { file := none, label := .adm } } :=
  have h := ofText?_toText awkward (by decide) (by decide)
  ⟨⟨by decide, by decide⟩, h.1, (h.2 _).1⟩

end RunConfig

end AdditiveDetail
