/-
A directory as a host with files.

A path that leads to a name leads there whatever files there are: files
decide only which error a path comes to that goes through one of them
(`follow_ok`). So what is written under a path is what is read there
(`read_write`), and nothing else changes (`read_write_of_ne`). A directory
keeps what it is given under every path (`isFile`), and paths to different
files are apart (`apart`).
-/
import AdditiveDetail.Proofs.CommandLine.Files

namespace AdditiveDetail

namespace CommandLine

namespace Directory

variable {d : Directory} {path name other : String} {bytes : Bytes}

-- ===================================================================== paths

theorem follow_ok {place : String} {names : List String} {t : Target}
    (h : d.follow place names = .ok t) (d' : Directory) :
    d'.follow place names = .ok t := by
  induction names generalizing place with
  | nil => exact h
  | cons name rest ih =>
      unfold follow at h ⊢
      split at h
      · next hname =>
          rw [if_pos hname]
          exact ih h
      · next hname =>
          rw [if_neg hname]
          split at h
          · next hup =>
              rw [if_pos hup]
              exact ih h
          · next hup =>
              rw [if_neg hup]
              split at h
              · next hlast =>
                  rw [if_pos hlast]
                  exact h
              · -- a name that is not the last one leads nowhere
                split at h
                · cases h
                · split at h <;> cases h

theorem target_ok {t : Target} (h : d.target path = .ok t)
    (d' : Directory) : d'.target path = .ok t := by
  unfold target at h ⊢
  split at h
  · cases h
  · next hnul =>
      rw [if_neg hnul]
      split at h
      · cases h
      · next hempty =>
          rw [if_neg hempty]
          split at h
          · cases h
          · next hlong =>
              rw [if_neg hlong]
              exact follow_ok h d'

/-- Which file may be written under a path does not depend on the files. -/
theorem writable_ok (h : d.writable path = .ok name) (d' : Directory) :
    d'.writable path = .ok name := by
  unfold writable at h ⊢
  cases ht : d.target path with
  | error e =>
      rw [ht] at h
      cases h
  | ok t =>
      rw [ht] at h
      rw [target_ok ht d']
      exact h

/-- A file that may be written is what is read under its path. -/
theorem read_of_writable (h : d.writable path = .ok name) :
    d.read path = match d.file? name with
      | none => .error .notFound
      | some bytes => .ok bytes := by
  unfold writable at h
  unfold read
  cases ht : d.target path with
  | error e =>
      rw [ht] at h
      cases h
  | ok t =>
      rw [ht] at h
      cases t with
      | directory => cases h
      | entry place last =>
          simp only [bind, Except.bind] at h ⊢
          split at h
          · cases h
          · next hslash =>
              split at h
              · cases h
              · next hfits =>
                  cases h
                  rw [if_neg hfits]
                  cases d.file? (place ++ last) with
                  | none => rfl
                  | some bytes => exact if_neg hslash

-- ===================================================================== files

theorem file?_write : (d.write name bytes).file? name = some bytes := by
  simp [file?, write]

theorem lookup_filter_of_ne {files : List (String × Bytes)}
    (h : other ≠ name) :
    (files.filter fun f => f.1 ≠ name).lookup other = files.lookup other := by
  induction files with
  | nil => rfl
  | cons f files ih =>
      rw [List.filter_cons]
      split
      · rw [List.lookup_cons, List.lookup_cons, ih]
      · next hf =>
          have hf : f.1 = name := by simpa using hf
          rw [ih, List.lookup_cons, beq_false_of_ne fun h' => h (h'.trans hf)]

theorem file?_write_of_ne (h : other ≠ name) :
    (d.write name bytes).file? other = d.file? other := by
  unfold file? write
  rw [List.lookup_cons, beq_false_of_ne h]
  exact lookup_filter_of_ne h

/-- What is written to a file is read under its path. -/
theorem read_write (h : d.writable path = .ok name) (bytes : Bytes) :
    (d.write name bytes).read path = .ok bytes := by
  rw [read_of_writable (writable_ok h _), file?_write]

/-- It is not read under a path that leads to another file. -/
theorem read_write_of_ne {last : String} (h : d.writable path = .ok last)
    (hne : last ≠ name) (bytes : Bytes) :
    (d.write name bytes).read path = d.read path := by
  rw [read_of_writable (writable_ok h _), read_of_writable h,
    file?_write_of_ne hne]

-- ================================================================== as a host

theorem changed_ok_iff {r : Except IoError Directory} :
    (d.changed r).1 = .ok () ↔ ∃ d', r = .ok d' ∧ (d.changed r).2 = d' := by
  cases r with
  | ok d' => simp [changed]
  | error cause => simp [changed]

/-- What is appended under a path is written behind what is read there. -/
theorem append_eq_ok {text : String} {d' : Directory}
    (h : d.append path text = .ok d') : ∃ name bytes,
      d.writable path = .ok name ∧ d.read path = .ok bytes ∧
      d' = d.write name (bytes ++ text.toUTF8.data) := by
  unfold append at h
  cases hread : d.read path with
  | error cause =>
      rw [hread] at h
      cases h
  | ok bytes =>
      cases hname : d.writable path with
      | error cause =>
          rw [hread, hname] at h
          cases h
      | ok name =>
          rw [hread, hname] at h
          cases h
          exact ⟨name, bytes, rfl, rfl, rfl⟩

theorem create_eq_ok {d' : Directory} (h : d.create path = .ok d') :
    ∃ name, d.writable path = .ok name ∧ d' = d.write name #[] := by
  unfold create at h
  cases hname : d.writable path with
  | error cause =>
      rw [hname] at h
      cases h
  | ok name =>
      rw [hname] at h
      cases h
      exact ⟨name, rfl, rfl⟩

/-- Every path of a directory leads to a file, as far as it leads to one. -/
theorem isFile (w : World) (path : String) :
    w.host.IsFile path fun d => (d.read path).toOption where
  created d hok := by
    obtain ⟨d', hcreate, hd'⟩ := changed_ok_iff.1 hok
    obtain ⟨name, hname, rfl⟩ := create_eq_ok hcreate
    show ((d.changed (d.create path)).2.read path).toOption = _
    rw [hd', read_write hname]
    rfl
  appended d bytes text hheld hok := by
    obtain ⟨d', happend, hd'⟩ := changed_ok_iff.1 hok
    obtain ⟨name, before, hname, hread, rfl⟩ := append_eq_ok happend
    rw [hread] at hheld
    obtain rfl := Option.some.inj hheld
    show ((d.changed (d.append path text)).2.read path).toOption = _
    rw [hd', read_write hname]
    rfl
  flushed d bytes hheld _ := by
    show d.read path = .ok bytes
    cases hread : d.read path with
    | ok before =>
        rw [hread] at hheld
        exact congrArg Except.ok (Option.some.inj hheld)
    | error cause =>
        rw [hread] at hheld
        cases hheld

/-- Paths to different files are apart. -/
theorem apart (w : World) {last : String} (h : d.writable path = .ok name)
    (hother : d.writable other = .ok last) (hne : last ≠ name) :
    w.host.Apart path other where
  create files := by
    have hcreate : files.create path = .ok (files.write name #[]) := by
      unfold create
      rw [writable_ok h files]
      rfl
    show (files.changed (files.create path)).2.read other = _
    rw [hcreate]
    exact read_write_of_ne (writable_ok hother files) hne _
  append files text := by
    show (files.changed (files.append path text)).2.read other = _
    cases happend : files.append path text with
    | error cause => rfl
    | ok d' =>
        obtain ⟨name', before, hname', -, rfl⟩ := append_eq_ok happend
        obtain rfl := Except.ok.inj (hname'.symm.trans (writable_ok h files))
        exact read_write_of_ne (writable_ok hother files) hne _
  flush _ := rfl

/-- A file is created under a path that can be written. -/
theorem host_create (w : World) (h : d.writable path = .ok name) :
    w.host.create d path = (.ok (), d.write name #[]) := by
  have hcreate : d.create path = .ok (d.write name #[]) := by
    unfold create
    rw [h]
    rfl
  exact congrArg d.changed hcreate

/-- A text is appended to a file that is there. -/
theorem host_append (w : World) (h : d.writable path = .ok name)
    (hread : d.read path = .ok bytes) (text : String) :
    w.host.append d path text
      = (.ok (), d.write name (bytes ++ text.toUTF8.data)) := by
  have happend : d.append path text
      = .ok (d.write name (bytes ++ text.toUTF8.data)) := by
    unfold append
    rw [hread, h]
    rfl
  exact congrArg d.changed happend

theorem appendLines_ok (w : World) (h : d.writable path = .ok name)
    (hread : d.read path = .ok bytes) (lines : List String) :
    (w.host.appendLines path d lines).1 = .ok () := by
  induction lines generalizing d bytes with
  | nil => rfl
  | cons line rest ih =>
      rw [Host.appendLines, host_append w h hread, Host.next_of_ok rfl]
      exact ih (writable_ok h _) (read_write h _)

/-- Lines can be stored under a path that can be written. -/
theorem store_ok (w : World) (h : d.writable path = .ok name)
    (lines : List String) : (w.host.store d path lines).1 = .ok () := by
  have hlines := appendLines_ok w (writable_ok h _) (read_write h #[]) lines
  rw [Host.store, host_create w h, Host.next_of_ok rfl,
    Host.next_of_ok hlines]
  rfl

end Directory

end CommandLine

end AdditiveDetail
