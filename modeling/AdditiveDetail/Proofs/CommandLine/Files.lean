/-
Files of a host, and what storing lines in one comes to.

# Storing

Lines are stored in a file that is created for them, appended to line by
line, and written out. Each of these effects may fail, and the first that
does is the last (`store`). What it leaves is the host's affair.

# What a file is

A host answers effects as it likes, and a path need not lead to a file that
keeps what it is given. That it does is a promise, given path by path
(`IsFile`): there is something that the file holds, be it written out or
not; a file that has been created holds nothing, a text that is appended
stands at its end, and once all is written out it is what is read. From
this it follows, by induction on the lines, that stored lines are what the
file holds (`IsFile.read_store`).

Two paths are apart if what is done under one does not show under the other
(`Apart`); a whole store does not show there either, wherever it stopped
(`Apart.read_store`).
-/
import AdditiveDetail.CommandLine.Script

namespace AdditiveDetail

namespace CommandLine

variable {σ : Type}

namespace Host

-- ==================================================================== storing

/-- Go on from the files that an effect has left, unless it has failed. -/
def next (r : Except IoError Unit × σ)
    (f : σ → Except IoError Unit × σ) : Except IoError Unit × σ :=
  match r.1 with
  | .ok _ => f r.2
  | .error cause => (.error cause, r.2)

/-- Append lines to a file, one after the other. -/
def appendLines (host : Host σ) (path : String) :
    σ → List String → Except IoError Unit × σ
  | files, [] => (.ok (), files)
  | files, line :: rest =>
      next (host.append files path line) fun files =>
        host.appendLines path files rest

/-- Create a file, append lines to it, and have them written out. -/
def store (host : Host σ) (files : σ) (path : String) (lines : List String) :
    Except IoError Unit × σ :=
  next (host.create files path) fun files =>
    next (host.appendLines path files lines) fun files => host.flush files path

section Next

variable {r : Except IoError Unit × σ} {f : σ → Except IoError Unit × σ}

theorem next_of_ok (h : r.1 = .ok ()) : next r f = f r.2 := by
  unfold next
  rw [h]

theorem next_of_error {cause : IoError} (h : r.1 = .error cause) :
    next r f = (.error cause, r.2) := by
  unfold next
  rw [h]

theorem next_ok_iff :
    (next r f).1 = .ok () ↔ r.1 = .ok () ∧ (f r.2).1 = .ok () := by
  cases hr : r.1 with
  | ok _ => simp [next_of_ok hr]
  | error cause => simp [next_of_error hr]

/-- What every effect keeps is kept, wherever the last one stopped. -/
theorem next_keeps {P : σ → Prop} (hr : P r.2)
    (hf : ∀ files, P files → P (f files).2) : P (next r f).2 := by
  cases h : r.1 with
  | ok _ => exact next_of_ok h ▸ hf _ hr
  | error cause => exact next_of_error h ▸ hr

end Next

variable {host : Host σ} {path other : String} {lines : List String}
  {files : σ} {bytes : Bytes}

/-- A file that cannot be created ends it. -/
theorem store_of_refused {cause : IoError}
    (hcreate : (host.create files path).1 = .error cause) :
    host.store files path lines = (.error cause, (host.create files path).2) :=
  next_of_error hcreate

-- ===================================================================== a file

/-- A path leads to a file that keeps what it is given. What it holds, with
all that is still to be written out, is told by `held`. -/
structure IsFile (host : Host σ) (path : String) (held : σ → Option Bytes) :
    Prop where
  created : ∀ files, (host.create files path).1 = .ok () →
    held (host.create files path).2 = some #[]
  appended : ∀ files bytes text, held files = some bytes →
    (host.append files path text).1 = .ok () →
    held (host.append files path text).2 = some (bytes ++ text.toUTF8.data)
  flushed : ∀ files bytes, held files = some bytes →
    (host.flush files path).1 = .ok () →
    host.read (host.flush files path).2 path = .ok bytes

variable {held : σ → Option Bytes}

theorem IsFile.held_appendLines (hfile : host.IsFile path held)
    (hheld : held files = some bytes)
    (hok : (host.appendLines path files lines).1 = .ok ()) :
    held (host.appendLines path files lines).2
      = some (bytes ++ (String.join lines).toUTF8.data) := by
  induction lines generalizing files bytes with
  | nil => simpa [appendLines] using hheld
  | cons line rest ih =>
      unfold appendLines at hok ⊢
      obtain ⟨hline, hrest⟩ := next_ok_iff.1 hok
      rw [next_of_ok hline, ih (hfile.appended _ _ _ hheld hline) hrest]
      simp [String.join_cons]

/-- Lines that have been stored are what the file holds. -/
theorem IsFile.read_store (hfile : host.IsFile path held)
    (hok : (host.store files path lines).1 = .ok ()) :
    host.read (host.store files path lines).2 path
      = .ok (String.join lines).toUTF8.data := by
  unfold store at hok ⊢
  obtain ⟨hcreate, hwritten⟩ := next_ok_iff.1 hok
  obtain ⟨happend, hflush⟩ := next_ok_iff.1 hwritten
  have hheld := hfile.held_appendLines (hfile.created _ hcreate) happend
  rw [next_of_ok hcreate, next_of_ok happend,
    hfile.flushed _ _ hheld hflush, Array.empty_append]

-- ================================================================ other files

/-- What is done under a path does not show under another one. -/
structure Apart (host : Host σ) (path other : String) : Prop where
  create : ∀ files,
    host.read (host.create files path).2 other = host.read files other
  append : ∀ files text,
    host.read (host.append files path text).2 other = host.read files other
  flush : ∀ files,
    host.read (host.flush files path).2 other = host.read files other

variable {r : Except IoError Bytes}

theorem Apart.read_appendLines (hapart : host.Apart path other)
    (hread : host.read files other = r) :
    host.read (host.appendLines path files lines).2 other = r := by
  induction lines generalizing files with
  | nil => exact hread
  | cons line rest ih =>
      exact next_keeps (P := fun now => host.read now other = r)
        ((hapart.append ..).trans hread) fun _ hkept => ih hkept

/-- Storing lines does not show under another path, even where it fails. -/
theorem Apart.read_store (hapart : host.Apart path other) :
    host.read (host.store files path lines).2 other
      = host.read files other := by
  let P : σ → Prop := fun now => host.read now other = host.read files other
  refine next_keeps (P := P) (hapart.create ..) fun _ hcreated => ?_
  refine next_keeps (P := P) (hapart.read_appendLines hcreated) ?_
  exact fun _ hwritten => (hapart.flush ..).trans hwritten

end Host

end CommandLine

end AdditiveDetail
