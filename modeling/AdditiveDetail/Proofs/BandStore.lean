/-
Sets of bands as a store that remembers what was last written.

# Calls

A set of bands is asked to move its window, and it lends the windows of its
bands to be written: of one band of detail, of the three of them, or of all
four (`Loan`). What is lent is written cell by cell or as a whole picture.
A call that is refused, for a window that does not fit or a cell outside of
the window, leaves the set as it was.

# The last value

What a cell holds is told from the calls alone. `written` lists the values
that they write to it, in order: each call is taken with the window that the
calls in front of it have left, and the rest of the buffers does not appear.
The run lemma (`get_behind`) says that a cell holds the last of these values,
or what it held at first, whether it stands inside the window or not. So it
does not matter where the window was in between: a cell that comes back into
it shows what it showed when it was last there.

# The stages

A level of the transform and a stage of the detail move the window and write
a picture to each band that they are lent (`forward_behind`,
`writeDetails_behind`). Nothing else is done to a set of bands, so all of
this is true of the buffers that scales and frames share.
-/
import AdditiveDetail.Proofs.Detail.Indexed

namespace AdditiveDetail

-- =============================================================== single cells

/-- Whether a cell stands inside a window. -/
def Dims.Contains (d : Dims) (i j : Nat) : Prop := i < d.height ∧ j < d.width

instance (d : Dims) (i j : Nat) : Decidable (d.Contains i j) :=
  inferInstanceAs (Decidable (_ ∧ _))

namespace BandSet

variable {c : Dims}

theorem dims_modify (b : BandSet c) (band : Band)
    (f : Grid Int16 c → Grid Int16 c) : (b.modify band f).dims = b.dims := by
  cases band <;> rfl

theorem get_put (b : BandSet c) (band band' : Band) (row : Fin b.dims.height)
    (column : Fin b.dims.width) (x : Int16) (i : Fin c.height)
    (j : Fin c.width) :
    ((b.put band row column x).buffer band').get i j
      = if band = band' ∧ row.val = i ∧ column.val = j then x
        else (b.buffer band').get i j := by
  unfold put
  rw [buffer_modify]
  by_cases hband : band' = band
  · subst hband
    simp [Grid.get_set, Fin.ext_iff, eq_comm]
  · have hband' : ¬ band = band' := fun h => hband h.symm
    simp [hband, hband']

theorem get_write (b : BandSet c) (band band' : Band)
    (picture : Nat → Nat → Int16) (i : Fin c.height) (j : Fin c.width) :
    ((b.write band fun i j => picture i j).buffer band').get i j
      = if band' = band ∧ b.dims.Contains i j then picture i j
        else (b.buffer band').get i j := by
  unfold write Dims.Contains
  rw [buffer_modify]
  by_cases hband : band' = band
  · subst hband
    simp [Grid.get_write]
  · simp [hband]

-- ===================================================================== calls

/-- The bands whose windows are lent together. -/
inductive Loan where
  | one (o : Orientation)
  | details
  | all

/-- The bands of a loan, in the order in which they are lent. -/
def Loan.bands : Loan → List Band
  | .one o => [.detail o]
  | .details => Orientation.all.map .detail
  | .all => .approximation :: Orientation.all.map .detail

/-- What may be asked of a set of bands. -/
inductive Call where
  | setDims (d : Dims)
  | put (band : Band) (row column : Nat) (x : Int16)
  | write (loan : Loan) (picture : Band → Nat → Nat → Int16)

/-- Put pictures into the windows of bands, one after the other. -/
def writeEach (b : BandSet c) (bands : List Band)
    (picture : Band → Nat → Nat → Int16) : BandSet c :=
  bands.foldl (fun b band => b.write band fun i j => picture band i j) b

/-- What comes of a call. -/
def perform (b : BandSet c) : Call → Except Fault (BandSet c)
  | .setDims d => b.setDims d
  | .put band row column x => b.putAt band row column x
  | .write loan picture => .ok (b.writeEach loan.bands picture)

/-- The set behind a call. -/
def after (b : BandSet c) (call : Call) : BandSet c :=
  (b.perform call).toOption.getD b

/-- The set behind a sequence of calls. -/
def behind (b : BandSet c) (calls : List Call) : BandSet c :=
  calls.foldl after b

theorem dims_writeEach (b : BandSet c) (bands : List Band)
    (picture : Band → Nat → Nat → Int16) :
    (b.writeEach bands picture).dims = b.dims := by
  induction bands generalizing b with
  | nil => rfl
  | cons band rest ih => exact (ih _).trans (b.dims_modify band _)

theorem get_writeEach (b : BandSet c) (bands : List Band)
    (picture : Band → Nat → Nat → Int16) (band : Band) (i : Fin c.height)
    (j : Fin c.width) :
    ((b.writeEach bands picture).buffer band).get i j
      = if band ∈ bands ∧ b.dims.Contains i j then picture band i j
        else (b.buffer band).get i j := by
  induction bands generalizing b with
  | nil => simp [writeEach]
  | cons first rest ih =>
      have hrest := ih (b.write first fun i j => picture first i j)
      have hdims : (b.write first fun i j => picture first i j).dims = b.dims :=
        b.dims_modify first _
      rw [hdims, get_write] at hrest
      refine hrest.trans ?_
      by_cases hband : band = first
      · subst hband
        by_cases hcell : b.dims.Contains i j <;> simp [hcell]
      · simp [hband]

-- ============================================================ told from calls

namespace Call

/-- The window that a call leaves, over buffers of capacity `c`: one that fits
is granted. -/
def windowOver (c d : Dims) : Call → Dims
  | .setDims d' => if d' ≤ c then d' else d
  | .put .. => d
  | .write .. => d

/-- The value that a call writes to a cell, through a window of size `d`. -/
def value? (d : Dims) (band : Band) (i j : Nat) : Call → Option Int16
  | .setDims _ => none
  | .put band' row column x =>
      if (band' = band ∧ row = i ∧ column = j) ∧ d.Contains i j then some x
      else none
  | .write loan picture =>
      if band ∈ loan.bands ∧ d.Contains i j then some (picture band i j)
      else none

end Call

/-- The window behind a sequence of calls. -/
def windowBehind (c d : Dims) (calls : List Call) : Dims :=
  calls.foldl (fun d call => call.windowOver c d) d

/-- The values that calls write to a cell, in order. -/
def written (c : Dims) (band : Band) (i j : Nat) : Dims → List Call → List Int16
  | _, [] => []
  | d, call :: rest =>
      (call.value? d band i j).toList
        ++ written c band i j (call.windowOver c d) rest

theorem written_cons (band : Band) (i j : Nat) (d : Dims) (call : Call)
    (rest : List Call) :
    written c band i j d (call :: rest)
      = (call.value? d band i j).toList
        ++ written c band i j (call.windowOver c d) rest := rfl

/-- The last of some values, or else of those in front of them. -/
theorem getLastD_toList_append (x? : Option Int16) (values : List Int16)
    (x : Int16) :
    (x?.toList ++ values).getLastD x = values.getLastD (x?.getD x) := by
  cases x? with
  | none => rfl
  | some y => exact List.getLastD_cons

-- ================================================================== one call

theorem setDims_eq_ok_iff {b b' : BandSet c} {d : Dims} :
    b.setDims d = .ok b' ↔ ∃ h : d ≤ c, b' = { b with dims := d, fits := h } := by
  unfold setDims
  by_cases h : d ≤ c
  · rw [dif_pos h]
    constructor
    · intro hb
      exact ⟨h, (Except.ok.inj hb).symm⟩
    · rintro ⟨-, rfl⟩
      rfl
  · rw [dif_neg h]
    constructor
    · intro hb
      cases hb
    · rintro ⟨h', -⟩
      exact absurd h' h

theorem after_of_refused {b : BandSet c} {call : Call} {fault : Fault}
    (h : b.perform call = .error fault) : b.after call = b := by
  unfold after
  rw [h]
  rfl

/-- A call leaves the window that it is told to leave. -/
theorem dims_after (b : BandSet c) (call : Call) :
    (b.after call).dims = call.windowOver c b.dims := by
  unfold after perform Call.windowOver
  cases call with
  | setDims d =>
      unfold setDims
      by_cases h : d ≤ c
      · simp [h, Except.toOption]
      · simp [h, Except.toOption]
  | put band row column x =>
      unfold putAt
      by_cases h : row < b.dims.height ∧ column < b.dims.width
      · simp only [h, and_self, dif_pos, Except.toOption, Option.getD_some]
        exact b.dims_modify band _
      · simp [h, Except.toOption]
  | write loan picture => exact b.dims_writeEach loan.bands picture

/-- A call leaves in a cell what it writes to it, or what was there. -/
theorem get_after (b : BandSet c) (call : Call) (band : Band)
    (i : Fin c.height) (j : Fin c.width) :
    ((b.after call).buffer band).get i j
      = (call.value? b.dims band i j).getD ((b.buffer band).get i j) := by
  unfold after perform Call.value?
  cases call with
  | setDims d =>
      unfold setDims
      by_cases h : d ≤ c
      · simp [h, Except.toOption, buffer]
      · simp [h, Except.toOption]
  | put band' row column x =>
      unfold putAt Dims.Contains
      by_cases h : row < b.dims.height ∧ column < b.dims.width
      · simp only [h, and_self, dif_pos, Except.toOption, Option.getD_some]
        rw [get_put]
        by_cases hcell : band' = band ∧ row = i ∧ column = j
        · obtain ⟨rfl, rfl, rfl⟩ := hcell
          simp [h]
        · simp [hcell]
      · have hcell : ¬((band' = band ∧ row = i.val ∧ column = j.val) ∧
            i.val < b.dims.height ∧ j.val < b.dims.width) := by
          rintro ⟨⟨-, rfl, rfl⟩, hinside⟩
          exact h hinside
        simp [h, hcell, Except.toOption]
  | write loan picture =>
      simp only [Except.toOption, Option.getD_some]
      rw [get_writeEach]
      split <;> rfl

-- ================================================================= many calls

theorem dims_behind (b : BandSet c) (calls : List Call) :
    (b.behind calls).dims = windowBehind c b.dims calls := by
  induction calls generalizing b with
  | nil => rfl
  | cons call rest ih =>
      have hrest := ih (b.after call)
      rw [dims_after] at hrest
      exact hrest

/-- Behind any calls a cell holds the last value that they write to it, or
what it held in front of them. -/
theorem get_behind (b : BandSet c) (calls : List Call) (band : Band)
    (i : Fin c.height) (j : Fin c.width) :
    ((b.behind calls).buffer band).get i j
      = (written c band i j b.dims calls).getLastD
        ((b.buffer band).get i j) := by
  induction calls generalizing b with
  | nil => rfl
  | cons call rest ih =>
      have hrest := ih (b.after call)
      rw [dims_after, get_after] at hrest
      rw [written_cons, getLastD_toList_append]
      exact hrest

-- ================================================================== the stages

/-- A picture with a value at every place. -/
theorem exists_picture {d : Dims} (x : Raster Int16 d) :
    ∃ picture : Nat → Nat → Int16,
      ∀ (i : Fin d.height) (j : Fin d.width), picture i j = x i j :=
  ⟨fun i j => if h : d.Contains i j then x ⟨i, h.1⟩ ⟨j, h.2⟩ else 0,
    fun i j => dif_pos ⟨i.isLt, j.isLt⟩⟩

theorem get_write_picture (g : Grid Int16 c) {d : Dims} (hfits : d ≤ c)
    {x : Raster Int16 d} {picture : Nat → Nat → Int16}
    (h : ∀ (i : Fin d.height) (j : Fin d.width), picture i j = x i j)
    (i : Fin c.height) (j : Fin c.width) :
    (g.write d hfits x).get i j
      = if d.Contains i j then picture i j else g.get i j := by
  rw [Grid.get_write]
  by_cases hcell : d.Contains i j
  · rw [if_pos hcell, h ⟨i, hcell.1⟩ ⟨j, hcell.2⟩]
    exact dif_pos hcell
  · rw [if_neg hcell]
    exact dif_neg hcell

/-- Sets of bands that differ by a window and the pictures in it differ by two
calls. -/
theorem eq_behind {b b' : BandSet c} {d : Dims} (hfits : d ≤ c) (loan : Loan)
    (picture : Band → Nat → Nat → Int16) (hdims : b'.dims = d)
    (hget : ∀ (band : Band) (i : Fin c.height) (j : Fin c.width),
      (b'.buffer band).get i j
        = if band ∈ loan.bands ∧ d.Contains i j then picture band i j
          else (b.buffer band).get i j) :
    b' = b.behind [.setDims d, .write loan picture] := by
  apply ext_buffer
  · rw [dims_behind, hdims]
    simp [windowBehind, Call.windowOver, hfits]
  · intro band
    apply Grid.ext
    intro i j
    rw [hget, get_behind]
    by_cases hcell : band ∈ loan.bands ∧ d.Contains i j
    · simp [written, Call.value?, Call.windowOver, hfits, hcell]
    · simp [written, Call.value?, Call.windowOver, hfits, hcell]

/-- A stage of the detail moves the window and is lent the three bands of
detail. -/
theorem writeDetails_behind {b b' : BandSet c} {d : Dims} {x : Detail d}
    (h : b.writeDetails d x = .ok b') :
    ∃ picture, b' = b.behind [.setDims d, .write .details picture] := by
  have hpictures (band : Band) : ∃ picture : Nat → Nat → Int16,
      ∀ o, band = .detail o → ∀ (i : Fin d.height) (j : Fin d.width),
        picture i j = x o i j := by
    cases band with
    | approximation =>
        refine ⟨fun _ _ => 0, fun o ho => ?_⟩
        cases ho
    | detail o =>
        obtain ⟨picture, hpicture⟩ := exists_picture (x o)
        refine ⟨picture, fun o' ho => ?_⟩
        obtain rfl := Band.detail.inj ho
        exact hpicture
  choose picture hpicture using hpictures
  unfold writeDetails at h
  by_cases hfits : d ≤ c
  · rw [dif_pos hfits] at h
    obtain rfl := Except.ok.inj h
    refine ⟨picture, eq_behind hfits .details _ rfl fun band i j => ?_⟩
    cases band with
    | approximation => simp [Loan.bands, buffer]
    | detail o =>
        have hlent : Band.detail o ∈ Loan.details.bands := by
          cases o <;> decide
        simp only [buffer, Details.get_ofFn, hlent, true_and]
        exact get_write_picture _ hfits (hpicture _ o rfl) i j
  · rw [dif_neg hfits] at h
    cases h

/-- A level of the transform moves the window and is lent all four bands. -/
theorem forward_behind {maxWidth : Nat} {t t' : Transform maxWidth}
    {src : Image} {b b' : BandSet c} (h : t.forward src b = .ok (t', b')) :
    ∃ picture, b' = b.behind [.setDims src.dims.half, .write .all picture] := by
  unfold Transform.forward at h
  by_cases hw : src.dims.width ≤ maxWidth
  · by_cases hfits : src.dims.half ≤ c
    · by_cases hne : src.dims.Nonempty
      · rw [dif_pos hw, dif_pos hfits, dif_pos hne] at h
        have hwritten := t.sweep_snd src b hne hw hfits
        rw [Except.ok.inj h] at hwritten
        obtain rfl : b' = _ := hwritten
        choose picture hpicture using fun band =>
          exists_picture (src.sample.subBand hne t.filters band)
        refine ⟨picture, eq_behind hfits .all _ rfl fun band i j => ?_⟩
        have hlent : band ∈ Loan.all.bands := by
          cases band with
          | approximation => decide
          | detail o => cases o <;> decide
        simp only [buffer_writeBands, hlent, true_and]
        exact get_write_picture _ hfits (hpicture band) i j
      · rw [dif_pos hw, dif_pos hfits, dif_neg hne] at h
        cases h
    · rw [dif_pos hw, dif_neg hfits] at h
      cases h
  · rw [dif_neg hw] at h
    cases h

-- =============================================================== what is shown

/-- What a window shows and a window takes are the cells inside it. -/
theorem putAt_ok_iff {b : BandSet c} {band : Band} {i j : Nat} {x : Int16} :
    (∃ b', b.putAt band i j x = .ok b') ↔ b.dims.Contains i j := by
  unfold putAt Dims.Contains
  by_cases h : i < b.dims.height ∧ j < b.dims.width
  · simp [h]
  · simp [h]

theorem view_get? (b : BandSet c) (band : Band) (i j : Nat) :
    (b.view band).get? i j
      = if h : b.dims.Contains i j then
          some ((b.buffer band).get ⟨i, h.1.trans_le b.fits.2⟩
            ⟨j, h.2.trans_le b.fits.1⟩)
        else none := by
  unfold Raster.get? index?
  by_cases hi : i < b.dims.height
  · by_cases hj : j < b.dims.width
    · simp [Dims.Contains, hi, hj, view, Grid.window]
    · simp [Dims.Contains, hj]
  · simp [Dims.Contains, hi]

/-- A buffer is a list of rows, each of them a stride long. -/
theorem toList_getElem? (g : Grid Int16 c) (i : Fin c.height)
    (j : Fin c.width) : g.toList[i.val * c.width + j.val]? = some (g.get i j) := by
  unfold Grid.toList
  rw [Vector.getElem?_toList]
  exact Vector.getElem?_eq_getElem (Grid.position i j).isLt

-- =================================================================== the store

/-- A set of bands behind calls: which windows it grants, what its window is,
and what it shows and stores. The stages of the scoring do nothing to it but
such calls. -/
structure StoresLast (calls : List Call) (b : BandSet c) : Prop where
  granted_iff : ∀ d : Dims, (∃ b', b.setDims d = .ok b')
    ↔ d.width ≤ c.width ∧ d.height ≤ c.height
  granted : ∀ (d : Dims) (b' : BandSet c), b.setDims d = .ok b' →
    b'.dims = d ∧ ∀ band, b'.buffer band = b.buffer band
  refused : ∀ (d : Dims) (fault : Fault), b.setDims d = .error fault →
    fault = .windowTooLarge d c
  unchanged : ∀ (call : Call) (fault : Fault), b.perform call = .error fault →
    b.after call = b
  dims_eq : b.dims = windowBehind c c calls
  dims_le : b.dims.width ≤ c.width ∧ b.dims.height ≤ c.height
  length_eq : ∀ band, (b.buffer band).toList.length = c.area
  writable_iff : ∀ (band : Band) (i j : Nat) (x : Int16),
    (∃ b', b.putAt band i j x = .ok b') ↔ b.dims.Contains i j
  shown : ∀ (band : Band) (i j : Nat), (b.view band).get? i j
    = if b.dims.Contains i j then
        some ((written c band i j c calls).getLastD 0)
      else none
  stored : ∀ (band : Band) (i : Fin c.height) (j : Fin c.width),
    (b.buffer band).toList[i.val * b.stride + j.val]?
      = some ((written c band i j c calls).getLastD 0)
  details_called : ∀ (d : Dims) (x : Detail d) (b' : BandSet c),
    b.writeDetails d x = .ok b' →
      ∃ picture, b' = b.behind [.setDims d, .write .details picture]
  level_called : ∀ (maxWidth : Nat) (t t' : Transform maxWidth) (src : Image)
    (b' : BandSet c), t.forward src b = .ok (t', b') →
      ∃ picture, b' = b.behind [.setDims src.dims.half, .write .all picture]

theorem allocate_eq_ok {fresh : BandSet c} (h : allocate c = .ok fresh) :
    fresh = zeros c := by
  unfold allocate at h
  cases hcheck : Allocation.checkGrid c with
  | error e =>
      rw [hcheck] at h
      cases h
  | ok u =>
      rw [hcheck] at h
      exact (Except.ok.inj h).symm

theorem buffer_zeros (band : Band) : (zeros c).buffer band = Grid.fill c 0 := by
  cases band with
  | approximation => rfl
  | detail o => cases o <;> rfl

/-- THE LAST WRITE: behind any calls to a fresh set of bands, whatever windows
were asked for in between, a window is granted exactly if it fits, the window
is the last that was granted, and inside it each band shows the last value
that was written to a cell, or zero. -/
theorem behind_storesLast (fresh : BandSet c) (h : allocate c = .ok fresh)
    (calls : List Call) : (fresh.behind calls).StoresLast calls := by
  obtain rfl := allocate_eq_ok h
  have hcell (band : Band) (i : Fin c.height) (j : Fin c.width) :
      (((zeros c).behind calls).buffer band).get i j
        = (written c band i j c calls).getLastD 0 := by
    rw [get_behind, buffer_zeros, Grid.get_fill]
    rfl
  have hdims := dims_behind (zeros c) calls
  generalize (zeros c).behind calls = b at hcell hdims
  constructor
  · intro d
    simp only [setDims_eq_ok_iff]
    constructor
    · rintro ⟨b', hfits, -⟩
      exact hfits
    · intro hfits
      exact ⟨_, hfits, rfl⟩
  · intro d b' hb'
    obtain ⟨hfits, rfl⟩ := setDims_eq_ok_iff.1 hb'
    refine ⟨rfl, fun band => ?_⟩
    cases band <;> rfl
  · intro d fault hfault
    unfold setDims at hfault
    split at hfault
    · cases hfault
    · exact (Except.error.inj hfault).symm
  · intro call fault hfault
    exact after_of_refused hfault
  · exact hdims
  · exact b.fits
  · intro band
    simp [Grid.toList, Dims.area, Nat.mul_comm]
  · intro band i j x
    exact putAt_ok_iff
  · intro band i j
    rw [view_get?]
    split
    · rw [hcell]
    · rfl
  · intro band i j
    rw [← hcell]
    exact toList_getElem? _ i j
  · intro d x b' hb'
    exact writeDetails_behind hb'
  · intro maxWidth t t' src b' hb'
    exact forward_behind hb'

/-- A cell is written, leaves the window and comes back, while its band is
written elsewhere; a window that is too wide and a cell outside the window are
refused. -/
def shrinkAndGrow : List Call :=
  [.put (.detail .diagonal) 1 2 7, .setDims ⟨2, 2⟩,
    .write .details fun _ _ _ => 5, .setDims ⟨4, 1⟩,
    .put (.detail .diagonal) 1 2 9, .setDims ⟨3, 2⟩]

theorem behind_storesLast_shrinkAndGrow :
    ∃ fresh : BandSet ⟨3, 2⟩, allocate ⟨3, 2⟩ = .ok fresh ∧
      (fresh.behind shrinkAndGrow).dims = ⟨3, 2⟩ ∧
      ((fresh.behind shrinkAndGrow).view (.detail .diagonal)).get? 1 2
        = some 7 ∧
      ((fresh.behind shrinkAndGrow).view (.detail .diagonal)).get? 1 1
        = some 5 ∧
      ((fresh.behind shrinkAndGrow).view .approximation).get? 1 1 = some 0 ∧
      ((fresh.behind shrinkAndGrow).view .approximation).get? 2 0 = none := by
  obtain ⟨fresh, hfresh⟩ : ∃ b : BandSet ⟨3, 2⟩, allocate ⟨3, 2⟩ = .ok b :=
    ⟨_, rfl⟩
  have hstore := behind_storesLast fresh hfresh shrinkAndGrow
  have hdims : (fresh.behind shrinkAndGrow).dims = ⟨3, 2⟩ :=
    hstore.dims_eq.trans (by decide)
  have hshown (band : Band) (i j : Nat) :
      ((fresh.behind shrinkAndGrow).view band).get? i j
        = if Dims.Contains ⟨3, 2⟩ i j then
            some ((written ⟨3, 2⟩ band i j ⟨3, 2⟩ shrinkAndGrow).getLastD 0)
          else none := by
    rw [hstore.shown, hdims]
  exact ⟨fresh, hfresh, hdims, (hshown ..).trans (by decide),
    (hshown ..).trans (by decide), (hshown ..).trans (by decide),
    (hshown ..).trans (by decide)⟩

end BandSet

end AdditiveDetail
